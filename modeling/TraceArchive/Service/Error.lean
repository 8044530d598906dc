import TraceArchive.Check.Violation
import TraceArchive.Service.IdSequence
import TraceArchive.Store.Basic

/-!
# Requests that fail

A request fails because of what it asks for, because a collaborator of the
service fails, or because a collaborator does not answer in time. The message
about a collaborator names the operation for which it was called.
-/

namespace TraceArchive

/-- What a collaborator of the service is called for. -/
inductive Operation where
  | allocateId
  | readTrace
  | lookUpExperiment
  | authorizeWrite
  | createTrace
  | updateTrace
  | setTag
  | deleteTag
deriving DecidableEq, Repr

/-- The operation as messages name it. -/
def Operation.phrase : Operation → String
  | .allocateId => "allocate trace id"
  | .readTrace => "read trace"
  | .lookUpExperiment => "look up experiment"
  | .authorizeWrite => "authorize write"
  | .createTrace => "create trace"
  | .updateTrace => "update trace"
  | .setTag => "set trace tag"
  | .deleteTag => "delete trace tag"

/-- Why the catalog of experiments or the authorizer gives no answer. -/
inductive CollaboratorError where
  | unavailable (name : String)
  | failed (reason : String)
deriving DecidableEq, Repr

/-- The wording of each error. -/
def CollaboratorError.message : CollaboratorError → String
  | .unavailable name => name ++ " unavailable"
  | .failed reason => reason

/-- Why a request fails. -/
inductive ServiceError where
  /-- The request is not acceptable. -/
  | rejected (violations : List Violation)
  /-- The trace can no longer be updated. -/
  | immutable (traceId : String) (state : TraceState)
  /-- There is no trace with this identifier. -/
  | notFound (traceId : String)
  /-- The client may not write there. -/
  | permissionDenied (principal : Option String) (location : TraceLocation)
  /-- A collaborator did not answer in time. -/
  | timeout (operation : Operation)
  /-- The store refused or failed. -/
  | store (operation : Operation) (error : StoreError)
  /-- The catalog or the authorizer failed. -/
  | collaborator (operation : Operation) (error : CollaboratorError)
  /-- No identifier could be allocated. -/
  | allocation (operation : Operation) (error : AllocationError)
deriving DecidableEq

namespace ServiceError

/-- The first violation, and how many there are beside it. -/
def summary : List Violation → String
  | [] => "no violations"
  | [only] => only.message
  | first :: rest =>
      first.message ++ " (and " ++ toString rest.length ++ " more)"

/-- The name of a client that may have none. -/
def principalName (principal : Option String) : String :=
  principal.getD "anonymous"

/-- The wording of each error. -/
def message : ServiceError → String
  | .rejected violations => "trace rejected: " ++ summary violations
  | .immutable traceId state =>
      "trace '" ++ traceId ++ "' is " ++ Vocabulary.name state ++
        " and can no longer be updated"
  | .notFound traceId => "trace '" ++ traceId ++ "' not found"
  | .permissionDenied principal location =>
      principalName principal ++ " may not write to " ++ location.describe
  | .timeout operation =>
      operation.phrase ++ " did not finish before the deadline"
  | .store operation error => operation.phrase ++ ": " ++ error.message
  | .collaborator operation error =>
      operation.phrase ++ ": " ++ error.message
  | .allocation operation error => operation.phrase ++ ": " ++ error.message

/-- The kind under which violations are reported: that of the first. -/
def rejectionKind : List Violation → String
  | [] => "INVALID_ARGUMENT"
  | first :: _ => first.kind

/-- The kind under which an error is reported. -/
def kind : ServiceError → String
  | .rejected violations => rejectionKind violations
  | .immutable _ _ => "IMMUTABLE_TRACE"
  | .notFound _ => "NOT_FOUND"
  | .permissionDenied _ _ => "PERMISSION_DENIED"
  | .timeout _ => "TIMEOUT"
  | .store _ error => error.kind
  | .collaborator _ _ => "UPSTREAM_UNAVAILABLE"
  | .allocation _ _ => "INTERNAL_ERROR"

/-- The violations that an error carries. -/
def violations : ServiceError → List Violation
  | .rejected violations => violations
  | _ => []

end ServiceError

end TraceArchive
