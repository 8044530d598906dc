import TraceArchive.Service.Error

/-!
# Requests as programs

The service reaches everything outside it by calls: to the source of
identifiers, the store, the catalog of experiments and its cache, and the
authorizer. A request is a program that makes one call after another and goes on
according to the answers. Each call is one step, between two of which other
requests may take theirs.
-/

namespace TraceArchive

/-- How a call that can fail ends. -/
inductive Outcome (Fault Answer : Type) where
  | answered (answer : Answer)
  | failed (fault : Fault)
  /-- There is no answer before the deadline. -/
  | stalled
deriving DecidableEq, Repr

namespace Outcome

variable {Fault Answer : Type}

/-- The outcome of a call that fails or answers at once. -/
def ofExcept : Except Fault Answer → Outcome Fault Answer
  | .error fault => .failed fault
  | .ok answer => .answered answer

/-- The answer, or the error of the request whose operation made the call. -/
def within (operation : Operation)
    (failure : Operation → Fault → ServiceError) :
    Outcome Fault Answer → Except ServiceError Answer
  | .answered answer => .ok answer
  | .failed fault => .error (failure operation fault)
  | .stalled => .error (.timeout operation)

end Outcome

/-- A call of the service. -/
inductive Call where
  | allocateId
  | readTrace (id : String)
  /-- Asks the cache whether an experiment is known to exist. -/
  | recallExperiment (identifier : String)
  /-- Asks the catalog whether an experiment exists. -/
  | lookUpExperiment (identifier : String)
  /-- Puts an experiment into the cache. -/
  | rememberExperiment (identifier : String)
  /-- Asks the authorizer whether a client may write to a location. -/
  | authorize (location : TraceLocation) (principal : Option String)
  | createTrace (trace : Trace)
  | replaceTrace (id : String) (expected : Nat) (trace : Trace)

/-- What a call is answered with. -/
abbrev Call.Answer : Call → Type
  | .allocateId => Outcome AllocationError Identifier
  | .readTrace _ => Outcome StoreError (Option StoredTrace)
  | .recallExperiment _ => Bool
  | .lookUpExperiment _ => Outcome CollaboratorError Bool
  | .rememberExperiment _ => Unit
  | .authorize _ _ => Outcome CollaboratorError Bool
  | .createTrace _ => Outcome StoreError StoredTrace
  | .replaceTrace _ _ _ => Outcome StoreError StoredTrace

/-- A request, or what is left of it. -/
inductive Program (Result : Type) where
  /-- The request is over. -/
  | done (result : Result)
  /-- The request makes a call and goes on with the answer. -/
  | step (call : Call) (resume : call.Answer → Program Result)

namespace Program

variable {Result Next : Type}

/-- Goes on after the end of a program. -/
def andThen : Program Result → (Result → Program Next) → Program Next
  | .done result, next => next result
  | .step call resume, next =>
      .step call (fun answer => andThen (resume answer) next)

instance : Monad Program where
  pure := .done
  bind := andThen

end Program

/-- A program that may end in an error, and then makes no further call. -/
abbrev Attempt (Value : Type) := ExceptT ServiceError Program Value

namespace Attempt

variable {Value : Type}

/-- A value or an error that is there without any call. -/
def settled (result : Except ServiceError Value) : Attempt Value :=
  .mk (.done result)

/-- Makes a call that can fail, on behalf of an operation. -/
def calling (call : Call) (settle : call.Answer → Except ServiceError Value) :
    Attempt Value :=
  .mk (.step call (fun answer => .done (settle answer)))

/-- Fails with violations, if there are any. -/
def require (violations : List Violation) : Attempt Unit :=
  match violations with
  | [] => settled (.ok ())
  | violations => settled (.error (.rejected violations))

end Attempt

end TraceArchive
