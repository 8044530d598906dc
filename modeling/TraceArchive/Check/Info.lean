import TraceArchive.Check.Location

/-!
# Checking the information about a trace

All fields are checked and all violations reported, first those of the location
and the time of the request, then those of the identifier, the metadata, the
tags and the assessments.
-/

namespace TraceArchive

/-- Checked information about a trace that may still lack its identifier. -/
structure InfoDraft where
  /-- The key of the trace that the request names. -/
  traceId : Option String
  clientRequestId : Option String
  location : TraceLocation
  request : Option String
  response : Option String
  requestTime : Instant
  executionDuration : Option Duration
  state : TraceState
  metadata : KeyMap String
  assessments : List Assessment
  tags : KeyMap String

namespace InfoDraft

/-- The information about the trace with an identifier. -/
def toInfo (draft : InfoDraft) (traceId : String) : TraceInfo where
  traceId := traceId
  clientRequestId := draft.clientRequestId
  location := draft.location
  request := draft.request
  response := draft.response
  requestTime := draft.requestTime
  executionDuration := draft.executionDuration
  state := draft.state
  metadata := draft.metadata
  assessments := draft.assessments
  tags := draft.tags

end InfoDraft

namespace Check

/-! ## Maps of texts -/

/-- The text of a value that is one. -/
def textEntry? (entry : String × Json) : Option (String × String) :=
  match entry.2 with
  | .string text => some (entry.1, text)
  | _ => none

/-- What is wrong with an entry of the map in a field. -/
def textViolation? (field : String) (entry : String × Json) :
    Option Violation :=
  match entry.2 with
  | .string _ => none
  | other =>
      some (.invalidAttribute ("info." ++ field ++ "." ++ entry.1)
        (.notText other.kindName))

/-- The texts of a map. -/
def texts (map : KeyMap Json) : KeyMap String :=
  KeyMap.ofList (map.entries.filterMap textEntry?)

/-- What is wrong with the map in a field. -/
def textViolations (field : String) (map : KeyMap Json) : List Violation :=
  map.entries.filterMap (textViolation? field)

/-! ## Assessments -/

/-- The assessments that are objects. -/
def assessments : List Json → List Assessment
  | [] => []
  | .object entries :: rest => entries :: assessments rest
  | _ :: rest => assessments rest

/-- What is wrong with assessments, counted from an index. -/
def assessmentViolations (index : Nat) : List Json → List Violation
  | [] => []
  | .object _ :: rest => assessmentViolations (index + 1) rest
  | other :: rest =>
      .invalidAttribute
          (AttributeValue.itemPath "info.assessments" index)
          (.notObject other.kindName) ::
        assessmentViolations (index + 1) rest

/-! ## The identifier -/

/-- The text that a request gives as the identifier of its trace. -/
def givenTraceId? (info : Wire.TraceInfo) : Option String :=
  nonBlank? info.traceId

/-- The key of the trace that a request names. -/
def traceKey? (info : Wire.TraceInfo) : Option String :=
  (givenTraceId? info).bind Identifier.keyOf?

/-- What is wrong with the identifier that a request gives. -/
def traceIdViolations (info : Wire.TraceInfo) : List Violation :=
  match givenTraceId? info with
  | none => []
  | some given =>
      match Identifier.keyOf? given with
      | some _ => []
      | none => [.malformedTrace (.notHexadecimal given)]

/-! ## All fields -/

/-- What is wrong with the location. -/
def locationViolations (info : Wire.TraceInfo) : List Violation :=
  match checkLocation info.location with
  | .ok _ => []
  | .error violation => [violation]

/-- What is wrong with the time of the request. -/
def requestTimeViolations (info : Wire.TraceInfo) : List Violation :=
  match info.requestTime with
  | some _ => []
  | none => [.missingField "info.request_time"]

/-- All that is wrong with the information about a trace. -/
def infoViolations (info : Wire.TraceInfo) : List Violation :=
  locationViolations info ++ requestTimeViolations info ++
    traceIdViolations info ++
    textViolations "trace_metadata" info.metadata ++
    textViolations "tags" info.tags ++
    assessmentViolations 0 info.assessments

/-- The checked information, if the parts that it needs are there. -/
def draft? (info : Wire.TraceInfo) : Option InfoDraft :=
  match checkLocation info.location, info.requestTime with
  | .ok location, some requestTime =>
      some
        { traceId := traceKey? info
          clientRequestId := info.clientRequestId
          location
          request := info.request
          response := info.response
          requestTime
          executionDuration := info.executionDuration
          state := info.state.getD .unspecified
          metadata := texts info.metadata
          assessments := assessments info.assessments
          tags := texts info.tags }
  | _, _ => none

/-- Checks the information about a trace. -/
def checkInfo (info : Wire.TraceInfo) : Except (List Violation) InfoDraft :=
  match infoViolations info, draft? info with
  | [], some draft => .ok draft
  | [], none => .error [.malformedTrace .incomplete]
  | violations, _ => .error violations

end Check

end TraceArchive
