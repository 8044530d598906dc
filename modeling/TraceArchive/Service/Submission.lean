import TraceArchive.Check.Info
import TraceArchive.Check.Span
import TraceArchive.Service.Program
import TraceArchive.Service.Settings

/-!
# Submitted traces

What happens to a submitted trace between its message and the store, as far as
no collaborator is needed: it is checked as a whole, compared with the stored
trace under its identifier, and merged with it.
-/

namespace TraceArchive

/-- A submitted trace that passed the checks. -/
structure Submission where
  info : InfoDraft
  /-- The spans; none if the request had no part for them. -/
  spans : Option (List Span)

namespace Submission

/-! ## Checking a request -/

/-- What is wrong with the information of a request. -/
def infoViolations (request : Wire.Trace) : List Violation :=
  match request.info with
  | none => [.missingField "info"]
  | some info =>
      match Check.checkInfo info with
      | .ok _ => []
      | .error violations => violations

/-- The place of a span in a request. -/
def spanPath (index : Nat) : String :=
  AttributeValue.itemPath "data.spans" index

/-- What is wrong with spans, counted from an index. -/
def spanViolations (index : Nat) : List Wire.Span → List Violation
  | [] => []
  | span :: rest =>
      (match Check.checkSpan (spanPath index) span with
        | .ok _ => []
        | .error violations => violations) ++
        spanViolations (index + 1) rest

/-- The spans that are accepted, counted from an index. -/
def acceptedSpans (index : Nat) : List Wire.Span → List Span
  | [] => []
  | span :: rest =>
      match Check.checkSpan (spanPath index) span with
      | .ok accepted => accepted :: acceptedSpans (index + 1) rest
      | .error _ => acceptedSpans (index + 1) rest

/-- The state that a request declares. -/
def declaredState (request : Wire.Trace) : TraceState :=
  (request.info.bind (fun info => info.state)).getD .unspecified

/-- What is wrong with the parts of a request. -/
def partViolations (request : Wire.Trace) : List Violation :=
  infoViolations request ++ spanViolations 0 (request.spans.getD [])

/-- What is wrong with the tree of the spans of a request, when they are to
take the place of all stored ones. -/
def treeViolations (settings : Settings) (request : Wire.Trace) :
    List Violation :=
  match settings.updateMode, request.spans with
  | .replace, some spans =>
      Check.treeViolations
        (settings.validation.modeFor (declaredState request))
        (acceptedSpans 0 spans)
  | _, _ => []

/-- All that is wrong with a request. The tree is looked at when every part is
in order. -/
def violations (settings : Settings) (request : Wire.Trace) :
    List Violation :=
  match partViolations request with
  | [] => treeViolations settings request
  | violations => violations

/-- The information of a request, if it is acceptable. -/
def acceptedInfo? (request : Wire.Trace) : Option InfoDraft :=
  request.info.bind (fun info => (Check.checkInfo info).toOption)

/-- Checks a request as a whole. -/
def ofRequest (settings : Settings) (request : Wire.Trace) :
    Except ServiceError Submission :=
  match violations settings request, acceptedInfo? request with
  | [], some info =>
      .ok ⟨info, request.spans.map (acceptedSpans 0)⟩
  | violations, _ => .error (.rejected violations)

/-! ## The identifier -/

/-- The submitted spans, none if there is no part for them. -/
def spanList (submission : Submission) : List Span :=
  submission.spans.getD []

/-- The identifier of the trace, as far as the request tells it: the one that
it names, else that of its first span. -/
def traceId? (submission : Submission) : Option String :=
  match submission.info.traceId with
  | some traceId => some traceId
  | none =>
      match submission.spanList with
      | span :: _ => some span.traceId.toHex
      | [] => none

/-- The violations of the spans that belong to another trace. -/
def foreignSpans (submission : Submission) (traceId : String) :
    List Violation :=
  (submission.spanList.filter
      (fun span => !span.traceId.hasKey traceId)).map
    (fun span =>
      .malformedTrace (.foreignToRequest span.label span.traceId traceId))

/-! ## The stored trace -/

/-- The violation of a trace that would move elsewhere. -/
def locationChanges (stored : TraceInfo) (info : InfoDraft) :
    List Violation :=
  if info.location = stored.location then []
  else [.invalidLocation (.moved stored.location info.location)]

/-- The violation of a trace that would lose its state. -/
def stateLosses (stored : TraceInfo) (info : InfoDraft) : List Violation :=
  if info.state = .unspecified then
    [.invalidTransition stored.state info.state]
  else []

/-- Whether a stored trace can be updated by a submission: its execution is in
progress, and it stays where it is. -/
def checkUpdatable (stored : TraceInfo) (info : InfoDraft) :
    Except ServiceError Unit :=
  if stored.state.acceptsUpdates then
    match locationChanges stored info ++ stateLosses stored info with
    | [] => .ok ()
    | violations => .error (.rejected violations)
  else .error (.immutable stored.traceId stored.state)

/-! ## Merging -/

/-- The new value, or the previous one if there is none. -/
def orPrevious {Value : Type} (value previous : Option Value) :
    Option Value :=
  match value with
  | some value => some value
  | none => previous

/-- The submitted information, completed by what was stored before. -/
def mergeInfo (stored submitted : TraceInfo) : TraceInfo :=
  { submitted with
    clientRequestId :=
      orPrevious submitted.clientRequestId stored.clientRequestId
    request := orPrevious submitted.request stored.request
    response := orPrevious submitted.response stored.response
    executionDuration :=
      orPrevious submitted.executionDuration stored.executionDuration
    metadata := stored.metadata.union submitted.metadata
    assessments :=
      if submitted.assessments.isEmpty then stored.assessments
      else submitted.assessments
    tags := stored.tags.union submitted.tags }

/-- The spans that follow from those stored and those submitted. -/
def mergeSpans (mode : UpdateMode) (stored : List Span)
    (submitted : Option (List Span)) : List Span :=
  match submitted, mode with
  | none, _ => stored
  | some spans, .replace => spans
  | some spans, .append => stored ++ spans

/-- Whether the tree still has to be checked once the spans are merged. -/
def needsTreeCheck (mode : UpdateMode) (stored : Option Trace)
    (submitted : Option (List Span)) : Bool :=
  match mode, stored, submitted with
  | .append, none, _ => true
  | .append, some _, some _ => true
  | _, _, _ => false

/-- The trace that follows from the stored one, if any, and a submission. -/
def merged (settings : Settings) (stored : Option Trace)
    (submission : Submission) (traceId : String) : Trace :=
  let info := submission.info.toInfo traceId
  match stored with
  | none => ⟨info, submission.spanList⟩
  | some stored =>
      ⟨mergeInfo stored.info info,
        mergeSpans settings.updateMode stored.spans submission.spans⟩

/-- What is wrong with the tree of the merged spans. -/
def mergedViolations (settings : Settings) (stored : Option Trace)
    (submission : Submission) (traceId : String) : List Violation :=
  if needsTreeCheck settings.updateMode stored submission.spans then
    Check.treeViolations
      (settings.validation.modeFor submission.info.state)
      (merged settings stored submission traceId).spans
  else []

/-- The trace that is to be stored. -/
def result (settings : Settings) (stored : Option Trace)
    (submission : Submission) (traceId : String) :
    Except ServiceError Trace :=
  match mergedViolations settings stored submission traceId with
  | [] =>
      let trace := merged settings stored submission traceId
      .ok { trace with spans := settings.attributes.apply trace.spans }
  | violations => .error (.rejected violations)

end Submission

end TraceArchive
