import TraceArchive.Time.Timestamp
import TraceArchive.Trace.Location
import TraceArchive.Trace.Span

/-!
# Traces

A trace is a record of information about an execution and the list of its spans
in the order in which they were submitted.
-/

namespace TraceArchive

/-- A judgement about a trace, kept exactly as it was given: the entries of a
JSON object. -/
abbrev Assessment := List (String × Json)

/-- What is known about a trace as a whole. -/
structure TraceInfo where
  traceId : String
  clientRequestId : Option String
  location : TraceLocation
  request : Option String
  response : Option String
  requestTime : Instant
  executionDuration : Option Duration
  state : TraceState
  metadata : KeyMap String
  assessments : List Assessment
  tags : KeyMap String

/-- The unit that clients submit and read. -/
structure Trace where
  info : TraceInfo
  spans : List Span

/-- The first span without a parent. -/
def rootSpan? (spans : List Span) : Option Span :=
  spans.find? Span.isRoot

namespace TraceInfo

/-- Information with nothing but what every trace has. -/
def plain (traceId : String) (location : TraceLocation)
    (requestTime : Instant) : TraceInfo where
  traceId := traceId
  clientRequestId := none
  location := location
  request := none
  response := none
  requestTime := requestTime
  executionDuration := none
  state := .unspecified
  metadata := .empty
  assessments := []
  tags := .empty

/-- The instant at which the execution ended, if its duration is known. -/
def endTime? (info : TraceInfo) : Option Instant :=
  match info.executionDuration with
  | none => none
  | some duration => info.requestTime.add? duration

end TraceInfo

namespace Trace

/-- The identifier under which the trace is stored. -/
def id (trace : Trace) : String :=
  trace.info.traceId

/-- The first span with an identifier. -/
def span? (trace : Trace) (spanId : Identifier) : Option Span :=
  trace.spans.find? (fun span => span.spanId == spanId)

end Trace

end TraceArchive
