import TraceArchive.Attribute.Basic
import TraceArchive.Identifier
import TraceArchive.Vocabulary

/-!
# Spans

A span is one traced operation with its events and its links to other spans.
The root span of a trace has no parent.
-/

namespace TraceArchive

/-- How the operation of a span ended, with a message. -/
structure SpanStatus where
  code : StatusCode
  message : String
deriving DecidableEq, Inhabited

/-- An annotation of a span with a time. -/
structure SpanEvent where
  time : UInt64
  name : String
  attributes : Attributes
  droppedAttributes : UInt32

/-- A reference from a span to another span, possibly of another trace. -/
structure SpanLink where
  traceId : Identifier
  spanId : Identifier
  traceState : Option String
  attributes : Attributes
  droppedAttributes : UInt32
  flags : UInt32

/-- One traced operation. Times are nanoseconds since the start of the year
1970. -/
structure Span where
  traceId : Identifier
  spanId : Identifier
  traceState : Option String
  /-- The span that this one is part of; the root span has none. -/
  parentId : Option Identifier
  name : String
  kind : SpanKind
  startTime : UInt64
  endTime : UInt64
  attributes : Attributes
  droppedAttributes : UInt32
  events : List SpanEvent
  droppedEvents : UInt32
  links : List SpanLink
  droppedLinks : UInt32
  status : Option SpanStatus
  flags : UInt32

namespace SpanEvent

/-- An event without attributes. -/
def plain (name : String) (time : UInt64) : SpanEvent where
  time := time
  name := name
  attributes := .empty
  droppedAttributes := 0

end SpanEvent

namespace Span

/-- A root span without further content. -/
def plain (traceId spanId : Identifier) (name : String)
    (startTime endTime : UInt64) : Span where
  traceId := traceId
  spanId := spanId
  traceState := none
  parentId := none
  name := name
  kind := .unspecified
  startTime := startTime
  endTime := endTime
  attributes := .empty
  droppedAttributes := 0
  events := []
  droppedEvents := 0
  links := []
  droppedLinks := 0
  status := none
  flags := 0

/-- The span below a parent; an empty identifier names no parent. -/
def withParent (span : Span) (parent : Identifier) : Span :=
  { span with parentId := if parent.isEmpty then none else some parent }

/-- The span with a kind. -/
def withKind (span : Span) (kind : SpanKind) : Span :=
  { span with kind }

/-- The span with one more attribute, in place of one with the same key. -/
def withAttribute (span : Span) (key : String) (value : AttributeValue) :
    Span :=
  { span with attributes := span.attributes.insert key value }

/-- The span with one more event at the end. -/
def withEvent (span : Span) (event : SpanEvent) : Span :=
  { span with events := span.events ++ [event] }

/-- The span with a status. -/
def withStatus (span : Span) (code : StatusCode) (message : String) : Span :=
  { span with status := some ⟨code, message⟩ }

/-- Whether the span has no parent. -/
def isRoot (span : Span) : Bool :=
  span.parentId.isNone

/-- The status code; without a status it is unset. -/
def statusCode (span : Span) : StatusCode :=
  match span.status with
  | none => .unset
  | some status => status.code

/-- The nanoseconds from the start to the end, zero if the end comes first. -/
def durationNanos (span : Span) : Nat :=
  span.endTime.toNat - span.startTime.toNat

/-- The span as messages name it. -/
def label (span : Span) : String :=
  span.name ++ " (" ++ span.spanId.toHex ++ ")"

end Span

end TraceArchive
