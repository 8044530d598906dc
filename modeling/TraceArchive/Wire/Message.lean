import TraceArchive.Attribute.Codec
import TraceArchive.Trace.Basic

/-!
# Messages of clients

A message is a trace as a client sends and receives it: every field may be
absent and nothing is checked. The values of attributes, metadata and tags are
arbitrary JSON until a check finds otherwise.
-/

namespace TraceArchive.Wire

/-- The status of a span in a message. -/
structure Status where
  message : Option String := none
  code : Option StatusCode := none
deriving DecidableEq

/-- An event of a span in a message. -/
structure Event where
  time : Option UInt64 := none
  name : Option String := none
  attributes : KeyMap Json := .empty
  droppedAttributes : Option UInt32 := none

/-- A link of a span in a message. -/
structure Link where
  traceId : Option Identifier := none
  spanId : Option Identifier := none
  traceState : Option String := none
  attributes : KeyMap Json := .empty
  droppedAttributes : Option UInt32 := none
  flags : Option UInt32 := none

/-- A number without a JSON form that a message carried, with the path to it
from its span. -/
structure NotFinite where
  path : String
  value : Double
deriving DecidableEq

/-- A span in a message. -/
structure Span where
  traceId : Option Identifier := none
  spanId : Option Identifier := none
  traceState : Option String := none
  parentId : Option Identifier := none
  flags : Option UInt32 := none
  name : Option String := none
  kind : Option SpanKind := none
  startTime : Option UInt64 := none
  endTime : Option UInt64 := none
  attributes : KeyMap Json := .empty
  droppedAttributes : Option UInt32 := none
  events : List Event := []
  droppedEvents : Option UInt32 := none
  links : List Link := []
  droppedLinks : Option UInt32 := none
  status : Option Status := none
  /-- The attribute numbers that JSON cannot hold and that were left out. -/
  notFinite : List NotFinite := []

/-- A location in a message. An experiment and a table are present when their
part of the message is, even without their name. -/
structure Location where
  kind : Option LocationKind := none
  experiment : Option (Option String) := none
  inferenceTable : Option (Option String) := none
deriving DecidableEq

/-- The information about a trace in a message. -/
structure TraceInfo where
  traceId : Option String := none
  clientRequestId : Option String := none
  location : Option Location := none
  request : Option String := none
  response : Option String := none
  requestTime : Option Instant := none
  executionDuration : Option Duration := none
  state : Option TraceState := none
  metadata : KeyMap Json := .empty
  assessments : List Json := []
  tags : KeyMap Json := .empty

/-- A trace in a message. -/
structure Trace where
  info : Option TraceInfo := none
  spans : Option (List Span) := none

/-! ## Messages about stored traces

Counts and flags of zero, empty messages and absent values are left out; a root
span has an empty parent. -/

/-- A count that is not zero. -/
def nonZero? (count : UInt32) : Option UInt32 :=
  if count = 0 then none else some count

namespace Status

/-- The message about a status. -/
def ofStatus (status : SpanStatus) : Status where
  message := if status.message.isEmpty then none else some status.message
  code := some status.code

end Status

namespace Event

/-- The message about an event. -/
def ofEvent (event : SpanEvent) : Except AttributeError Event :=
  match event.attributes.encode with
  | .error error => .error error
  | .ok attributes =>
      .ok
        { time := some event.time
          name := some event.name
          attributes
          droppedAttributes := nonZero? event.droppedAttributes }

/-- The messages about events, or the first error among them. -/
def ofEvents : List SpanEvent → Except AttributeError (List Event)
  | [] => .ok []
  | event :: rest =>
      match ofEvent event with
      | .error error => .error error
      | .ok message =>
          match ofEvents rest with
          | .error error => .error error
          | .ok messages => .ok (message :: messages)

end Event

namespace Link

/-- The message about a link. -/
def ofLink (link : SpanLink) : Except AttributeError Link :=
  match link.attributes.encode with
  | .error error => .error error
  | .ok attributes =>
      .ok
        { traceId := some link.traceId
          spanId := some link.spanId
          traceState := link.traceState
          attributes
          droppedAttributes := nonZero? link.droppedAttributes
          flags := nonZero? link.flags }

/-- The messages about links, or the first error among them. -/
def ofLinks : List SpanLink → Except AttributeError (List Link)
  | [] => .ok []
  | link :: rest =>
      match ofLink link with
      | .error error => .error error
      | .ok message =>
          match ofLinks rest with
          | .error error => .error error
          | .ok messages => .ok (message :: messages)

end Link

namespace Span

/-- The message about a span. -/
def ofSpan (span : TraceArchive.Span) : Except AttributeError Span :=
  match span.attributes.encode with
  | .error error => .error error
  | .ok attributes =>
      match Event.ofEvents span.events with
      | .error error => .error error
      | .ok events =>
          match Link.ofLinks span.links with
          | .error error => .error error
          | .ok links =>
              .ok
                { traceId := some span.traceId
                  spanId := some span.spanId
                  traceState := span.traceState
                  parentId := some (span.parentId.getD ⟨[]⟩)
                  flags := nonZero? span.flags
                  name := some span.name
                  kind := some span.kind
                  startTime := some span.startTime
                  endTime := some span.endTime
                  attributes
                  droppedAttributes := nonZero? span.droppedAttributes
                  events
                  droppedEvents := nonZero? span.droppedEvents
                  links
                  droppedLinks := nonZero? span.droppedLinks
                  status := span.status.map Status.ofStatus }

/-- The messages about spans, or the first error among them. -/
def ofSpans : List TraceArchive.Span → Except AttributeError (List Span)
  | [] => .ok []
  | span :: rest =>
      match ofSpan span with
      | .error error => .error error
      | .ok message =>
          match ofSpans rest with
          | .error error => .error error
          | .ok messages => .ok (message :: messages)

end Span

namespace Location

/-- The message about a location. -/
def ofLocation : TraceLocation → Location
  | .experiment identifier =>
      { kind := some .experiment, experiment := some (some identifier) }
  | .inferenceTable fullName =>
      { kind := some .inferenceTable, inferenceTable := some (some fullName) }

end Location

namespace TraceInfo

/-- The message about what is known of a trace as a whole. -/
def ofInfo (info : TraceArchive.TraceInfo) : TraceInfo where
  traceId := some info.traceId
  clientRequestId := info.clientRequestId
  location := some (Location.ofLocation info.location)
  request := info.request
  response := info.response
  requestTime := some info.requestTime
  executionDuration := info.executionDuration
  state := some info.state
  metadata := info.metadata.mapValues .string
  assessments := info.assessments.map .object
  tags := info.tags.mapValues .string

end TraceInfo

namespace Trace

/-- The message about a trace, unless an attribute has no wire form. -/
def ofTrace (trace : TraceArchive.Trace) : Except AttributeError Trace :=
  match Span.ofSpans trace.spans with
  | .error error => .error error
  | .ok spans =>
      .ok { info := some (TraceInfo.ofInfo trace.info), spans := some spans }

end Trace

end TraceArchive.Wire
