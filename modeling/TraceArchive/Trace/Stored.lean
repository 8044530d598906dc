import TraceArchive.Trace.Basic

/-!
# The stored form of traces

The JSON in which traces are kept. Every field is written, an absent value as
`null`; a field that is left out is read as empty, except those without which
there is no trace.
-/

namespace TraceArchive

open Json (RecordField Reader RecordForm)

/-- The stored form of attributes. -/
def Attributes.toStored (attributes : Attributes) : Json :=
  .object (AttributeValue.storedEntries attributes.entries)

/-- Reads attributes from their stored form. -/
def Attributes.storedReader : Reader Attributes :=
  Reader.keyMap AttributeValue.storedReader

/-! ## Writing -/

namespace SpanStatus

/-- The stored form of a status. -/
def toStored (status : SpanStatus) : Json :=
  .object
    [("code", Vocabulary.toJson status.code),
      ("message", .string status.message)]

end SpanStatus

namespace SpanEvent

/-- The stored form of an event. -/
def toStored (event : SpanEvent) : Json :=
  .object
    [("time_unix_nano", .ofWord event.time),
      ("name", .string event.name),
      ("attributes", event.attributes.toStored),
      ("dropped_attributes_count", .ofHalfWord event.droppedAttributes)]

end SpanEvent

namespace SpanLink

/-- The stored form of a link. -/
def toStored (link : SpanLink) : Json :=
  .object
    [("trace_id", link.traceId.toJson),
      ("span_id", link.spanId.toJson),
      ("trace_state", .ofText? link.traceState),
      ("attributes", link.attributes.toStored),
      ("dropped_attributes_count", .ofHalfWord link.droppedAttributes),
      ("flags", .ofHalfWord link.flags)]

end SpanLink

/-- A value in a form of its own, or `null` without one. -/
def Json.orNull {Value : Type} (form : Value → Json) : Option Value → Json
  | none => .null
  | some value => form value

namespace Span

/-- The stored form of a span. -/
def toStored (span : Span) : Json :=
  .object
    [("trace_id", span.traceId.toJson),
      ("span_id", span.spanId.toJson),
      ("trace_state", .ofText? span.traceState),
      ("parent_span_id", .orNull Identifier.toJson span.parentId),
      ("name", .string span.name),
      ("kind", Vocabulary.toJson span.kind),
      ("start_time_unix_nano", .ofWord span.startTime),
      ("end_time_unix_nano", .ofWord span.endTime),
      ("attributes", span.attributes.toStored),
      ("dropped_attributes_count", .ofHalfWord span.droppedAttributes),
      ("events", .list (span.events.map SpanEvent.toStored)),
      ("dropped_events_count", .ofHalfWord span.droppedEvents),
      ("links", .list (span.links.map SpanLink.toStored)),
      ("dropped_links_count", .ofHalfWord span.droppedLinks),
      ("status", .orNull SpanStatus.toStored span.status),
      ("flags", .ofHalfWord span.flags)]

end Span

/-- The JSON object of a map from keys to texts. -/
def KeyMap.toJsonTexts (map : KeyMap String) : Json :=
  .object (map.entries.map (fun entry => (entry.1, .string entry.2)))

namespace TraceInfo

/-- The stored form of the information about a trace. -/
def toStored (info : TraceInfo) : Json :=
  .object
    [("trace_id", .string info.traceId),
      ("client_request_id", .ofText? info.clientRequestId),
      ("trace_location", info.location.toStored),
      ("request", .ofText? info.request),
      ("response", .ofText? info.response),
      ("request_time", .string info.requestTime.toText),
      ("execution_duration",
        .orNull Duration.toStored info.executionDuration),
      ("state", Vocabulary.toJson info.state),
      ("trace_metadata", info.metadata.toJsonTexts),
      ("assessments", .list (info.assessments.map .object)),
      ("tags", info.tags.toJsonTexts)]

end TraceInfo

namespace Trace

/-- The stored form of the spans of a trace. -/
def spansToStored (spans : List Span) : Json :=
  .object [("spans", .list (spans.map Span.toStored))]

/-- The stored form of a trace. -/
def toStored (trace : Trace) : Json :=
  .object
    [("info", trace.info.toStored), ("data", spansToStored trace.spans)]

end Trace

/-! ## Reading -/

namespace SpanStatus

/-- The fields of a stored status. -/
def storedForm : RecordForm SpanStatus where
  initial := ⟨.unset, ""⟩
  fields :=
    [.needed "code" Vocabulary.reader
        (fun status code => { status with code }),
      .possible "message" Reader.text
        (fun status message => { status with message })]
  admitsOthers := true

end SpanStatus

namespace SpanEvent

/-- The fields of a stored event. -/
def storedForm : RecordForm SpanEvent where
  initial := plain "" 0
  fields :=
    [.needed "time_unix_nano" Reader.word
        (fun event time => { event with time }),
      .needed "name" Reader.text (fun event name => { event with name }),
      .possible "attributes" Attributes.storedReader
        (fun event attributes => { event with attributes }),
      .possible "dropped_attributes_count" Reader.halfWord
        (fun event droppedAttributes => { event with droppedAttributes })]
  admitsOthers := true

end SpanEvent

namespace SpanLink

/-- The fields of a stored link. -/
def storedForm : RecordForm SpanLink where
  initial :=
    { traceId := ⟨[]⟩, spanId := ⟨[]⟩, traceState := none,
      attributes := .empty, droppedAttributes := 0, flags := 0 }
  fields :=
    [.needed "trace_id" Identifier.reader
        (fun link traceId => { link with traceId }),
      .needed "span_id" Identifier.reader
        (fun link spanId => { link with spanId }),
      .possible "trace_state" (Reader.optional Reader.text)
        (fun link traceState => { link with traceState }),
      .possible "attributes" Attributes.storedReader
        (fun link attributes => { link with attributes }),
      .possible "dropped_attributes_count" Reader.halfWord
        (fun link droppedAttributes => { link with droppedAttributes }),
      .possible "flags" Reader.halfWord
        (fun link flags => { link with flags })]
  admitsOthers := true

end SpanLink

namespace Span

/-- The fields of a stored span. -/
def storedForm : RecordForm Span where
  initial := plain ⟨[]⟩ ⟨[]⟩ "" 0 0
  fields :=
    [.needed "trace_id" Identifier.reader
        (fun span traceId => { span with traceId }),
      .needed "span_id" Identifier.reader
        (fun span spanId => { span with spanId }),
      .possible "trace_state" (Reader.optional Reader.text)
        (fun span traceState => { span with traceState }),
      .possible "parent_span_id" (Reader.optional Identifier.reader)
        (fun span parentId => { span with parentId }),
      .needed "name" Reader.text (fun span name => { span with name }),
      .possible "kind" Vocabulary.reader
        (fun span kind => { span with kind }),
      .needed "start_time_unix_nano" Reader.word
        (fun span startTime => { span with startTime }),
      .needed "end_time_unix_nano" Reader.word
        (fun span endTime => { span with endTime }),
      .possible "attributes" Attributes.storedReader
        (fun span attributes => { span with attributes }),
      .possible "dropped_attributes_count" Reader.halfWord
        (fun span droppedAttributes => { span with droppedAttributes }),
      .possible "events" (Reader.list SpanEvent.storedForm.read)
        (fun span events => { span with events }),
      .possible "dropped_events_count" Reader.halfWord
        (fun span droppedEvents => { span with droppedEvents }),
      .possible "links" (Reader.list SpanLink.storedForm.read)
        (fun span links => { span with links }),
      .possible "dropped_links_count" Reader.halfWord
        (fun span droppedLinks => { span with droppedLinks }),
      .possible "status" (Reader.optional SpanStatus.storedForm.read)
        (fun span status => { span with status }),
      .possible "flags" Reader.halfWord
        (fun span flags => { span with flags })]
  admitsOthers := true

end Span

namespace TraceInfo

/-- The fields of stored information about a trace. -/
def storedForm : RecordForm TraceInfo where
  initial := plain "" (.experiment "") default
  fields :=
    [.needed "trace_id" Reader.text
        (fun info traceId => { info with traceId }),
      .possible "client_request_id" (Reader.optional Reader.text)
        (fun info clientRequestId => { info with clientRequestId }),
      .needed "trace_location" TraceLocation.storedReader
        (fun info location => { info with location }),
      .possible "request" (Reader.optional Reader.text)
        (fun info request => { info with request }),
      .possible "response" (Reader.optional Reader.text)
        (fun info response => { info with response }),
      .needed "request_time" Instant.reader
        (fun info requestTime => { info with requestTime }),
      .possible "execution_duration" (Reader.optional Duration.storedReader)
        (fun info executionDuration => { info with executionDuration }),
      .possible "state" Vocabulary.reader
        (fun info state => { info with state }),
      .possible "trace_metadata" (Reader.keyMap Reader.text)
        (fun info metadata => { info with metadata }),
      .possible "assessments" (Reader.list Reader.jsonObject)
        (fun info assessments => { info with assessments }),
      .possible "tags" (Reader.keyMap Reader.text)
        (fun info tags => { info with tags })]
  admitsOthers := true

end TraceInfo

namespace Trace

/-- The only field of the stored spans of a trace. -/
def spansStoredForm : RecordForm (List Span) where
  initial := []
  fields :=
    [.possible "spans" (Reader.list Span.storedForm.read)
        (fun _ spans => spans)]
  admitsOthers := true

/-- The fields of a stored trace. -/
def storedForm : RecordForm Trace where
  initial := ⟨TraceInfo.storedForm.initial, []⟩
  fields :=
    [.needed "info" TraceInfo.storedForm.read
        (fun trace info => { trace with info }),
      .possible "data" spansStoredForm.read
        (fun trace spans => { trace with spans })]
  admitsOthers := true

end Trace

end TraceArchive
