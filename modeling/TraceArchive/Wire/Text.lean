import TraceArchive.Wire.Message

/-!
# Messages as JSON

Absent fields are left out, except the list of spans. Times in nanoseconds are
written as decimal digits in quotes and read from such a text or from a number.
-/

namespace TraceArchive.Wire

open Json (RecordField Reader RecordForm)

/-! ## Writing -/

/-- A field that is left out when it is absent. -/
def field? {Value : Type} (name : String) (form : Value → Json) :
    Option Value → List (String × Json)
  | none => []
  | some value => [(name, form value)]

/-- A field for a map that is left out when the map is empty. -/
def mapField? (name : String) (map : KeyMap Json) : List (String × Json) :=
  if map.isEmpty then [] else [(name, .object map.entries)]

/-- A field for a list that is left out when the list is empty. -/
def listField? {Value : Type} (name : String) (form : Value → Json)
    (values : List Value) : List (String × Json) :=
  if values.isEmpty then [] else [(name, .list (values.map form))]

/-- A time in nanoseconds as digits in quotes. -/
def timeToJson (time : UInt64) : Json :=
  .string (toString time.toNat)

namespace Status

/-- A status as JSON. -/
def toJson (status : Status) : Json :=
  .object
    (field? "message" .string status.message ++
      field? "code" Vocabulary.toJson status.code)

end Status

namespace Event

/-- An event as JSON. -/
def toJson (event : Event) : Json :=
  .object
    (field? "time_unix_nano" timeToJson event.time ++
      field? "name" .string event.name ++
      mapField? "attributes" event.attributes ++
      field? "dropped_attributes_count" .ofHalfWord event.droppedAttributes)

end Event

namespace Link

/-- A link as JSON. -/
def toJson (link : Link) : Json :=
  .object
    (field? "trace_id" Identifier.toJson link.traceId ++
      field? "span_id" Identifier.toJson link.spanId ++
      field? "trace_state" .string link.traceState ++
      mapField? "attributes" link.attributes ++
      field? "dropped_attributes_count" .ofHalfWord link.droppedAttributes ++
      field? "flags" .ofHalfWord link.flags)

end Link

namespace Span

/-- A span as JSON. -/
def toJson (span : Span) : Json :=
  .object
    (field? "trace_id" Identifier.toJson span.traceId ++
      field? "span_id" Identifier.toJson span.spanId ++
      field? "trace_state" .string span.traceState ++
      field? "parent_span_id" Identifier.toJson span.parentId ++
      field? "flags" .ofHalfWord span.flags ++
      field? "name" .string span.name ++
      field? "kind" Vocabulary.toJson span.kind ++
      field? "start_time_unix_nano" timeToJson span.startTime ++
      field? "end_time_unix_nano" timeToJson span.endTime ++
      mapField? "attributes" span.attributes ++
      field? "dropped_attributes_count" .ofHalfWord span.droppedAttributes ++
      listField? "events" Event.toJson span.events ++
      field? "dropped_events_count" .ofHalfWord span.droppedEvents ++
      listField? "links" Link.toJson span.links ++
      field? "dropped_links_count" .ofHalfWord span.droppedLinks ++
      field? "status" Status.toJson span.status)

/-- A list of spans as JSON. -/
def listToJson (spans : List Span) : Json :=
  .object [("spans", .list (spans.map toJson))]

end Span

namespace Location

/-- An experiment as JSON. -/
def experimentToJson (identifier : Option String) : Json :=
  .object (field? "experiment_id" .string identifier)

/-- A table as JSON. -/
def tableToJson (fullName : Option String) : Json :=
  .object (field? "full_table_name" .string fullName)

/-- A location as JSON. -/
def toJson (location : Location) : Json :=
  .object
    (field? "type" Vocabulary.toJson location.kind ++
      field? "mlflow_experiment" experimentToJson location.experiment ++
      field? "inference_table" tableToJson location.inferenceTable)

end Location

namespace TraceInfo

/-- The information about a trace as JSON. -/
def toJson (info : TraceInfo) : Json :=
  .object
    (field? "trace_id" .string info.traceId ++
      field? "client_request_id" .string info.clientRequestId ++
      field? "trace_location" Location.toJson info.location ++
      field? "request" .string info.request ++
      field? "response" .string info.response ++
      field? "request_time" (fun time => .string time.toText)
        info.requestTime ++
      field? "execution_duration" (fun duration => .string duration.toText)
        info.executionDuration ++
      field? "state" Vocabulary.toJson info.state ++
      mapField? "trace_metadata" info.metadata ++
      listField? "assessments" id info.assessments ++
      mapField? "tags" info.tags)

end TraceInfo

namespace Trace

/-- A trace as JSON. -/
def toJson (trace : Trace) : Json :=
  .object
    (field? "info" TraceInfo.toJson trace.info ++
      field? "data" Span.listToJson trace.spans)

end Trace

/-! ## Reading -/

/-- Reads a time in nanoseconds from a number or from a text with blanks around
the digits. -/
def timeReader : Reader UInt64
  | _, .string (some text) =>
      match Text.readInteger UInt64.size (Text.trim text.toList) with
      | .error fault => .error (.badTimestamp text fault)
      | .ok time => .ok (UInt64.ofNat time)
  | room, document => Reader.word room document

/-- A field that may be absent or `null`. -/
def absentable {Record Value : Type} (name : String) (reader : Reader Value)
    (set : Record → Option Value → Record) : RecordField Record :=
  .possible name (Reader.optional reader) set

/-- Reads a map to arbitrary JSON. -/
def attributesReader : Reader (KeyMap Json) :=
  Reader.keyMap Reader.json

namespace Status

/-- The fields of a status. -/
def form : RecordForm Status where
  initial := {}
  fields :=
    [absentable "message" Reader.text
        (fun status message => { status with message }),
      absentable "code" Vocabulary.reader
        (fun status code => { status with code })]
  admitsOthers := true

end Status

namespace Event

/-- The fields of an event. -/
def form : RecordForm Event where
  initial := {}
  fields :=
    [absentable "time_unix_nano" timeReader
        (fun event time => { event with time }),
      absentable "name" Reader.text (fun event name => { event with name }),
      .possible "attributes" attributesReader
        (fun event attributes => { event with attributes }),
      absentable "dropped_attributes_count" Reader.halfWord
        (fun event droppedAttributes => { event with droppedAttributes })]
  admitsOthers := true

end Event

namespace Link

/-- The fields of a link. -/
def form : RecordForm Link where
  initial := {}
  fields :=
    [absentable "trace_id" Identifier.reader
        (fun link traceId => { link with traceId }),
      absentable "span_id" Identifier.reader
        (fun link spanId => { link with spanId }),
      absentable "trace_state" Reader.text
        (fun link traceState => { link with traceState }),
      .possible "attributes" attributesReader
        (fun link attributes => { link with attributes }),
      absentable "dropped_attributes_count" Reader.halfWord
        (fun link droppedAttributes => { link with droppedAttributes }),
      absentable "flags" Reader.halfWord
        (fun link flags => { link with flags })]
  admitsOthers := true

end Link

namespace Span

/-- The fields of a span. -/
def form : RecordForm Span where
  initial := {}
  fields :=
    [absentable "trace_id" Identifier.reader
        (fun span traceId => { span with traceId }),
      absentable "span_id" Identifier.reader
        (fun span spanId => { span with spanId }),
      absentable "trace_state" Reader.text
        (fun span traceState => { span with traceState }),
      absentable "parent_span_id" Identifier.reader
        (fun span parentId => { span with parentId }),
      absentable "flags" Reader.halfWord
        (fun span flags => { span with flags }),
      absentable "name" Reader.text (fun span name => { span with name }),
      absentable "kind" Vocabulary.reader
        (fun span kind => { span with kind }),
      absentable "start_time_unix_nano" timeReader
        (fun span startTime => { span with startTime }),
      absentable "end_time_unix_nano" timeReader
        (fun span endTime => { span with endTime }),
      .possible "attributes" attributesReader
        (fun span attributes => { span with attributes }),
      absentable "dropped_attributes_count" Reader.halfWord
        (fun span droppedAttributes => { span with droppedAttributes }),
      .possible "events" (Reader.list Event.form.read)
        (fun span events => { span with events }),
      absentable "dropped_events_count" Reader.halfWord
        (fun span droppedEvents => { span with droppedEvents }),
      .possible "links" (Reader.list Link.form.read)
        (fun span links => { span with links }),
      absentable "dropped_links_count" Reader.halfWord
        (fun span droppedLinks => { span with droppedLinks }),
      absentable "status" Status.form.read
        (fun span status => { span with status })]
  admitsOthers := true

/-- The only field of a list of spans. -/
def listForm : RecordForm (List Span) where
  initial := []
  fields :=
    [.possible "spans" (Reader.list form.read) (fun _ spans => spans)]
  admitsOthers := true

end Span

namespace Location

/-- The only field of an experiment. -/
def experimentForm : RecordForm (Option String) where
  initial := none
  fields :=
    [absentable "experiment_id" Reader.text (fun _ identifier => identifier)]
  admitsOthers := true

/-- The only field of a table. -/
def tableForm : RecordForm (Option String) where
  initial := none
  fields :=
    [absentable "full_table_name" Reader.text (fun _ fullName => fullName)]
  admitsOthers := true

/-- The fields of a location. -/
def form : RecordForm Location where
  initial := {}
  fields :=
    [absentable "type" Vocabulary.reader
        (fun location kind => { location with kind }),
      absentable "mlflow_experiment" experimentForm.read
        (fun location experiment => { location with experiment }),
      absentable "inference_table" tableForm.read
        (fun location inferenceTable => { location with inferenceTable })]
  admitsOthers := true

end Location

namespace TraceInfo

/-- The fields of the information about a trace. -/
def form : RecordForm TraceInfo where
  initial := {}
  fields :=
    [absentable "trace_id" Reader.text
        (fun info traceId => { info with traceId }),
      absentable "client_request_id" Reader.text
        (fun info clientRequestId => { info with clientRequestId }),
      absentable "trace_location" Location.form.read
        (fun info location => { info with location }),
      absentable "request" Reader.text
        (fun info request => { info with request }),
      absentable "response" Reader.text
        (fun info response => { info with response }),
      absentable "request_time" Instant.reader
        (fun info requestTime => { info with requestTime }),
      absentable "execution_duration" Duration.reader
        (fun info executionDuration => { info with executionDuration }),
      absentable "state" Vocabulary.reader
        (fun info state => { info with state }),
      .possible "trace_metadata" attributesReader
        (fun info metadata => { info with metadata }),
      .possible "assessments" (Reader.list Reader.json)
        (fun info assessments => { info with assessments }),
      .possible "tags" attributesReader
        (fun info tags => { info with tags })]
  admitsOthers := true

end TraceInfo

namespace Trace

/-- The fields of a trace, each with its longer name. -/
def form : RecordForm Trace where
  initial := {}
  fields :=
    [(absentable "info" TraceInfo.form.read
        (fun trace info => { trace with info })).orNamed "trace_info",
      (absentable "data" Span.listForm.read
        (fun trace spans => { trace with spans })).orNamed "trace_data"]
  admitsOthers := true

end Trace

end TraceArchive.Wire
