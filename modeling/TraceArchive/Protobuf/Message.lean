import TraceArchive.KeyMap
import TraceArchive.Protobuf.Value

/-!
# Trace messages in binary form

Spans, events, links and statuses have the field numbers of OpenTelemetry. All
simple fields tell whether they are present. Vocabularies travel as signed
numbers of 32 bits, whatever their value.
-/

namespace TraceArchive.Protobuf

/-- The status of a span. -/
structure Status where
  message : Option String := none
  code : Option Int := none
deriving DecidableEq

/-- An event of a span. -/
structure Event where
  time : Option UInt64 := none
  name : Option String := none
  attributes : KeyMap Value := .empty
  droppedAttributes : Option UInt32 := none

/-- A link of a span. -/
structure Link where
  traceId : Option (List UInt8) := none
  spanId : Option (List UInt8) := none
  traceState : Option String := none
  attributes : KeyMap Value := .empty
  droppedAttributes : Option UInt32 := none
  flags : Option UInt32 := none

/-- A span. -/
structure Span where
  traceId : Option (List UInt8) := none
  spanId : Option (List UInt8) := none
  traceState : Option String := none
  parentId : Option (List UInt8) := none
  name : Option String := none
  kind : Option Int := none
  startTime : Option UInt64 := none
  endTime : Option UInt64 := none
  attributes : KeyMap Value := .empty
  droppedAttributes : Option UInt32 := none
  events : List Event := []
  droppedEvents : Option UInt32 := none
  links : List Link := []
  droppedLinks : Option UInt32 := none
  status : Option Status := none
  flags : Option UInt32 := none

/-- A location; its two parts hold an optional name each. -/
structure Location where
  kind : Option Int := none
  experiment : Option (Option String) := none
  inferenceTable : Option (Option String) := none
deriving DecidableEq

/-- A point in time or a length of time, as seconds and nanoseconds. -/
structure SplitTime where
  seconds : Int := 0
  nanos : Int := 0
deriving DecidableEq

/-- The information about a trace. -/
structure TraceInfo where
  traceId : Option String := none
  clientRequestId : Option String := none
  location : Option Location := none
  request : Option String := none
  response : Option String := none
  requestTime : Option SplitTime := none
  executionDuration : Option SplitTime := none
  state : Option Int := none
  metadata : KeyMap String := .empty
  assessments : List (List (String × Value)) := []
  tags : KeyMap String := .empty

/-- A trace. -/
structure Trace where
  info : Option TraceInfo := none
  spans : Option (List Span) := none

/-! ## Writing -/

/-- A field that is written if it is present. -/
def field? {Content : Type} (number : Nat) (form : Content → Payload) :
    Option Content → List Field
  | none => []
  | some content => [⟨number, form content⟩]

/-- A field that is written if its number is not zero. -/
def nonZeroField (number : Nat) (value : Int) : List Field :=
  if value = 0 then [] else [⟨number, .ofInt value⟩]

/-- Fields for the entries of a map, from the fields of their values. -/
def mapFields {Content : Type} (number : Nat)
    (valueFields : Content → List Field) (map : KeyMap Content) :
    List Field :=
  map.entries.map (fun entry =>
    ⟨number, .delimited (encodeFields
      ((if entry.1.isEmpty then [] else [⟨1, .ofText entry.1⟩]) ++
        valueFields entry.2))⟩)

/-- Fields for the entries of a map of values. -/
def attributeFields (number : Nat) (map : KeyMap Value) : List Field :=
  mapFields number (fun value => [⟨2, .delimited value.encode⟩]) map

/-- Fields for the entries of a map of texts. -/
def textFields (number : Nat) (map : KeyMap String) : List Field :=
  mapFields number
    (fun text => if text.isEmpty then [] else [⟨2, .ofText text⟩]) map

namespace Status

/-- The fields of a status. -/
def fields (status : Status) : List Field :=
  field? 2 .ofText status.message ++ field? 3 .ofInt status.code

end Status

namespace Event

/-- The fields of an event. -/
def fields (event : Event) : List Field :=
  field? 1 .fixed64 event.time ++ field? 2 .ofText event.name ++
    attributeFields 3 event.attributes ++
    field? 4 .ofHalfWord event.droppedAttributes

end Event

namespace Link

/-- The fields of a link. -/
def fields (link : Link) : List Field :=
  field? 1 .delimited link.traceId ++ field? 2 .delimited link.spanId ++
    field? 3 .ofText link.traceState ++ attributeFields 4 link.attributes ++
    field? 5 .ofHalfWord link.droppedAttributes ++
    field? 6 .fixed32 link.flags

end Link

namespace Span

/-- The fields of a span. -/
def fields (span : Span) : List Field :=
  field? 1 .delimited span.traceId ++ field? 2 .delimited span.spanId ++
    field? 3 .ofText span.traceState ++ field? 4 .delimited span.parentId ++
    field? 5 .ofText span.name ++ field? 6 .ofInt span.kind ++
    field? 7 .fixed64 span.startTime ++ field? 8 .fixed64 span.endTime ++
    attributeFields 9 span.attributes ++
    field? 10 .ofHalfWord span.droppedAttributes ++
    span.events.map
      (fun event => ⟨11, .delimited (encodeFields event.fields)⟩) ++
    field? 12 .ofHalfWord span.droppedEvents ++
    span.links.map
      (fun link => ⟨13, .delimited (encodeFields link.fields)⟩) ++
    field? 14 .ofHalfWord span.droppedLinks ++
    field? 15 (fun status => .delimited (encodeFields status.fields))
      span.status ++
    field? 16 .fixed32 span.flags

/-- The bytes of a span. -/
def encode (span : Span) : List UInt8 :=
  encodeFields span.fields

/-- The fields of a list of spans. -/
def listFields (spans : List Span) : List Field :=
  spans.map (fun span => ⟨1, .delimited span.encode⟩)

end Span

namespace Location

/-- The fields of a part of a location. -/
def partFields (name : Option String) : List Field :=
  field? 1 .ofText name

/-- The fields of a location. -/
def fields (location : Location) : List Field :=
  field? 1 .ofInt location.kind ++
    field? 2 (fun name => .delimited (encodeFields (partFields name)))
      location.experiment ++
    field? 3 (fun name => .delimited (encodeFields (partFields name)))
      location.inferenceTable

end Location

namespace SplitTime

/-- The fields of a time. -/
def fields (time : SplitTime) : List Field :=
  nonZeroField 1 time.seconds ++ nonZeroField 2 time.nanos

end SplitTime

namespace TraceInfo

/-- The fields of the information about a trace. -/
def fields (info : TraceInfo) : List Field :=
  field? 1 .ofText info.traceId ++ field? 2 .ofText info.clientRequestId ++
    field? 3 (fun location => .delimited (encodeFields location.fields))
      info.location ++
    field? 4 .ofText info.request ++ field? 5 .ofText info.response ++
    field? 6 (fun time => .delimited (encodeFields time.fields))
      info.requestTime ++
    field? 7 (fun time => .delimited (encodeFields time.fields))
      info.executionDuration ++
    field? 8 .ofInt info.state ++ textFields 9 info.metadata ++
    info.assessments.map
      (fun entries => ⟨10, .delimited (Value.encodeEntries entries)⟩) ++
    textFields 11 info.tags

/-- The bytes of the information about a trace. -/
def encode (info : TraceInfo) : List UInt8 :=
  encodeFields info.fields

end TraceInfo

namespace Trace

/-- The fields of a trace. -/
def fields (trace : Trace) : List Field :=
  field? 1 (fun info => .delimited info.encode) trace.info ++
    field? 2 (fun spans => .delimited (encodeFields (Span.listFields spans)))
      trace.spans

/-- The bytes of a trace. -/
def encode (trace : Trace) : List UInt8 :=
  encodeFields trace.fields

end Trace

/-! ## Reading -/

/-- Puts an entry into a map of values. -/
def absorbAttribute (room : Nat) (map : KeyMap Value) (payload : Payload) :
    Option (KeyMap Value) :=
  match room, payload.bytes? with
  | room + 1, some bytes =>
      match readEntry room .absent (readNested Value.mergeValue room) bytes with
      | none => none
      | some (key, value) => some (map.insert key value)
  | _, _ => none

/-- Puts an entry into a map of texts. -/
def absorbText (room : Nat) (map : KeyMap String) (payload : Payload) :
    Option (KeyMap String) :=
  match room, payload.bytes? with
  | room + 1, some bytes =>
      match readEntry room "" (fun _ payload => payload.text?) bytes with
      | none => none
      | some (key, text) => some (map.insert key text)
  | _, _ => none

namespace Status

/-- The known fields of a status. -/
def schema : Schema := ⟨[2, 3], []⟩

/-- Puts a field into a status. -/
def absorb (status : Status) (field : Field) : Option Status :=
  match field.number with
  | 2 => field.payload.text?.map
      (fun message => { status with message := some message })
  | _ => field.payload.int32?.map
      (fun code => { status with code := some code })

/-- Puts the bytes of a status together with what was read before. -/
def merge (room : Nat) : Status → List UInt8 → Option Status :=
  Protobuf.merge schema absorb room

end Status

namespace Event

/-- The known fields of an event. -/
def schema : Schema := ⟨[1, 2, 4], [3]⟩

/-- Puts a field into an event. -/
def absorb (room : Nat) (event : Event) (field : Field) : Option Event :=
  match field.number with
  | 1 => field.payload.fixed64?.map
      (fun time => { event with time := some time })
  | 2 => field.payload.text?.map
      (fun name => { event with name := some name })
  | 3 => (absorbAttribute room event.attributes field.payload).map
      (fun attributes => { event with attributes })
  | _ => field.payload.uint32?.map
      (fun count => { event with droppedAttributes := some count })

/-- Puts the bytes of an event together with what was read before. -/
def merge (room : Nat) : Event → List UInt8 → Option Event :=
  Protobuf.merge schema (absorb room) room

end Event

namespace Link

/-- The known fields of a link. -/
def schema : Schema := ⟨[1, 2, 3, 5, 6], [4]⟩

/-- Puts a field into a link. -/
def absorb (room : Nat) (link : Link) (field : Field) : Option Link :=
  match field.number with
  | 1 => field.payload.bytes?.map
      (fun bytes => { link with traceId := some bytes })
  | 2 => field.payload.bytes?.map
      (fun bytes => { link with spanId := some bytes })
  | 3 => field.payload.text?.map
      (fun text => { link with traceState := some text })
  | 4 => (absorbAttribute room link.attributes field.payload).map
      (fun attributes => { link with attributes })
  | 5 => field.payload.uint32?.map
      (fun count => { link with droppedAttributes := some count })
  | _ => field.payload.fixed32?.map
      (fun flags => { link with flags := some flags })

/-- Puts the bytes of a link together with what was read before. -/
def merge (room : Nat) : Link → List UInt8 → Option Link :=
  Protobuf.merge schema (absorb room) room

end Link

namespace Span

/-- The known fields of a span. -/
def schema : Schema :=
  ⟨[1, 2, 3, 4, 5, 6, 7, 8, 10, 11, 12, 13, 14, 15, 16], [9]⟩

/-- Puts a field into a span. -/
def absorb (room : Nat) (span : Span) (field : Field) : Option Span :=
  match field.number with
  | 1 => field.payload.bytes?.map
      (fun bytes => { span with traceId := some bytes })
  | 2 => field.payload.bytes?.map
      (fun bytes => { span with spanId := some bytes })
  | 3 => field.payload.text?.map
      (fun text => { span with traceState := some text })
  | 4 => field.payload.bytes?.map
      (fun bytes => { span with parentId := some bytes })
  | 5 => field.payload.text?.map (fun name => { span with name := some name })
  | 6 => field.payload.int32?.map (fun kind => { span with kind := some kind })
  | 7 => field.payload.fixed64?.map
      (fun time => { span with startTime := some time })
  | 8 => field.payload.fixed64?.map
      (fun time => { span with endTime := some time })
  | 9 => (absorbAttribute room span.attributes field.payload).map
      (fun attributes => { span with attributes })
  | 10 => field.payload.uint32?.map
      (fun count => { span with droppedAttributes := some count })
  | 11 => (readNested Event.merge room {} field.payload).map
      (fun event => { span with events := span.events ++ [event] })
  | 12 => field.payload.uint32?.map
      (fun count => { span with droppedEvents := some count })
  | 13 => (readNested Link.merge room {} field.payload).map
      (fun link => { span with links := span.links ++ [link] })
  | 14 => field.payload.uint32?.map
      (fun count => { span with droppedLinks := some count })
  | 15 => (readNested Status.merge room (span.status.getD {})
      field.payload).map (fun status => { span with status := some status })
  | _ => field.payload.fixed32?.map
      (fun flags => { span with flags := some flags })

/-- Puts the bytes of a span together with what was read before. -/
def merge (room : Nat) : Span → List UInt8 → Option Span :=
  Protobuf.merge schema (absorb room) room

/-- The known fields of a list of spans. -/
def listSchema : Schema := ⟨[1], []⟩

/-- Puts a span to a list of spans. -/
def absorbItem (room : Nat) (spans : List Span) (field : Field) :
    Option (List Span) :=
  (readNested merge room {} field.payload).map (fun span => spans ++ [span])

/-- Puts the bytes of a list of spans together with what was read before. -/
def mergeList (room : Nat) : List Span → List UInt8 → Option (List Span) :=
  Protobuf.merge listSchema (absorbItem room) room

/-- Reads a span. -/
def decode? (bytes : List UInt8) : Option Span :=
  merge depthLimit {} bytes

end Span

namespace Location

/-- The known fields of a part of a location. -/
def partSchema : Schema := ⟨[1], []⟩

/-- Puts a field into a part of a location. -/
def absorbPart (_ : Option String) (field : Field) :
    Option (Option String) :=
  field.payload.text?.map some

/-- Puts the bytes of a part of a location together with what was read
before. -/
def mergePart (room : Nat) :
    Option String → List UInt8 → Option (Option String) :=
  Protobuf.merge partSchema absorbPart room

/-- The known fields of a location. -/
def schema : Schema := ⟨[1, 2, 3], []⟩

/-- Puts a field into a location. -/
def absorb (room : Nat) (location : Location) (field : Field) :
    Option Location :=
  match field.number with
  | 1 => field.payload.int32?.map
      (fun kind => { location with kind := some kind })
  | 2 => (readNested mergePart room (location.experiment.getD none)
      field.payload).map
      (fun name => { location with experiment := some name })
  | _ => (readNested mergePart room (location.inferenceTable.getD none)
      field.payload).map
      (fun name => { location with inferenceTable := some name })

/-- Puts the bytes of a location together with what was read before. -/
def merge (room : Nat) : Location → List UInt8 → Option Location :=
  Protobuf.merge schema (absorb room) room

end Location

namespace SplitTime

/-- The known fields of a time. -/
def schema : Schema := ⟨[1, 2], []⟩

/-- Puts a field into a time. -/
def absorb (time : SplitTime) (field : Field) : Option SplitTime :=
  match field.number with
  | 1 => field.payload.int64?.map (fun seconds => { time with seconds })
  | _ => field.payload.int32?.map (fun nanos => { time with nanos })

/-- Puts the bytes of a time together with what was read before. -/
def merge (room : Nat) : SplitTime → List UInt8 → Option SplitTime :=
  Protobuf.merge schema absorb room

end SplitTime

namespace TraceInfo

/-- The known fields of the information about a trace. -/
def schema : Schema := ⟨[1, 2, 3, 4, 5, 6, 7, 8, 10], [9, 11]⟩

/-- Puts a field into the information about a trace. -/
def absorb (room : Nat) (info : TraceInfo) (field : Field) :
    Option TraceInfo :=
  match field.number with
  | 1 => field.payload.text?.map
      (fun text => { info with traceId := some text })
  | 2 => field.payload.text?.map
      (fun text => { info with clientRequestId := some text })
  | 3 => (readNested Location.merge room (info.location.getD {})
      field.payload).map
      (fun location => { info with location := some location })
  | 4 => field.payload.text?.map
      (fun text => { info with request := some text })
  | 5 => field.payload.text?.map
      (fun text => { info with response := some text })
  | 6 => (readNested SplitTime.merge room (info.requestTime.getD {})
      field.payload).map (fun time => { info with requestTime := some time })
  | 7 => (readNested SplitTime.merge room (info.executionDuration.getD {})
      field.payload).map
      (fun time => { info with executionDuration := some time })
  | 8 => field.payload.int32?.map
      (fun state => { info with state := some state })
  | 9 => (absorbText room info.metadata field.payload).map
      (fun metadata => { info with metadata })
  | 10 => (readNested Value.mergeStruct room [] field.payload).map
      (fun entries => { info with assessments := info.assessments ++ [entries] })
  | _ => (absorbText room info.tags field.payload).map
      (fun tags => { info with tags })

/-- Puts the bytes of the information about a trace together with what was read
before. -/
def merge (room : Nat) : TraceInfo → List UInt8 → Option TraceInfo :=
  Protobuf.merge schema (absorb room) room

end TraceInfo

namespace Trace

/-- The known fields of a trace. -/
def schema : Schema := ⟨[1, 2], []⟩

/-- Puts a field into a trace. -/
def absorb (room : Nat) (trace : Trace) (field : Field) : Option Trace :=
  match field.number with
  | 1 => (readNested TraceInfo.merge room (trace.info.getD {})
      field.payload).map (fun info => { trace with info := some info })
  | _ => (readNested Span.mergeList room (trace.spans.getD [])
      field.payload).map (fun spans => { trace with spans := some spans })

/-- Reads a trace. -/
def decode? (bytes : List UInt8) : Option Trace :=
  Protobuf.merge schema (absorb depthLimit) depthLimit {} bytes

end Trace

end TraceArchive.Protobuf
