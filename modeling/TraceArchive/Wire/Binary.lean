import TraceArchive.Protobuf.Message
import TraceArchive.Wire.Error
import TraceArchive.Wire.Message

/-!
# Messages in binary form

The two forms of a message hold the same fields. Binary numbers that are not
finite are left out of a span and recorded with their paths; an assessment with
such a number is refused.
-/

namespace TraceArchive

/-! ## From JSON values to dynamic values -/

mutual

/-- The dynamic value of a JSON value. -/
def Protobuf.Value.ofJson : Json → Protobuf.Value
  | .null => .null
  | .boolean value => .boolean value
  | .number value => .number value.toDouble
  | .string value => .string value
  | .list items => .list (Protobuf.Value.ofJsonItems items)
  | .object entries => .struct (Protobuf.Value.ofJsonEntries entries)

/-- The dynamic values of JSON values. -/
def Protobuf.Value.ofJsonItems : List Json → List Protobuf.Value
  | [] => []
  | item :: rest =>
      Protobuf.Value.ofJson item :: Protobuf.Value.ofJsonItems rest

/-- The dynamic values of the entries of an object. -/
def Protobuf.Value.ofJsonEntries :
    List (String × Json) → List (String × Protobuf.Value)
  | [] => []
  | (key, value) :: rest =>
      (key, Protobuf.Value.ofJson value) ::
        Protobuf.Value.ofJsonEntries rest

end

/-! ## From dynamic values to JSON values -/

mutual

/-- The JSON value of a dynamic value at a path, with `null` for the numbers
that JSON cannot hold, and these numbers in their order. -/
def Protobuf.Value.toJson (path : String) :
    Protobuf.Value → Json × List Wire.NotFinite
  | .absent => (.null, [])
  | .null => (.null, [])
  | .number value =>
      if value.isFinite then (.number (.double value), [])
      else (.null, [⟨path, value⟩])
  | .string value => (.string value, [])
  | .boolean value => (.boolean value, [])
  | .struct entries =>
      let (values, found) := Protobuf.Value.toJsonEntries path entries
      (.object values, found)
  | .list items =>
      let (values, found) := Protobuf.Value.toJsonItems path 0 items
      (.list values, found)

/-- The JSON values of the items of a list, counted from an index. -/
def Protobuf.Value.toJsonItems (path : String) (index : Nat) :
    List Protobuf.Value → List Json × List Wire.NotFinite
  | [] => ([], [])
  | item :: rest =>
      let (value, found) :=
        Protobuf.Value.toJson (AttributeValue.itemPath path index) item
      let (values, others) :=
        Protobuf.Value.toJsonItems path (index + 1) rest
      (value :: values, found ++ others)

/-- The JSON values of the entries of a map. -/
def Protobuf.Value.toJsonEntries (path : String) :
    List (String × Protobuf.Value) →
      List (String × Json) × List Wire.NotFinite
  | [] => ([], [])
  | (key, item) :: rest =>
      let (value, found) :=
        Protobuf.Value.toJson (AttributeValue.keyPath path key) item
      let (values, others) := Protobuf.Value.toJsonEntries path rest
      ((key, value) :: values, found ++ others)

end

namespace Wire

/-! ## Attributes and texts -/

/-- The JSON values of attributes, with paths that start with `lead`. -/
def attributeList (lead : String) :
    List (String × Protobuf.Value) → List (String × Json) × List NotFinite
  | [] => ([], [])
  | (key, item) :: rest =>
      let (value, found) := item.toJson (lead ++ "attributes." ++ key)
      let (values, others) := attributeList lead rest
      ((key, value) :: values, found ++ others)

/-- The JSON values of a map of attributes, with paths that start with
`lead`. -/
def attributesOfBinary (lead : String) (attributes : KeyMap Protobuf.Value) :
    KeyMap Json × List NotFinite :=
  let (values, found) := attributeList lead attributes.entries
  (KeyMap.ofList values, found)

/-- The dynamic values of a map of attributes. -/
def attributesToBinary (attributes : KeyMap Json) : KeyMap Protobuf.Value :=
  attributes.mapValues Protobuf.Value.ofJson

/-- The text of a value: itself if it is one, else its JSON. -/
def textOf : Json → String
  | .string text => text
  | other => other.render

/-- The word of a number, if one is given. -/
def wordOf? {Word : Type} [Vocabulary Word] :
    Option Int → Except Error (Option Word)
  | none => .ok none
  | some value =>
      match Vocabulary.ofNumber? value with
      | some word => .ok (some word)
      | none => .error (.unknownNumber (Vocabulary.title Word) value)

/-! ## Spans -/

namespace Status

/-- The binary form of a status. -/
def toBinary (status : Status) : Protobuf.Status where
  message := status.message
  code := status.code.map Vocabulary.number

/-- The message of a binary status. -/
def ofBinary (status : Protobuf.Status) : Except Error Status :=
  match wordOf? status.code with
  | .error error => .error error
  | .ok code => .ok { message := status.message, code }

/-- The message of a binary status, if there is one. -/
def ofBinary? : Option Protobuf.Status → Except Error (Option Status)
  | none => .ok none
  | some status => (ofBinary status).map some

end Status

namespace Event

/-- The binary form of an event. -/
def toBinary (event : Event) : Protobuf.Event where
  time := event.time
  name := event.name
  attributes := attributesToBinary event.attributes
  droppedAttributes := event.droppedAttributes

/-- The message of a binary event, found with an index in its span. -/
def ofBinary (index : Nat) (event : Protobuf.Event) :
    Event × List NotFinite :=
  let (attributes, found) :=
    attributesOfBinary ("events[" ++ toString index ++ "].") event.attributes
  ({ time := event.time
     name := event.name
     attributes
     droppedAttributes := event.droppedAttributes }, found)

/-- The messages of binary events, counted from an index. -/
def ofBinaryList (index : Nat) :
    List Protobuf.Event → List Event × List NotFinite
  | [] => ([], [])
  | event :: rest =>
      let (message, found) := ofBinary index event
      let (messages, others) := ofBinaryList (index + 1) rest
      (message :: messages, found ++ others)

end Event

namespace Link

/-- The binary form of a link. -/
def toBinary (link : Link) : Protobuf.Link where
  traceId := link.traceId.map Identifier.bytes
  spanId := link.spanId.map Identifier.bytes
  traceState := link.traceState
  attributes := attributesToBinary link.attributes
  droppedAttributes := link.droppedAttributes
  flags := link.flags

/-- The message of a binary link, found with an index in its span. -/
def ofBinary (index : Nat) (link : Protobuf.Link) : Link × List NotFinite :=
  let (attributes, found) :=
    attributesOfBinary ("links[" ++ toString index ++ "].") link.attributes
  ({ traceId := link.traceId.map Identifier.mk
     spanId := link.spanId.map Identifier.mk
     traceState := link.traceState
     attributes
     droppedAttributes := link.droppedAttributes
     flags := link.flags }, found)

/-- The messages of binary links, counted from an index. -/
def ofBinaryList (index : Nat) :
    List Protobuf.Link → List Link × List NotFinite
  | [] => ([], [])
  | link :: rest =>
      let (message, found) := ofBinary index link
      let (messages, others) := ofBinaryList (index + 1) rest
      (message :: messages, found ++ others)

end Link

namespace Span

/-- The binary form of a span. -/
def toBinary (span : Span) : Protobuf.Span where
  traceId := span.traceId.map Identifier.bytes
  spanId := span.spanId.map Identifier.bytes
  traceState := span.traceState
  parentId := span.parentId.map Identifier.bytes
  name := span.name
  kind := span.kind.map Vocabulary.number
  startTime := span.startTime
  endTime := span.endTime
  attributes := attributesToBinary span.attributes
  droppedAttributes := span.droppedAttributes
  events := span.events.map Event.toBinary
  droppedEvents := span.droppedEvents
  links := span.links.map Link.toBinary
  droppedLinks := span.droppedLinks
  status := span.status.map Status.toBinary
  flags := span.flags

/-- The message of a binary span. -/
def ofBinary (span : Protobuf.Span) : Except Error Span :=
  let (attributes, found) := attributesOfBinary "" span.attributes
  let (events, foundInEvents) := Event.ofBinaryList 0 span.events
  let (links, foundInLinks) := Link.ofBinaryList 0 span.links
  match wordOf? span.kind with
  | .error error => .error error
  | .ok kind =>
      match Status.ofBinary? span.status with
      | .error error => .error error
      | .ok status =>
          .ok
            { traceId := span.traceId.map Identifier.mk
              spanId := span.spanId.map Identifier.mk
              traceState := span.traceState
              parentId := span.parentId.map Identifier.mk
              flags := span.flags
              name := span.name
              kind
              startTime := span.startTime
              endTime := span.endTime
              attributes
              droppedAttributes := span.droppedAttributes
              events
              droppedEvents := span.droppedEvents
              links
              droppedLinks := span.droppedLinks
              status
              notFinite := found ++ foundInEvents ++ foundInLinks }

/-- The messages of binary spans, or the first error among them. -/
def ofBinaryList : List Protobuf.Span → Except Error (List Span)
  | [] => .ok []
  | span :: rest =>
      match ofBinary span with
      | .error error => .error error
      | .ok message =>
          match ofBinaryList rest with
          | .error error => .error error
          | .ok messages => .ok (message :: messages)

end Span

/-! ## Information about a trace -/

namespace Location

/-- The binary form of a location. -/
def toBinary (location : Location) : Protobuf.Location where
  kind := location.kind.map Vocabulary.number
  experiment := location.experiment
  inferenceTable := location.inferenceTable

/-- The message of a binary location. -/
def ofBinary (location : Protobuf.Location) : Except Error Location :=
  match wordOf? location.kind with
  | .error error => .error error
  | .ok kind =>
      .ok
        { kind
          experiment := location.experiment
          inferenceTable := location.inferenceTable }

/-- The message of a binary location, if there is one. -/
def ofBinary? : Option Protobuf.Location → Except Error (Option Location)
  | none => .ok none
  | some location => (ofBinary location).map some

end Location

/-- The binary form of an instant. -/
def instantToBinary (instant : Instant) : Protobuf.SplitTime where
  seconds := instant.seconds
  nanos := instant.nanos

/-- The instant of a binary time, if one is given; its nanoseconds have to be
below a second. -/
def instantOfBinary? :
    Option Protobuf.SplitTime → Except Error (Option Instant)
  | none => .ok none
  | some time =>
      if 0 ≤ time.nanos ∧ time.nanos < nanosPerSecond then
        match Instant.ofParts? time.seconds time.nanos.toNat with
        | some instant => .ok (some instant)
        | none => .error .timestampOutOfRange
      else .error .timestampOutOfRange

/-- The binary form of a duration. -/
def durationToBinary (duration : Duration) : Protobuf.SplitTime where
  seconds := Int.bmod duration.seconds.toNat UInt64.size
  nanos := duration.nanos

/-- The duration of a binary time, if one is given; its nanoseconds have to be
below a second. -/
def durationOfBinary? :
    Option Protobuf.SplitTime → Except Error (Option Duration)
  | none => .ok none
  | some time =>
      if 0 ≤ time.seconds ∧ 0 ≤ time.nanos ∧ time.nanos < nanosPerSecond then
        match Duration.ofParts? time.seconds.toNat time.nanos.toNat with
        | some duration => .ok (some duration)
        | none => .error .invalidDuration
      else .error .invalidDuration

/-- The JSON values of binary assessments, counted from an index, or the first
number among them that is not finite. -/
def assessmentsOfBinary (index : Nat) :
    List (List (String × Protobuf.Value)) → Except Error (List Json)
  | [] => .ok []
  | entries :: rest =>
      match Protobuf.Value.toJsonEntries
          (AttributeValue.itemPath "assessments" index) entries with
      | (_, found :: _) => .error (.notFinite found.path)
      | (values, []) =>
          match assessmentsOfBinary (index + 1) rest with
          | .error error => .error error
          | .ok assessments => .ok (.object values :: assessments)

/-- The binary forms of those assessments that are objects. -/
def assessmentsToBinary :
    List Json → List (List (String × Protobuf.Value))
  | [] => []
  | .object entries :: rest =>
      Protobuf.Value.ofJsonEntries entries :: assessmentsToBinary rest
  | _ :: rest => assessmentsToBinary rest

namespace TraceInfo

/-- The binary form of the information about a trace. -/
def toBinary (info : TraceInfo) : Protobuf.TraceInfo where
  traceId := info.traceId
  clientRequestId := info.clientRequestId
  location := info.location.map Location.toBinary
  request := info.request
  response := info.response
  requestTime := info.requestTime.map instantToBinary
  executionDuration := info.executionDuration.map durationToBinary
  state := info.state.map Vocabulary.number
  metadata := info.metadata.mapValues textOf
  assessments := assessmentsToBinary info.assessments
  tags := info.tags.mapValues textOf

/-- The message of the binary information about a trace. -/
def ofBinary (info : Protobuf.TraceInfo) : Except Error TraceInfo :=
  match Location.ofBinary? info.location with
  | .error error => .error error
  | .ok location =>
      match instantOfBinary? info.requestTime with
      | .error error => .error error
      | .ok requestTime =>
          match durationOfBinary? info.executionDuration with
          | .error error => .error error
          | .ok executionDuration =>
              match wordOf? info.state with
              | .error error => .error error
              | .ok state =>
                  match assessmentsOfBinary 0 info.assessments with
                  | .error error => .error error
                  | .ok assessments =>
                      .ok
                        { traceId := info.traceId
                          clientRequestId := info.clientRequestId
                          location
                          request := info.request
                          response := info.response
                          requestTime
                          executionDuration
                          state
                          metadata := info.metadata.mapValues .string
                          assessments
                          tags := info.tags.mapValues .string }

/-- The message of the binary information about a trace, if there is any. -/
def ofBinary? : Option Protobuf.TraceInfo → Except Error (Option TraceInfo)
  | none => .ok none
  | some info => (ofBinary info).map some

end TraceInfo

/-! ## Traces -/

namespace Trace

/-- The binary form of a trace. -/
def toBinary (trace : Trace) : Protobuf.Trace where
  info := trace.info.map TraceInfo.toBinary
  spans := trace.spans.map (fun spans => spans.map Span.toBinary)

/-- The messages of binary spans, if there is a list of them. -/
def spansOfBinary? :
    Option (List Protobuf.Span) → Except Error (Option (List Span))
  | none => .ok none
  | some spans => (Span.ofBinaryList spans).map some

/-- The message of a binary trace. -/
def ofBinary (trace : Protobuf.Trace) : Except Error Trace :=
  match TraceInfo.ofBinary? trace.info with
  | .error error => .error error
  | .ok info =>
      match spansOfBinary? trace.spans with
      | .error error => .error error
      | .ok spans => .ok { info, spans }

end Trace

end Wire

end TraceArchive
