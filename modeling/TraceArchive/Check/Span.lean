import TraceArchive.Check.Violation
import TraceArchive.Wire.Message

/-!
# Checking spans one by one

A span in a message becomes a span of a trace when nothing is wrong with it. All
violations of a span are reported, each under the path of its place. Parents are
not looked at here, as they need the whole trace.
-/

namespace TraceArchive.Check

/-! ## Required parts -/

/-- An identifier that is not empty. -/
def properId? : Option Identifier → Option Identifier
  | none => none
  | some identifier => if identifier.isEmpty then none else some identifier

/-- A text that is not empty. -/
def properText? : Option String → Option String
  | none => none
  | some text => if text.isEmpty then none else some text

/-- The violation of a field that has no value. -/
def missingUnless {Value : Type} (value : Option Value) (field : String) :
    List Violation :=
  match value with
  | some _ => []
  | none => [.missingField field]

/-! ## Attributes -/

/-- The attributes of a map; none if there is anything wrong with them. -/
def attributes (map : KeyMap Json) : Attributes :=
  match Attributes.decode map with
  | .ok attributes => attributes
  | .error _ => .empty

/-- What is wrong with the attributes of the element at a path. -/
def attributeViolations (path : String) (map : KeyMap Json) :
    List Violation :=
  match Attributes.decode map with
  | .ok _ => []
  | .error errors =>
      errors.map (fun error =>
        .invalidAttribute (path ++ ".attributes." ++ error.path)
          (.attribute error.fault))

/-- The violation of a number that is not finite. -/
def notFiniteViolation (path : String) (found : Wire.NotFinite) : Violation :=
  .invalidAttribute (path ++ "." ++ found.path)
    (.attribute (.notFinite found.value))

/-! ## Events -/

/-- The event of a message, if it has a name. -/
def event? (event : Wire.Event) : Option SpanEvent :=
  match properText? event.name with
  | none => none
  | some name =>
      some
        { time := event.time.getD 0
          name
          attributes := attributes event.attributes
          droppedAttributes := event.droppedAttributes.getD 0 }

/-- What is wrong with the event at a path. -/
def eventViolations (path : String) (event : Wire.Event) : List Violation :=
  missingUnless (properText? event.name) (path ++ ".name") ++
    attributeViolations path event.attributes

/-- What is wrong with the events of the span at a path, counted from an
index. -/
def eventListViolations (path : String) (index : Nat) :
    List Wire.Event → List Violation
  | [] => []
  | event :: rest =>
      eventViolations (AttributeValue.itemPath (path ++ ".events") index)
          event ++
        eventListViolations path (index + 1) rest

/-! ## Links -/

/-- The link of a message, if it has both identifiers. -/
def link? (link : Wire.Link) : Option SpanLink :=
  match properId? link.traceId, properId? link.spanId with
  | some traceId, some spanId =>
      some
        { traceId
          spanId
          traceState := link.traceState
          attributes := attributes link.attributes
          droppedAttributes := link.droppedAttributes.getD 0
          flags := link.flags.getD 0 }
  | _, _ => none

/-- What is wrong with the link at a path. -/
def linkViolations (path : String) (link : Wire.Link) : List Violation :=
  missingUnless (properId? link.traceId) (path ++ ".trace_id") ++
    missingUnless (properId? link.spanId) (path ++ ".span_id") ++
    attributeViolations path link.attributes

/-- What is wrong with the links of the span at a path, counted from an
index. -/
def linkListViolations (path : String) (index : Nat) :
    List Wire.Link → List Violation
  | [] => []
  | link :: rest =>
      linkViolations (AttributeValue.itemPath (path ++ ".links") index)
          link ++
        linkListViolations path (index + 1) rest

/-! ## Spans of a trace -/

/-- What is wrong with a span of a trace by itself. -/
def spanViolations (span : Span) : List Violation :=
  (if span.traceId.isEmpty then
      [.missingField (span.label ++ ".trace_id")] else []) ++
    (if span.spanId.isEmpty then
      [.missingField (span.label ++ ".span_id")] else []) ++
    (if span.name.isEmpty then
      [.missingField ("span (" ++ span.spanId.toHex ++ ").name")] else []) ++
    (if span.endTime < span.startTime then
      [.invalidTiming span.label span.startTime span.endTime] else [])

/-! ## Spans of a message -/

/-- The status of a span in a message. -/
def status (status : Wire.Status) : SpanStatus where
  code := status.code.getD .unset
  message := status.message.getD ""

/-- The span of a message, if it has its identifiers, its name and its
times. -/
def span? (span : Wire.Span) : Option Span :=
  match properId? span.traceId, properId? span.spanId,
      properText? span.name, span.startTime, span.endTime with
  | some traceId, some spanId, some name, some startTime, some endTime =>
      some
        { traceId
          spanId
          traceState := span.traceState
          parentId := properId? span.parentId
          name
          kind := span.kind.getD .unspecified
          startTime
          endTime
          attributes := attributes span.attributes
          droppedAttributes := span.droppedAttributes.getD 0
          events := span.events.filterMap event?
          droppedEvents := span.droppedEvents.getD 0
          links := span.links.filterMap link?
          droppedLinks := span.droppedLinks.getD 0
          status := span.status.map status
          flags := span.flags.getD 0 }
  | _, _, _, _, _ => none

/-- What is wrong with the fields of the span at a path. -/
def fieldViolations (path : String) (span : Wire.Span) : List Violation :=
  missingUnless (properId? span.traceId) (path ++ ".trace_id") ++
    missingUnless (properId? span.spanId) (path ++ ".span_id") ++
    missingUnless (properText? span.name) (path ++ ".name") ++
    missingUnless span.startTime (path ++ ".start_time_unix_nano") ++
    missingUnless span.endTime (path ++ ".end_time_unix_nano") ++
    attributeViolations path span.attributes ++
    span.notFinite.map (notFiniteViolation path) ++
    eventListViolations path 0 span.events ++
    linkListViolations path 0 span.links

/-- Checks the span of a message at a path. -/
def checkSpan (path : String) (span : Wire.Span) :
    Except (List Violation) Span :=
  match span? span with
  | none => .error (fieldViolations path span)
  | some checked =>
      match fieldViolations path span ++ spanViolations checked with
      | [] => .ok checked
      | violations => .error violations

end TraceArchive.Check
