import TraceArchive.Check.Span
import TraceArchive.Proofs.Attribute.Levels
import TraceArchive.Wire.Format

/-!
# Accepted spans

A span that was accepted has nothing wrong with it, and everything in it has a
wire form. So a trace of accepted spans can always be written in either format.
-/

namespace TraceArchive

namespace Span

/-- The attributes of a span, of its events and of its links. -/
def attributeMaps (span : Span) : List Attributes :=
  span.attributes ::
    (span.events.map SpanEvent.attributes ++
      span.links.map SpanLink.attributes)

theorem attributes_mem_of_event
    {span : Span} {event : SpanEvent} (member : event ∈ span.events) :
    event.attributes ∈ span.attributeMaps :=
  List.mem_cons_of_mem _
    (List.mem_append_left _ (List.mem_map_of_mem member))

theorem attributes_mem_of_link
    {span : Span} {link : SpanLink} (member : link ∈ span.links) :
    link.attributes ∈ span.attributeMaps :=
  List.mem_cons_of_mem _
    (List.mem_append_right _ (List.mem_map_of_mem member))

/-- What holds of every span that was accepted. -/
structure Sound (span : Span) : Prop where
  checked : Check.spanViolations span = []
  fit : ∀ attributes ∈ span.attributeMaps, attributes.Fit

theorem traceId_of_checked
    {span : Span} (checked : Check.spanViolations span = []) :
    span.traceId.isEmpty = false := by
  unfold Check.spanViolations at checked
  simp only [List.append_eq_nil_iff] at checked
  obtain ⟨⟨⟨hasTraceId, _⟩, _⟩, _⟩ := checked
  split at hasTraceId
  · cases hasTraceId
  · rename_i filled
    exact Bool.eq_false_iff.mpr filled

end Span

/-! ## Accepting -/

namespace Check

theorem fit_attributes (map : KeyMap Json) :
    Attributes.Fit (attributes map) := by
  unfold attributes
  split
  · rename_i decoded
    exact Attributes.fit_of_decode decoded
  · exact Attributes.fit_empty

theorem fit_of_event?
    {message : Wire.Event} {event : SpanEvent}
    (accepted : event? message = some event) :
    event.attributes.Fit := by
  unfold event? at accepted
  split at accepted
  · cases accepted
  · cases accepted
    exact fit_attributes message.attributes

theorem fit_of_link?
    {message : Wire.Link} {link : SpanLink}
    (accepted : link? message = some link) :
    link.attributes.Fit := by
  unfold link? at accepted
  split at accepted
  · cases accepted
    exact fit_attributes message.attributes
  · cases accepted

theorem fit_of_span?
    {message : Wire.Span} {span : Span} (accepted : span? message = some span) :
    ∀ attributes ∈ span.attributeMaps, attributes.Fit := by
  unfold span? at accepted
  split at accepted
  · cases accepted
    intro attributes member
    simp only [Span.attributeMaps, List.mem_cons, List.mem_append,
      List.mem_map, List.mem_filterMap] at member
    rcases member with
      rfl | ⟨event, ⟨sent, _, isEvent⟩, rfl⟩ | ⟨link, ⟨sent, _, isLink⟩, rfl⟩
    · exact fit_attributes message.attributes
    · exact fit_of_event? isEvent
    · exact fit_of_link? isLink
  · cases accepted

theorem given_of_missingUnless
    {Value : Type} {value : Option Value} {field : String}
    (nothing : missingUnless value field = []) : ∃ given, value = some given := by
  cases value with
  | none => cases nothing
  | some given => exact ⟨given, rfl⟩

/-- A message without violations in its fields has a span. -/
theorem span_of_faultless
    {path : String} {message : Wire.Span}
    (faultless : fieldViolations path message = []) :
    ∃ span, span? message = some span := by
  simp only [fieldViolations, List.append_eq_nil_iff, and_assoc] at faultless
  obtain ⟨noTraceId, noSpanId, noName, noStart, noEnd, _⟩ := faultless
  obtain ⟨traceId, isTraceId⟩ := given_of_missingUnless noTraceId
  obtain ⟨spanId, isSpanId⟩ := given_of_missingUnless noSpanId
  obtain ⟨name, isName⟩ := given_of_missingUnless noName
  obtain ⟨startTime, isStart⟩ := given_of_missingUnless noStart
  obtain ⟨endTime, isEnd⟩ := given_of_missingUnless noEnd
  simp only [span?, isTraceId, isSpanId, isName, isStart, isEnd]
  exact ⟨_, rfl⟩

/-- A message that is refused is refused for some reason. -/
theorem violations_of_checkSpan
    {path : String} {message : Wire.Span} {violations : List Violation}
    (refused : checkSpan path message = .error violations) :
    violations ≠ [] := by
  rintro rfl
  unfold checkSpan at refused
  split at refused
  · rename_i isNone
    obtain ⟨span, isSpan⟩ := span_of_faultless (Except.error.inj refused)
    rw [isNone] at isSpan
    cases isSpan
  · split at refused
    · cases refused
    · rename_i notNone
      exact notNone (Except.error.inj refused)

theorem sound_of_checkSpan
    {path : String} {message : Wire.Span} {span : Span}
    (accepted : checkSpan path message = .ok span) :
    span.Sound := by
  unfold checkSpan at accepted
  split at accepted
  · cases accepted
  · rename_i checked isSpan
    split at accepted
    · rename_i nothing
      cases accepted
      exact ⟨(List.append_eq_nil_iff.mp nothing).2, fit_of_span? isSpan⟩
    · cases accepted

end Check

/-! ## Writing -/

namespace Wire

theorem Event.ofEvents_of_fit
    {events : List SpanEvent} (fit : ∀ event ∈ events, event.attributes.Fit) :
    ∃ messages, Event.ofEvents events = .ok messages := by
  induction events with
  | nil => exact ⟨[], rfl⟩
  | cons event rest inductionHypothesis =>
      obtain ⟨attributes, encoded⟩ :=
        Attributes.encode_of_fit (fit event List.mem_cons_self)
      obtain ⟨messages, written⟩ :=
        inductionHypothesis fun other member =>
          fit other (List.mem_cons_of_mem _ member)
      simp only [Event.ofEvents, Event.ofEvent, encoded, written]
      exact ⟨_, rfl⟩

theorem Link.ofLinks_of_fit
    {links : List SpanLink} (fit : ∀ link ∈ links, link.attributes.Fit) :
    ∃ messages, Link.ofLinks links = .ok messages := by
  induction links with
  | nil => exact ⟨[], rfl⟩
  | cons link rest inductionHypothesis =>
      obtain ⟨attributes, encoded⟩ :=
        Attributes.encode_of_fit (fit link List.mem_cons_self)
      obtain ⟨messages, written⟩ :=
        inductionHypothesis fun other member =>
          fit other (List.mem_cons_of_mem _ member)
      simp only [Link.ofLinks, Link.ofLink, encoded, written]
      exact ⟨_, rfl⟩

theorem Span.ofSpan_of_fit
    {span : TraceArchive.Span}
    (fit : ∀ attributes ∈ span.attributeMaps, attributes.Fit) :
    ∃ message, Span.ofSpan span = .ok message := by
  obtain ⟨attributes, encoded⟩ :=
    Attributes.encode_of_fit (fit span.attributes List.mem_cons_self)
  obtain ⟨events, eventsWritten⟩ :=
    Event.ofEvents_of_fit fun event (member : event ∈ span.events) =>
      fit event.attributes (TraceArchive.Span.attributes_mem_of_event member)
  obtain ⟨links, linksWritten⟩ :=
    Link.ofLinks_of_fit fun link (member : link ∈ span.links) =>
      fit link.attributes (TraceArchive.Span.attributes_mem_of_link member)
  simp only [Span.ofSpan, encoded, eventsWritten, linksWritten]
  exact ⟨_, rfl⟩

theorem Span.ofSpans_of_fit
    {spans : List TraceArchive.Span}
    (fit :
      ∀ span ∈ spans, ∀ attributes ∈ span.attributeMaps, attributes.Fit) :
    ∃ messages, Span.ofSpans spans = .ok messages := by
  induction spans with
  | nil => exact ⟨[], rfl⟩
  | cons span rest inductionHypothesis =>
      obtain ⟨message, written⟩ :=
        Span.ofSpan_of_fit (fit span List.mem_cons_self)
      obtain ⟨messages, restWritten⟩ :=
        inductionHypothesis fun other member =>
          fit other (List.mem_cons_of_mem _ member)
      simp only [Span.ofSpans, written, restWritten]
      exact ⟨_, rfl⟩

/-- A trace of sound spans has a body in every format. -/
theorem Format.encode_of_sound
    {trace : TraceArchive.Trace} (sound : ∀ span ∈ trace.spans, span.Sound)
    (format : Format) :
    ∃ body, format.encode trace = .ok body := by
  obtain ⟨messages, written⟩ :=
    Span.ofSpans_of_fit fun span member => (sound span member).fit
  simp only [Format.encode, Trace.ofTrace, written]
  exact ⟨_, rfl⟩

end Wire

end TraceArchive
