import TraceArchive.Proofs.Attribute.Exact
import TraceArchive.Proofs.Check.Span
import TraceArchive.Proofs.Wire.Text

/-!
# Proper spans

What the checks of a message see to beyond what they report: the parts of an
accepted span have their names and identifiers, and the keys of its attributes
are in order, if the values of the message could be read. The main statement is
`Check.proper_of_checkSpan`.
-/

namespace TraceArchive

/-- Whether the parts of a span have their names and identifiers. -/
structure Span.Filled (span : Span) : Prop where
  parent : ∀ parent, span.parentId = some parent → parent.isEmpty = false
  events : ∀ event ∈ span.events, event.name.isEmpty = false
  links :
    ∀ link ∈ span.links,
      link.traceId.isEmpty = false ∧ link.spanId.isEmpty = false

/-- What holds beyond soundness of every span that was accepted from a message
that could be read: its parts have their names and identifiers, and the keys of
its attributes are in order. -/
structure Span.Proper (span : Span) : Prop where
  parent : ∀ parent, span.parentId = some parent → parent.isEmpty = false
  events : ∀ event ∈ span.events, event.name.isEmpty = false
  links :
    ∀ link ∈ span.links,
      link.traceId.isEmpty = false ∧ link.spanId.isEmpty = false
  ordered : ∀ attributes ∈ span.attributeMaps, attributes.Ordered

theorem Span.Proper.filled {span : Span} (proper : span.Proper) :
    span.Filled :=
  ⟨proper.parent, proper.events, proper.links⟩

namespace Check

/-! ## Fields -/

theorem filled_of_properId?
    {given : Option Identifier} {identifier : Identifier}
    (isProper : properId? given = some identifier) :
    identifier.isEmpty = false := by
  unfold properId? at isProper
  split at isProper
  · cases isProper
  · split at isProper
    · cases isProper
    · rename_i filled
      cases isProper
      exact Bool.eq_false_iff.mpr filled

theorem given_of_properId?
    {given : Option Identifier} {identifier : Identifier}
    (isProper : properId? given = some identifier) :
    given = some identifier := by
  unfold properId? at isProper
  split at isProper
  · cases isProper
  · split at isProper
    · cases isProper
    · exact isProper

theorem given_of_properText?
    {given : Option String} {text : String}
    (isProper : properText? given = some text) :
    given = some text := by
  unfold properText? at isProper
  split at isProper
  · cases isProper
  · split at isProper
    · cases isProper
    · exact isProper

theorem filled_of_properText?
    {given : Option String} {text : String}
    (isProper : properText? given = some text) :
    text.isEmpty = false := by
  unfold properText? at isProper
  split at isProper
  · cases isProper
  · split at isProper
    · cases isProper
    · rename_i filled
      cases isProper
      exact Bool.eq_false_iff.mpr filled

/-! ## Accepted spans -/

theorem ordered_attributes
    {deep : Nat} {map : KeyMap Json}
    (readable : ∀ entry ∈ map.entries, Json.Readable deep entry.2) :
    (attributes map).Ordered := by
  unfold attributes
  split
  · rename_i decoded isDecoded
    exact Attributes.ordered_of_decode readable isDecoded
  · exact List.forall_mem_nil _

theorem proper_of_event?
    {message : Wire.Event} {event : SpanEvent}
    (accepted : event? message = some event) :
    event.name.isEmpty = false ∧
      event.attributes = attributes message.attributes := by
  unfold event? at accepted
  split at accepted
  · cases accepted
  · rename_i name isName
    cases accepted
    exact ⟨filled_of_properText? isName, rfl⟩

theorem proper_of_link?
    {message : Wire.Link} {link : SpanLink}
    (accepted : link? message = some link) :
    (link.traceId.isEmpty = false ∧ link.spanId.isEmpty = false) ∧
      link.attributes = attributes message.attributes := by
  unfold link? at accepted
  split at accepted
  · rename_i traceId spanId isTraceId isSpanId
    cases accepted
    exact
      ⟨⟨filled_of_properId? isTraceId, filled_of_properId? isSpanId⟩, rfl⟩
  · cases accepted

/-- The required parts of a message that has a span are those of the span. -/
theorem required_of_span?
    {message : Wire.Span} {span : Span}
    (isSpan : span? message = some span) :
    properId? message.traceId = some span.traceId ∧
      properId? message.spanId = some span.spanId ∧
        properText? message.name = some span.name ∧
          message.startTime = some span.startTime ∧
            message.endTime = some span.endTime := by
  unfold span? at isSpan
  split at isSpan
  · rename_i isTraceId isSpanId isName isStart isEnd
    cases isSpan
    exact ⟨isTraceId, isSpanId, isName, isStart, isEnd⟩
  · cases isSpan

/-- The parts of a span that is accepted have their names and identifiers. -/
theorem filled_of_span?
    {message : Wire.Span} {span : Span}
    (accepted : span? message = some span) :
    span.Filled := by
  unfold span? at accepted
  split at accepted
  · cases accepted
    refine ⟨?_, ?_, ?_⟩
    · exact fun parent isParent => filled_of_properId? isParent
    · intro event member
      obtain ⟨_, _, isEvent⟩ := List.mem_filterMap.mp member
      exact (proper_of_event? isEvent).1
    · intro link member
      obtain ⟨_, _, isLink⟩ := List.mem_filterMap.mp member
      exact (proper_of_link? isLink).1
  · cases accepted

theorem ordered_of_span?
    {deep : Nat} {message : Wire.Span} {span : Span}
    (accepted : span? message = some span)
    (readable :
      ∀ map ∈ message.attributeMaps, ∀ entry ∈ map.entries,
        Json.Readable deep entry.2) :
    ∀ attributes ∈ span.attributeMaps, attributes.Ordered := by
  unfold span? at accepted
  split at accepted
  · cases accepted
    intro map member
    simp only [Span.attributeMaps, List.mem_cons, List.mem_append,
      List.mem_map, List.mem_filterMap] at member
    rcases member with
      rfl | ⟨event, ⟨sent, inMessage, isEvent⟩, rfl⟩ |
        ⟨link, ⟨sent, inMessage, isLink⟩, rfl⟩
    · exact ordered_attributes (readable _ List.mem_cons_self)
    · rw [(proper_of_event? isEvent).2]
      apply ordered_attributes
      exact readable _ (Wire.Span.attributes_mem_of_event inMessage)
    · rw [(proper_of_link? isLink).2]
      apply ordered_attributes
      exact readable _ (Wire.Span.attributes_mem_of_link inMessage)
  · cases accepted

/-- A span that is accepted from a message with readable values is proper. -/
theorem proper_of_span?
    {deep : Nat} {message : Wire.Span} {span : Span}
    (accepted : span? message = some span)
    (readable :
      ∀ map ∈ message.attributeMaps, ∀ entry ∈ map.entries,
        Json.Readable deep entry.2) :
    span.Proper := by
  have filled := filled_of_span? accepted
  exact
    ⟨filled.parent, filled.events, filled.links,
      ordered_of_span? accepted readable⟩

theorem span_of_checkSpan
    {path : String} {message : Wire.Span} {span : Span}
    (accepted : checkSpan path message = .ok span) :
    span? message = some span := by
  unfold checkSpan at accepted
  split at accepted
  · cases accepted
  · rename_i checked isSpan
    split at accepted
    · cases accepted
      exact isSpan
    · cases accepted

theorem filled_of_checkSpan
    {path : String} {message : Wire.Span} {span : Span}
    (accepted : checkSpan path message = .ok span) : span.Filled :=
  filled_of_span? (span_of_checkSpan accepted)

theorem proper_of_checkSpan
    {path : String} {deep : Nat} {message : Wire.Span} {span : Span}
    (accepted : checkSpan path message = .ok span)
    (readable :
      ∀ map ∈ message.attributeMaps, ∀ entry ∈ map.entries,
        Json.Readable deep entry.2) :
    span.Proper :=
  proper_of_span? (span_of_checkSpan accepted) readable

end Check

end TraceArchive
