import TraceArchive.Proofs.Check.Proper

/-!
# Messages about stored traces

The message about a list has one message for each item, in the same order. The
message about a proper span is legible, and so is the message about what is
known of a trace if its assessments can be read.
-/

namespace TraceArchive

/-! ## Messages about lists -/

/-- Each item of a list comes from one of the list that it is related to. -/
theorem exists_of_forall₂
    {Left Right : Type} {Related : Left → Right → Prop} {lefts : List Left}
    {rights : List Right} (related : List.Forall₂ Related lefts rights)
    {left : Left} (member : left ∈ lefts) :
    ∃ right ∈ rights, Related left right := by
  induction related with
  | nil => exact absurd member List.not_mem_nil
  | cons isFirst _ inductionHypothesis =>
      rcases List.mem_cons.mp member with rfl | inRest
      · exact ⟨_, List.mem_cons_self, isFirst⟩
      · obtain ⟨right, inRights, isRelated⟩ := inductionHypothesis inRest
        exact ⟨right, List.mem_cons_of_mem _ inRights, isRelated⟩

/-- If each two partners of two lists have an item between them, there is a list
between the two. -/
theorem exists_between_of_forall₂
    {Left Middle Right : Type} {First : Left → Middle → Prop}
    {Second : Middle → Right → Prop} {lefts : List Left} {rights : List Right}
    (related :
      List.Forall₂
        (fun left right => ∃ middle, Second middle right ∧ First left middle)
        lefts rights) :
    ∃ middles, List.Forall₂ First lefts middles ∧
      List.Forall₂ Second middles rights := by
  induction related with
  | nil => exact ⟨[], .nil, .nil⟩
  | cons isFirst _ inductionHypothesis =>
      obtain ⟨middle, toRight, toMiddle⟩ := isFirst
      obtain ⟨middles, toMiddles, toRights⟩ := inductionHypothesis
      exact
        ⟨middle :: middles, .cons toMiddle toMiddles, .cons toRight toRights⟩

namespace Wire

theorem Event.forall₂_of_ofEvents
    {events : List SpanEvent} {messages : List Event}
    (written : Event.ofEvents events = .ok messages) :
    List.Forall₂ (fun message event => Event.ofEvent event = .ok message)
      messages events := by
  induction events generalizing messages with
  | nil =>
      cases written
      exact .nil
  | cons event rest inductionHypothesis =>
      simp only [Event.ofEvents] at written
      split at written
      · cases written
      · rename_i message writtenFirst
        split at written
        · cases written
        · rename_i others writtenRest
          cases written
          exact .cons writtenFirst (inductionHypothesis writtenRest)

theorem Link.forall₂_of_ofLinks
    {links : List SpanLink} {messages : List Link}
    (written : Link.ofLinks links = .ok messages) :
    List.Forall₂ (fun message link => Link.ofLink link = .ok message)
      messages links := by
  induction links generalizing messages with
  | nil =>
      cases written
      exact .nil
  | cons link rest inductionHypothesis =>
      simp only [Link.ofLinks] at written
      split at written
      · cases written
      · rename_i message writtenFirst
        split at written
        · cases written
        · rename_i others writtenRest
          cases written
          exact .cons writtenFirst (inductionHypothesis writtenRest)

theorem Span.forall₂_of_ofSpans
    {spans : List TraceArchive.Span} {messages : List Span}
    (written : Span.ofSpans spans = .ok messages) :
    List.Forall₂ (fun message span => Span.ofSpan span = .ok message)
      messages spans := by
  induction spans generalizing messages with
  | nil =>
      cases written
      exact .nil
  | cons span rest inductionHypothesis =>
      simp only [Span.ofSpans] at written
      split at written
      · cases written
      · rename_i message writtenFirst
        split at written
        · cases written
        · rename_i others writtenRest
          cases written
          exact .cons writtenFirst (inductionHypothesis writtenRest)

/-! ## Parts of messages -/

/-- The message about a span, from those about its attributes, its events and its
links. -/
def Span.assemble (span : TraceArchive.Span) (attributes : KeyMap Json)
    (events : List Event) (links : List Link) : Span where
  traceId := some span.traceId
  spanId := some span.spanId
  traceState := span.traceState
  parentId := some (span.parentId.getD ⟨[]⟩)
  flags := nonZero? span.flags
  name := some span.name
  kind := some span.kind
  startTime := some span.startTime
  endTime := some span.endTime
  attributes := attributes
  droppedAttributes := nonZero? span.droppedAttributes
  events := events
  droppedEvents := nonZero? span.droppedEvents
  links := links
  droppedLinks := nonZero? span.droppedLinks
  status := span.status.map Status.ofStatus

theorem Span.parts_of_ofSpan
    {span : TraceArchive.Span} {message : Span}
    (written : Span.ofSpan span = .ok message) :
    ∃ attributes events links, span.attributes.encode = .ok attributes ∧
      Event.ofEvents span.events = .ok events ∧
        Link.ofLinks span.links = .ok links ∧
          message = Span.assemble span attributes events links := by
  unfold Span.ofSpan at written
  split at written
  · cases written
  · rename_i attributes encoded
    split at written
    · cases written
    · rename_i events writtenEvents
      split at written
      · cases written
      · rename_i links writtenLinks
        cases written
        exact
          ⟨attributes, events, links, encoded, writtenEvents, writtenLinks, rfl⟩

theorem Event.encode_of_ofEvent
    {kept : SpanEvent} {message : Event}
    (written : Event.ofEvent kept = .ok message) :
    kept.attributes.encode = .ok message.attributes := by
  unfold Event.ofEvent at written
  split at written
  · cases written
  · rename_i map encoded
    cases written
    exact encoded

theorem Link.encode_of_ofLink
    {kept : SpanLink} {message : Link}
    (written : Link.ofLink kept = .ok message) :
    kept.attributes.encode = .ok message.attributes := by
  unfold Link.ofLink at written
  split at written
  · cases written
  · rename_i map encoded
    cases written
    exact encoded

/-- All attributes in the message about a span are the wire forms of some of the
span. -/
theorem Span.encode_of_mem_attributeMaps
    {kept : TraceArchive.Span} {message : Span}
    (written : Span.ofSpan kept = .ok message) {map : KeyMap Json}
    (member : map ∈ message.attributeMaps) :
    ∃ attributes ∈ kept.attributeMaps, attributes.encode = .ok map := by
  obtain ⟨attributes, events, links, encoded, writtenEvents, writtenLinks,
    rfl⟩ := Span.parts_of_ofSpan written
  simp only [Span.attributeMaps, Span.assemble, List.mem_cons, List.mem_append,
    List.mem_map] at member
  rcases member with rfl | ⟨event, inEvents, rfl⟩ | ⟨link, inLinks, rfl⟩
  · exact ⟨_, List.mem_cons_self, encoded⟩
  · obtain ⟨original, isOriginal, writtenEvent⟩ :=
      exists_of_forall₂ (Event.forall₂_of_ofEvents writtenEvents) inEvents
    exact
      ⟨original.attributes,
        TraceArchive.Span.attributes_mem_of_event isOriginal,
        Event.encode_of_ofEvent writtenEvent⟩
  · obtain ⟨original, isOriginal, writtenLink⟩ :=
      exists_of_forall₂ (Link.forall₂_of_ofLinks writtenLinks) inLinks
    exact
      ⟨original.attributes,
        TraceArchive.Span.attributes_mem_of_link isOriginal,
        Link.encode_of_ofLink writtenLink⟩

theorem Span.complete_of_ofSpan
    {kept : TraceArchive.Span} {message : Span}
    (written : Span.ofSpan kept = .ok message) : message.notFinite = [] := by
  obtain ⟨_, _, _, _, _, _, rfl⟩ := Span.parts_of_ofSpan written
  rfl

/-! ## Messages that can be read -/

/-- The message about a span is legible if its keys are in order. -/
theorem Span.legible_of_ofSpan
    {kept : TraceArchive.Span} {message : Span}
    (written : Span.ofSpan kept = .ok message) (proper : kept.Proper) :
    message.Legible deepestLevel where
  complete := Span.complete_of_ofSpan written
  readable map member := by
    obtain ⟨attributes, isKept, encoded⟩ :=
      Span.encode_of_mem_attributeMaps written member
    exact Attributes.readable_of_encode encoded
      (proper.ordered attributes isKept)

theorem Span.legible_of_ofSpans
    {kept : List TraceArchive.Span} {messages : List Span}
    (written : Span.ofSpans kept = .ok messages)
    (proper : ∀ span ∈ kept, span.Proper) :
    ∀ message ∈ messages, message.Legible deepestLevel := by
  intro message member
  obtain ⟨original, isOriginal, writtenSpan⟩ :=
    exists_of_forall₂ (Span.forall₂_of_ofSpans written) member
  exact Span.legible_of_ofSpan writtenSpan (proper original isOriginal)

theorem Span.Legible.mono
    {room more : Nat} (atMost : room ≤ more) {span : Span}
    (legible : span.Legible room) : span.Legible more where
  complete := legible.complete
  readable map isMap entry member :=
    Json.Readable.mono entry.2 atMost (legible.readable map isMap entry member)

theorem readable_mapValues
    (room : Nat) (map : KeyMap String) :
    ∀ entry ∈ (map.mapValues Json.string).entries,
      Json.Readable room entry.2 := by
  intro entry member
  obtain ⟨original, _, rfl⟩ := List.mem_map.mp member
  trivial

/-- The message about what is known of a trace is legible if its assessments can
be read. -/
theorem TraceInfo.legible_ofInfo
    {room : Nat} {kept : TraceArchive.TraceInfo}
    (readable :
      ∀ assessment ∈ kept.assessments,
        Json.Readable room (.object assessment)) :
    (TraceInfo.ofInfo kept).Legible room where
  metadata := readable_mapValues room kept.metadata
  assessments assessment member := by
    obtain ⟨entries, isAssessment, rfl⟩ := List.mem_map.mp member
    exact readable entries isAssessment
  tags := readable_mapValues room kept.tags

end Wire

end TraceArchive
