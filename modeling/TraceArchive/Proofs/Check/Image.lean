import TraceArchive.Proofs.Attribute.Domain
import TraceArchive.Proofs.Check.Report

/-!
# Accepted spans as images

A span that is accepted has everything that its message has and nothing else:
its parts are those of the message one for one, absent numbers and words are the
usual ones, and the values of its attributes are those that were sent. The main
statement is `checkSpan_eq_ok_iff`.
-/

namespace TraceArchive

/-! ## Attributes -/

namespace AttributeValue

/-- Whether a value can be decoded does not depend on its path. -/
theorem decodeAt_of_decodeAt
    {path other : String} {room : Nat} {wire : Json} {value : AttributeValue}
    (decoded : decodeAt path room wire = .ok value) :
    decodeAt other room wire = .ok value := by
  obtain ⟨rfl, finite⟩ := value_of_decodeAt wire decoded
  exact decodeAt_of_fits wire other (depth_of_decodeAt decoded) finite

theorem decodeAt_deepestLevel_eq_ok_iff
    {path : String} {wire : Json} {value : AttributeValue} :
    decodeAt path deepestLevel wire = .ok value ↔ decode wire = .ok value :=
  ⟨decodeAt_of_decodeAt, decodeAt_of_decodeAt⟩

end AttributeValue

namespace Attributes

/-- Whether an attribute has the key of an entry that was sent and the value
that this entry is decoded to. -/
def EntryImage (sent : String × Json) (kept : String × AttributeValue) : Prop :=
  kept.1 = sent.1 ∧ AttributeValue.decode sent.2 = .ok kept.2

/-- Whether attributes have exactly the keys that were sent, each with the value
that the sent one is decoded to. -/
def Image (sent : KeyMap Json) (kept : Attributes) : Prop :=
  List.Forall₂ EntryImage sent.entries kept.entries

theorem decodeList_eq_iff
    {wires : List (String × Json)} {values : List (String × AttributeValue)} :
    decodeList wires = (values, []) ↔
      List.Forall₂ EntryImage wires values := by
  induction wires generalizing values with
  | nil =>
      rw [List.forall₂_nil_left_iff, decodeList]
      constructor
      · intro same
        cases same
        rfl
      · rintro rfl
        rfl
  | cons entry rest inductionHypothesis =>
      obtain ⟨key, wire⟩ := entry
      rw [List.forall₂_cons_left_iff]
      simp only [decodeList]
      constructor
      · intro isDecoded
        split at isDecoded
        · cases isDecoded
        · rename_i value decoded
          obtain ⟨rfl, noErrors⟩ := Prod.mk.inj isDecoded
          refine ⟨(key, value), _, ⟨rfl, ?_⟩, ?_, rfl⟩
          · exact AttributeValue.decodeAt_deepestLevel_eq_ok_iff.mp decoded
          · exact inductionHypothesis.mp (Prod.ext rfl noErrors)
      · rintro ⟨⟨_, value⟩, others, ⟨rfl, decoded⟩, restDecoded, rfl⟩
        rw [inductionHypothesis.mpr restDecoded,
          AttributeValue.decodeAt_deepestLevel_eq_ok_iff.mpr decoded]

theorem Image.keys_eq
    {sent : List (String × Json)} {kept : List (String × AttributeValue)}
    (image : List.Forall₂ EntryImage sent kept) :
    kept.map Prod.fst = sent.map Prod.fst := by
  induction image with
  | nil => rfl
  | cons first _ inductionHypothesis =>
      rw [List.map_cons, List.map_cons, first.1, inductionHypothesis]

/-- Attributes are decoded to their image, and only to this. -/
theorem decode_eq_ok_iff {sent : KeyMap Json} {kept : Attributes} :
    decode sent = .ok kept ↔ Image sent kept := by
  constructor
  · intro decoded
    unfold decode at decoded
    split at decoded
    · rename_i values isDecoded
      cases decoded
      have image := decodeList_eq_iff.mp isDecoded
      have ascending : Entries.Ascending values :=
        sent.ascending.of_keys (Image.keys_eq image)
      rw [Image, KeyMap.entries_ofList ascending]
      exact image
    · cases decoded
  · intro image
    simp only [decode, decodeList_eq_iff.mpr image, KeyMap.ofList_entries]

theorem errors_of_decode
    {sent : KeyMap Json} {errors : List AttributeError}
    (refused : decode sent = .error errors) : errors ≠ [] := by
  unfold decode at refused
  split at refused
  · cases refused
  · rename_i someErrors _
    cases refused
    exact someErrors

end Attributes

namespace Check

/-! ## Parts -/

theorem properId?_eq_some_iff
    {given : Option Identifier} {identifier : Identifier} :
    properId? given = some identifier ↔
      given = some identifier ∧ identifier.bytes ≠ [] := by
  constructor
  · intro isProper
    have filled := filled_of_properId? isProper
    exact ⟨given_of_properId? isProper, List.isEmpty_eq_false_iff.mp filled⟩
  · rintro ⟨rfl, filled⟩
    exact properId?_of_filled (List.isEmpty_eq_false_iff.mpr filled)

theorem ne_empty_of_isEmpty
    {text : String} (filled : text.isEmpty = false) : text ≠ "" := by
  rintro rfl
  cases filled

theorem properText?_eq_some_iff {given : Option String} {text : String} :
    properText? given = some text ↔ given = some text ∧ text ≠ "" := by
  constructor
  · intro isProper
    have filled := filled_of_properText? isProper
    exact ⟨given_of_properText? isProper, ne_empty_of_isEmpty filled⟩
  · rintro ⟨rfl, filled⟩
    apply properText?_of_filled
    rwa [Bool.eq_false_iff, ne_eq, String.isEmpty_iff]

theorem missingUnless_eq_nil_iff
    {Value : Type} {value : Option Value} {field : String} :
    missingUnless value field = [] ↔ ∃ given, value = some given := by
  constructor
  · exact given_of_missingUnless
  · rintro ⟨given, rfl⟩
    rfl

/-- Attributes are taken over without a violation exactly as their image. -/
theorem attributes_eq_iff
    (path : String) {sent : KeyMap Json} {kept : Attributes} :
    (attributeViolations path sent = [] ∧ attributes sent = kept) ↔
      Attributes.Image sent kept := by
  rw [← Attributes.decode_eq_ok_iff]
  unfold attributeViolations attributes
  cases decoded : Attributes.decode sent with
  | ok accepted => simp
  | error errors =>
      -- Attributes are made empty only where an error is told.
      have someErrors := Attributes.errors_of_decode decoded
      simp [someErrors]

theorem eventViolations_eq_nil_iff {path : String} {sent : Wire.Event} :
    eventViolations path sent = [] ↔
      (∃ name, properText? sent.name = some name) ∧
        attributeViolations path sent.attributes = [] := by
  rw [eventViolations, List.append_eq_nil_iff, missingUnless_eq_nil_iff]

theorem linkViolations_eq_nil_iff {path : String} {sent : Wire.Link} :
    linkViolations path sent = [] ↔
      (∃ traceId, properId? sent.traceId = some traceId) ∧
        (∃ spanId, properId? sent.spanId = some spanId) ∧
          attributeViolations path sent.attributes = [] := by
  rw [linkViolations, List.append_eq_nil_iff, List.append_eq_nil_iff,
    missingUnless_eq_nil_iff, missingUnless_eq_nil_iff, and_assoc]

/-- Nothing is wrong with the fields of a span if nothing is wrong with any. -/
theorem fieldViolations_eq_nil_iff {path : String} {sent : Wire.Span} :
    fieldViolations path sent = [] ↔
      (∃ traceId, properId? sent.traceId = some traceId) ∧
        (∃ spanId, properId? sent.spanId = some spanId) ∧
          (∃ name, properText? sent.name = some name) ∧
            (∃ startTime, sent.startTime = some startTime) ∧
              (∃ endTime, sent.endTime = some endTime) ∧
                attributeViolations path sent.attributes = [] ∧
                  sent.notFinite = [] ∧
                    eventListViolations path 0 sent.events = [] ∧
                      linkListViolations path 0 sent.links = [] := by
  unfold fieldViolations
  simp only [List.append_eq_nil_iff, missingUnless_eq_nil_iff,
    List.map_eq_nil_iff, and_assoc]

/-! ## Images of events and links -/

/-- Whether an event has what its message has. -/
structure EventImage (sent : Wire.Event) (kept : SpanEvent) : Prop where
  time : kept.time = sent.time.getD 0
  name : sent.name = some kept.name
  named : kept.name ≠ ""
  attributes : Attributes.Image sent.attributes kept.attributes
  droppedAttributes : kept.droppedAttributes = sent.droppedAttributes.getD 0

/-- Whether a link has what its message has. -/
structure LinkImage (sent : Wire.Link) (kept : SpanLink) : Prop where
  traceId : sent.traceId = some kept.traceId
  hasTraceId : kept.traceId.bytes ≠ []
  spanId : sent.spanId = some kept.spanId
  hasSpanId : kept.spanId.bytes ≠ []
  traceState : kept.traceState = sent.traceState
  attributes : Attributes.Image sent.attributes kept.attributes
  droppedAttributes : kept.droppedAttributes = sent.droppedAttributes.getD 0
  flags : kept.flags = sent.flags.getD 0

/-- An event is taken over without a violation exactly as its image. -/
theorem event?_eq_some_iff
    {path : String} {sent : Wire.Event} {kept : SpanEvent} :
    (eventViolations path sent = [] ∧ event? sent = some kept) ↔
      EventImage sent kept := by
  rw [eventViolations_eq_nil_iff]
  constructor
  · rintro ⟨⟨⟨name, isName⟩, faultless⟩, isEvent⟩
    simp only [event?, isName] at isEvent
    cases isEvent
    obtain ⟨given, named⟩ := properText?_eq_some_iff.mp isName
    exact
      ⟨rfl, given, named, (attributes_eq_iff path).mp ⟨faultless, rfl⟩, rfl⟩
  · intro image
    have isName := properText?_eq_some_iff.mpr ⟨image.name, image.named⟩
    obtain ⟨faultless, isKept⟩ :=
      (attributes_eq_iff path).mpr image.attributes
    refine ⟨⟨⟨kept.name, isName⟩, faultless⟩, ?_⟩
    simp only [event?, isName, isKept, ← image.time, ← image.droppedAttributes]

/-- A link is taken over without a violation exactly as its image. -/
theorem link?_eq_some_iff
    {path : String} {sent : Wire.Link} {kept : SpanLink} :
    (linkViolations path sent = [] ∧ link? sent = some kept) ↔
      LinkImage sent kept := by
  rw [linkViolations_eq_nil_iff]
  constructor
  · rintro ⟨⟨⟨traceId, isTraceId⟩, ⟨spanId, isSpanId⟩, faultless⟩, isLink⟩
    simp only [link?, isTraceId, isSpanId] at isLink
    cases isLink
    obtain ⟨givenTraceId, hasTraceId⟩ := properId?_eq_some_iff.mp isTraceId
    obtain ⟨givenSpanId, hasSpanId⟩ := properId?_eq_some_iff.mp isSpanId
    exact
      ⟨givenTraceId, hasTraceId, givenSpanId, hasSpanId, rfl,
        (attributes_eq_iff path).mp ⟨faultless, rfl⟩, rfl, rfl⟩
  · intro image
    have isTraceId :=
      properId?_eq_some_iff.mpr ⟨image.traceId, image.hasTraceId⟩
    have isSpanId := properId?_eq_some_iff.mpr ⟨image.spanId, image.hasSpanId⟩
    obtain ⟨faultless, isKept⟩ :=
      (attributes_eq_iff path).mpr image.attributes
    refine
      ⟨⟨⟨kept.traceId, isTraceId⟩, ⟨kept.spanId, isSpanId⟩, faultless⟩, ?_⟩
    simp only [link?, isTraceId, isSpanId, isKept, ← image.traceState,
      ← image.droppedAttributes, ← image.flags]

/-- If no element is accepted but as its image, then neither is a row: nothing
is left out and nothing is moved. -/
theorem filterMap_eq_iff
    {Sent Kept : Type} {report : Nat → Sent → List Violation}
    {accept? : Sent → Option Kept} {Image : Sent → Kept → Prop}
    (each :
      ∀ index sent kept,
        (report index sent = [] ∧ accept? sent = some kept) ↔ Image sent kept)
    (accepts :
      ∀ index sent, report index sent = [] → ∃ kept, accept? sent = some kept)
    (start : Nat) {row : List Sent} {kept : List Kept} :
    (ReportsOnce.inOrder report start row = [] ∧
        row.filterMap accept? = kept) ↔
      List.Forall₂ Image row kept := by
  -- An element that is left out of the row has a violation in the report, so
  -- that the two sides keep step.
  induction row generalizing start kept with
  | nil =>
      rw [List.forall₂_nil_left_iff]
      exact ⟨fun both => both.2.symm, fun isNil => ⟨rfl, isNil.symm⟩⟩
  | cons head rest inductionHypothesis =>
      rw [List.forall₂_cons_left_iff, ReportsOnce.inOrder,
        List.append_eq_nil_iff]
      constructor
      · rintro ⟨⟨faultless, restFaultless⟩, rfl⟩
        obtain ⟨first, isFirst⟩ := accepts start head faultless
        refine
          ⟨first, _, (each start head first).mp ⟨faultless, isFirst⟩,
            (inductionHypothesis (start + 1)).mp ⟨restFaultless, rfl⟩, ?_⟩
        exact List.filterMap_cons_some isFirst
      · rintro ⟨first, others, image, restImage, rfl⟩
        obtain ⟨faultless, isFirst⟩ := (each start head first).mpr image
        obtain ⟨restFaultless, rfl⟩ :=
          (inductionHypothesis (start + 1)).mpr restImage
        exact
          ⟨⟨faultless, restFaultless⟩, List.filterMap_cons_some isFirst⟩

theorem event?_of_faultless
    {path : String} {sent : Wire.Event}
    (faultless : eventViolations path sent = []) :
    ∃ kept, event? sent = some kept := by
  obtain ⟨⟨name, isName⟩, -⟩ := eventViolations_eq_nil_iff.mp faultless
  simp only [event?, isName]
  exact ⟨_, rfl⟩

theorem link?_of_faultless
    {path : String} {sent : Wire.Link}
    (faultless : linkViolations path sent = []) :
    ∃ kept, link? sent = some kept := by
  obtain ⟨⟨traceId, isTraceId⟩, ⟨spanId, isSpanId⟩, -⟩ :=
    linkViolations_eq_nil_iff.mp faultless
  simp only [link?, isTraceId, isSpanId]
  exact ⟨_, rfl⟩

theorem events_eq_iff
    (path : String) {sent : List Wire.Event} {kept : List SpanEvent} :
    (eventListViolations path 0 sent = [] ∧ sent.filterMap event? = kept) ↔
      List.Forall₂ EventImage sent kept := by
  rw [eventListViolations_eq]
  apply filterMap_eq_iff
  · exact fun _ _ _ => event?_eq_some_iff
  · exact fun _ _ => event?_of_faultless

theorem links_eq_iff
    (path : String) {sent : List Wire.Link} {kept : List SpanLink} :
    (linkListViolations path 0 sent = [] ∧ sent.filterMap link? = kept) ↔
      List.Forall₂ LinkImage sent kept := by
  rw [linkListViolations_eq]
  apply filterMap_eq_iff
  · exact fun _ _ _ => link?_eq_some_iff
  · exact fun _ _ => link?_of_faultless

/-! ## Images of spans -/

/-- Whether a span has what its message has: the same identifiers, name, times
and other parts, where absent ones are the usual ones and an empty parent is
none, the same events and links in the same order, and the attributes that were
sent. -/
structure SpanImage (sent : Wire.Span) (kept : Span) : Prop where
  traceId : sent.traceId = some kept.traceId
  spanId : sent.spanId = some kept.spanId
  traceState : kept.traceState = sent.traceState
  parent :
    ∀ parent, kept.parentId = some parent ↔
      sent.parentId = some parent ∧ parent.bytes ≠ []
  name : sent.name = some kept.name
  kind : kept.kind = sent.kind.getD .unspecified
  startTime : sent.startTime = some kept.startTime
  endTime : sent.endTime = some kept.endTime
  attributes : Attributes.Image sent.attributes kept.attributes
  droppedAttributes : kept.droppedAttributes = sent.droppedAttributes.getD 0
  events : List.Forall₂ EventImage sent.events kept.events
  droppedEvents : kept.droppedEvents = sent.droppedEvents.getD 0
  links : List.Forall₂ LinkImage sent.links kept.links
  droppedLinks : kept.droppedLinks = sent.droppedLinks.getD 0
  status :
    kept.status =
      sent.status.map fun given =>
        ⟨given.code.getD .unset, given.message.getD ""⟩
  flags : kept.flags = sent.flags.getD 0

theorem properId?_eq_iff
    {given kept : Option Identifier} :
    properId? given = kept ↔
      ∀ identifier, kept = some identifier ↔
        given = some identifier ∧ identifier.bytes ≠ [] := by
  constructor
  · rintro rfl identifier
    exact properId?_eq_some_iff
  · intro isKept
    refine Option.ext fun identifier => ?_
    rw [properId?_eq_some_iff, isKept]

theorem span?_eq_some_iff
    {path : String} {sent : Wire.Span} {kept : Span} :
    (fieldViolations path sent = [] ∧ span? sent = some kept) ↔
      SpanImage sent kept ∧ sent.notFinite = [] ∧
        kept.traceId.bytes ≠ [] ∧ kept.spanId.bytes ≠ [] ∧ kept.name ≠ "" := by
  rw [fieldViolations_eq_nil_iff]
  constructor
  · rintro ⟨⟨⟨traceId, isTraceId⟩, ⟨spanId, isSpanId⟩, ⟨name, isName⟩,
      ⟨startTime, isStart⟩, ⟨endTime, isEnd⟩, noAttribute, allFinite, noEvent,
      noLink⟩, isSpan⟩
    simp only [span?, isTraceId, isSpanId, isName, isStart, isEnd] at isSpan
    cases isSpan
    obtain ⟨givenTraceId, hasTraceId⟩ := properId?_eq_some_iff.mp isTraceId
    obtain ⟨givenSpanId, hasSpanId⟩ := properId?_eq_some_iff.mp isSpanId
    obtain ⟨givenName, hasName⟩ := properText?_eq_some_iff.mp isName
    refine ⟨?_, allFinite, hasTraceId, hasSpanId, hasName⟩
    exact
      { traceId := givenTraceId
        spanId := givenSpanId
        traceState := rfl
        parent := properId?_eq_iff.mp rfl
        name := givenName
        kind := rfl
        startTime := isStart
        endTime := isEnd
        attributes := (attributes_eq_iff path).mp ⟨noAttribute, rfl⟩
        droppedAttributes := rfl
        events := (events_eq_iff path).mp ⟨noEvent, rfl⟩
        droppedEvents := rfl
        links := (links_eq_iff path).mp ⟨noLink, rfl⟩
        droppedLinks := rfl
        status := rfl
        flags := rfl }
  · rintro ⟨image, allFinite, hasTraceId, hasSpanId, hasName⟩
    have isTraceId := properId?_eq_some_iff.mpr ⟨image.traceId, hasTraceId⟩
    have isSpanId := properId?_eq_some_iff.mpr ⟨image.spanId, hasSpanId⟩
    have isName := properText?_eq_some_iff.mpr ⟨image.name, hasName⟩
    have isParent := properId?_eq_iff.mpr image.parent
    obtain ⟨noAttribute, isAttributes⟩ :=
      (attributes_eq_iff path).mpr image.attributes
    obtain ⟨noEvent, isEvents⟩ :=
      (events_eq_iff path).mpr image.events
    obtain ⟨noLink, isLinks⟩ := (links_eq_iff path).mpr image.links
    refine
      ⟨⟨⟨_, isTraceId⟩, ⟨_, isSpanId⟩, ⟨_, isName⟩, ⟨_, image.startTime⟩,
        ⟨_, image.endTime⟩, noAttribute, allFinite, noEvent, noLink⟩, ?_⟩
    have isStatus : sent.status.map status = kept.status := image.status.symm
    simp only [span?, isTraceId, isSpanId, isName, image.startTime,
      image.endTime, isParent, isAttributes, isEvents, isLinks, isStatus,
      ← image.traceState, ← image.kind, ← image.droppedAttributes,
      ← image.droppedEvents, ← image.droppedLinks, ← image.flags]

theorem checkSpan_eq_ok_iff_faultless
    {path : String} {sent : Wire.Span} {kept : Span} :
    checkSpan path sent = .ok kept ↔
      (fieldViolations path sent = [] ∧ span? sent = some kept) ∧
        spanViolations kept = [] := by
  constructor
  · intro accepted
    have isSpan := span_of_checkSpan accepted
    simp only [checkSpan, isSpan] at accepted
    split at accepted
    · rename_i faultless
      obtain ⟨noField, noSpan⟩ := List.append_eq_nil_iff.mp faultless
      exact ⟨⟨noField, isSpan⟩, noSpan⟩
    · cases accepted
  · rintro ⟨⟨noField, isSpan⟩, noSpan⟩
    simp only [checkSpan, isSpan, noField, noSpan, List.append_nil]

/-- An accepted span has what its message has. -/
theorem image_of_checkSpan
    {path : String} {sent : Wire.Span} {kept : Span}
    (accepted : checkSpan path sent = .ok kept) : SpanImage sent kept := by
  rw [checkSpan_eq_ok_iff_faultless, span?_eq_some_iff] at accepted
  exact accepted.1.1

/-- A span is accepted from a message exactly if it has what the message has,
all numbers of the message are finite and nothing is wrong with the span itself.
It has then a message of its own, too. -/
theorem checkSpan_eq_ok_iff (path : String) (sent : Wire.Span) (kept : Span) :
    checkSpan path sent = .ok kept ↔
      SpanImage sent kept ∧ sent.notFinite = [] ∧ spanViolations kept = [] ∧
        ∃ written, Wire.Span.ofSpan kept = .ok written := by
  constructor
  · intro accepted
    have sound := sound_of_checkSpan accepted
    rw [checkSpan_eq_ok_iff_faultless, span?_eq_some_iff] at accepted
    obtain ⟨⟨image, allFinite, -⟩, checked⟩ := accepted
    exact ⟨image, allFinite, checked, Wire.Span.ofSpan_of_fit sound.fit⟩
  · rintro ⟨image, allFinite, checked, -⟩
    obtain ⟨hasTraceId, hasSpanId, hasName, -⟩ := Span.checked_iff.mp checked
    rw [checkSpan_eq_ok_iff_faultless, span?_eq_some_iff]
    refine ⟨⟨image, allFinite, ?_, ?_, ?_⟩, checked⟩
    · exact List.isEmpty_eq_false_iff.mp hasTraceId
    · exact List.isEmpty_eq_false_iff.mp hasSpanId
    · exact ne_empty_of_isEmpty hasName

/-- An empty parent is none and an event without a time is at zero. -/
example :
    checkSpan "data.spans[0]"
        { traceId := some ⟨[1]⟩
          spanId := some ⟨[2]⟩
          parentId := some ⟨[]⟩
          name := some "root"
          startTime := some 1
          endTime := some 2
          events := [{ name := some "retry" }] } =
      .ok
        { Span.plain ⟨[1]⟩ ⟨[2]⟩ "root" 1 2 with
          events := [SpanEvent.plain "retry" 0] } := by
  rfl

end Check

end TraceArchive
