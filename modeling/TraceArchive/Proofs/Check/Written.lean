import TraceArchive.Proofs.Check.Location
import TraceArchive.Proofs.Identifier
import TraceArchive.Proofs.Wire.Message
import TraceArchive.Service.Submission

/-!
# Checking what was written

The message about a span whose parts have their names and identifiers is
accepted at every path as the same span, where both zeros count as one number,
and the message about what is known of a trace as a whole as exactly that. The
main statements are `Check.checkSpan_ofSpan` and `Check.checkInfo_ofInfo`.
-/

namespace TraceArchive

/-! ## Spans that differ in signs of zeros -/

/-- Whether two events differ in nothing but signs of zeros. -/
structure SpanEvent.Same (left right : SpanEvent) : Prop where
  others : left = { right with attributes := left.attributes }
  attributes : left.attributes.same right.attributes = true

/-- Whether two links differ in nothing but signs of zeros. -/
structure SpanLink.Same (left right : SpanLink) : Prop where
  others : left = { right with attributes := left.attributes }
  attributes : left.attributes.same right.attributes = true

/-- Whether two spans differ in nothing but signs of zeros. -/
structure Span.Same (left right : Span) : Prop where
  others :
    left =
      { right with
        attributes := left.attributes
        events := left.events
        links := left.links }
  attributes : left.attributes.same right.attributes = true
  events : List.Forall₂ SpanEvent.Same left.events right.events
  links : List.Forall₂ SpanLink.Same left.links right.links

namespace Span

variable {span : Span}

/-- What the check of a single span wants of it. -/
theorem checked_iff :
    Check.spanViolations span = [] ↔
      span.traceId.isEmpty = false ∧ span.spanId.isEmpty = false ∧
        span.name.isEmpty = false ∧ ¬span.endTime < span.startTime := by
  have nothingUnless : ∀ {condition : Prop} [Decidable condition]
      (violation : Violation),
      (if condition then [violation] else []) = [] ↔ ¬condition := by
    intro condition _ violation
    split
    · rename_i holds
      simp [holds]
    · rename_i fails
      simp [fails]
  unfold Check.spanViolations
  simp only [List.append_eq_nil_iff, nothingUnless, Bool.not_eq_true, and_assoc]

end Span

namespace Check

/-! ## Fields -/

theorem properId?_of_filled
    {identifier : Identifier} (filled : identifier.isEmpty = false) :
    properId? (some identifier) = some identifier := by
  simp only [properId?, filled, Bool.false_eq_true, if_false]

theorem properText?_of_filled
    {text : String} (filled : text.isEmpty = false) :
    properText? (some text) = some text := by
  simp only [properText?, filled, Bool.false_eq_true, if_false]

@[simp]
theorem getD_nonZero? (count : UInt32) :
    (Wire.nonZero? count).getD 0 = count := by
  unfold Wire.nonZero?
  split
  · rename_i isZero
    exact isZero.symm
  · rfl

theorem status_ofStatus (kept : SpanStatus) :
    status (Wire.Status.ofStatus kept) = kept := by
  obtain ⟨code, message⟩ := kept
  unfold Wire.Status.ofStatus status
  dsimp only
  split
  · rename_i isEmpty
    rw [String.isEmpty_iff.mp isEmpty]
    rfl
  · rfl

/-- An absent parent is written as an empty one and read as absent. -/
theorem properId?_parent
    {parentId : Option Identifier}
    (proper : ∀ parent, parentId = some parent → parent.isEmpty = false) :
    properId? (some (parentId.getD ⟨[]⟩)) = parentId := by
  cases parentId with
  | none => rfl
  | some parent => exact properId?_of_filled (proper parent rfl)

/-- Attributes that were encoded are taken over and give no violation. -/
theorem attributes_of_encode
    {kept : Attributes} {map : KeyMap Json} (encoded : kept.encode = .ok map) :
    (attributes map).same kept = true ∧
      ∀ path, attributeViolations path map = [] := by
  obtain ⟨decoded, isDecoded, same⟩ := Attributes.decode_of_encode encoded
  refine ⟨?_, fun path => ?_⟩
  · simp only [attributes, isDecoded, same]
  · simp only [attributeViolations, isDecoded]

/-! ## Events and links -/

theorem event?_ofEvent
    {kept : SpanEvent} {message : Wire.Event}
    (written : Wire.Event.ofEvent kept = .ok message)
    (named : kept.name.isEmpty = false) :
    (∃ event, event? message = some event ∧ event.Same kept) ∧
      ∀ path, eventViolations path message = [] := by
  unfold Wire.Event.ofEvent at written
  split at written
  · cases written
  · rename_i map encoded
    cases written
    obtain ⟨same, faultless⟩ := attributes_of_encode encoded
    have hasName := properText?_of_filled named
    refine ⟨⟨_, by simp only [event?, hasName]; rfl, ?_, same⟩, fun path => ?_⟩
    · simp only [Option.getD_some, getD_nonZero?]
    · simp only [eventViolations, hasName, missingUnless, faultless,
        List.append_nil]

theorem link?_ofLink
    {kept : SpanLink} {message : Wire.Link}
    (written : Wire.Link.ofLink kept = .ok message)
    (identified :
      kept.traceId.isEmpty = false ∧ kept.spanId.isEmpty = false) :
    (∃ link, link? message = some link ∧ link.Same kept) ∧
      ∀ path, linkViolations path message = [] := by
  unfold Wire.Link.ofLink at written
  split at written
  · cases written
  · rename_i map encoded
    cases written
    obtain ⟨same, faultless⟩ := attributes_of_encode encoded
    have hasTraceId := properId?_of_filled identified.1
    have hasSpanId := properId?_of_filled identified.2
    refine ⟨⟨_, by simp only [link?, hasTraceId, hasSpanId]; rfl, ?_, same⟩,
      fun path => ?_⟩
    · simp only [getD_nonZero?]
    · simp only [linkViolations, hasTraceId, hasSpanId, missingUnless,
        faultless, List.append_nil]

theorem events_of_written
    {kept : List SpanEvent} {messages : List Wire.Event}
    (written :
      List.Forall₂ (fun message event => Wire.Event.ofEvent event = .ok message)
        messages kept)
    (named : ∀ event ∈ kept, event.name.isEmpty = false) :
    List.Forall₂ SpanEvent.Same (messages.filterMap event?) kept ∧
      ∀ path index, eventListViolations path index messages = [] := by
  induction written with
  | nil => exact ⟨.nil, fun _ _ => rfl⟩
  | cons writtenFirst _ inductionHypothesis =>
      rw [List.forall_mem_cons] at named
      obtain ⟨⟨event, isRead, same⟩, faultless⟩ :=
        event?_ofEvent writtenFirst named.1
      obtain ⟨sameRest, faultlessRest⟩ := inductionHypothesis named.2
      refine ⟨?_, fun path index => ?_⟩
      · rw [List.filterMap_cons_some isRead]
        exact .cons same sameRest
      · rw [eventListViolations, faultless, faultlessRest, List.append_nil]

theorem links_of_written
    {kept : List SpanLink} {messages : List Wire.Link}
    (written :
      List.Forall₂ (fun message link => Wire.Link.ofLink link = .ok message)
        messages kept)
    (identified :
      ∀ link ∈ kept,
        link.traceId.isEmpty = false ∧ link.spanId.isEmpty = false) :
    List.Forall₂ SpanLink.Same (messages.filterMap link?) kept ∧
      ∀ path index, linkListViolations path index messages = [] := by
  induction written with
  | nil => exact ⟨.nil, fun _ _ => rfl⟩
  | cons writtenFirst _ inductionHypothesis =>
      rw [List.forall_mem_cons] at identified
      obtain ⟨⟨link, isRead, same⟩, faultless⟩ :=
        link?_ofLink writtenFirst identified.1
      obtain ⟨sameRest, faultlessRest⟩ := inductionHypothesis identified.2
      refine ⟨?_, fun path index => ?_⟩
      · rw [List.filterMap_cons_some isRead]
        exact .cons same sameRest
      · rw [linkListViolations, faultless, faultlessRest, List.append_nil]

/-! ## Spans -/

theorem checkSpan_of_faultless
    {path : String} {message : Wire.Span} {span : Span}
    (isSpan : span? message = some span)
    (fields : fieldViolations path message = [])
    (checked : spanViolations span = []) :
    checkSpan path message = .ok span := by
  simp only [checkSpan, isSpan, fields, checked, List.append_nil]

/-- The message about a span is accepted at every path as the same span. -/
theorem checkSpan_ofSpan
    {kept : Span} {message : Wire.Span}
    (written : Wire.Span.ofSpan kept = .ok message)
    (checked : spanViolations kept = []) (filled : kept.Filled) :
    ∃ span, span.Same kept ∧ ∀ path, checkSpan path message = .ok span := by
  obtain ⟨hasTraceId, hasSpanId, hasName, _⟩ := Span.checked_iff.mp checked
  have traceId := properId?_of_filled hasTraceId
  have spanId := properId?_of_filled hasSpanId
  have name := properText?_of_filled hasName
  have parent := properId?_parent filled.parent
  have statusKept :
      (kept.status.map Wire.Status.ofStatus).map status = kept.status := by
    cases kept.status with
    | none => rfl
    | some given => exact congrArg some (status_ofStatus given)
  obtain ⟨map, events, links, encoded, writtenEvents, writtenLinks, rfl⟩ :=
    Wire.Span.parts_of_ofSpan written
  obtain ⟨sameAttributes, faultless⟩ := attributes_of_encode encoded
  obtain ⟨sameEvents, faultlessEvents⟩ :=
    events_of_written (Wire.Event.forall₂_of_ofEvents writtenEvents)
      filled.events
  obtain ⟨sameLinks, faultlessLinks⟩ :=
    links_of_written (Wire.Link.forall₂_of_ofLinks writtenLinks) filled.links
  let span : Span :=
    { kept with
      attributes := attributes map
      events := events.filterMap event?
      links := links.filterMap link? }
  have same : span.Same kept :=
    ⟨rfl, sameAttributes, sameEvents, sameLinks⟩
  have spanChecked : spanViolations span = [] := checked
  refine ⟨span, same, fun path => checkSpan_of_faultless ?_ ?_ spanChecked⟩
  · simp only [span?, Wire.Span.assemble, traceId, spanId, name, parent,
      statusKept, Option.getD_some, getD_nonZero?]
    rfl
  · simp only [fieldViolations, Wire.Span.assemble, traceId, spanId, name,
      missingUnless, faultless, faultlessEvents, faultlessLinks, List.map_nil,
      List.append_nil]

/-- The messages about spans are accepted, in their order, as the same
spans. -/
theorem checkSpans_ofSpans
    {kept : List Span} {messages : List Wire.Span}
    (written : Wire.Span.ofSpans kept = .ok messages)
    (checked : ∀ span ∈ kept, spanViolations span = [])
    (filled : ∀ span ∈ kept, span.Filled) :
    List.Forall₂
      (fun message original =>
        ∃ span, span.Same original ∧
          ∀ path, checkSpan path message = .ok span)
      messages kept := by
  have writtenEach := Wire.Span.forall₂_of_ofSpans written
  clear written
  induction writtenEach with
  | nil => exact .nil
  | cons writtenFirst _ inductionHypothesis =>
      rw [List.forall_mem_cons] at checked filled
      have readFirst := checkSpan_ofSpan writtenFirst checked.1 filled.1
      have readRest := inductionHypothesis checked.2 filled.2
      exact .cons readFirst readRest

/-! ## What is known of a trace -/

theorem nonBlank?_of_isKey {key : String} (isKey : IsKey key) :
    nonBlank? (some key) = some key := by
  have plain := Identifier.trimmed_of_isKey isKey
  have filled : key.isEmpty = false := by
    rw [Bool.eq_false_iff, ne_eq, String.isEmpty_iff]
    exact isKey.filled
  simp only [nonBlank?, plain, filled, Bool.false_eq_true, if_false]

theorem texts_mapValues (map : KeyMap String) :
    texts (map.mapValues .string) = map := by
  have isText : ∀ entries : List (String × String),
      (entries.map fun entry => (entry.1, Json.string entry.2)).filterMap
        textEntry? = entries := by
    intro entries
    induction entries with
    | nil => rfl
    | cons entry rest inductionHypothesis =>
        have isFirst :
            textEntry? (entry.1, Json.string entry.2) = some entry := rfl
        rw [List.map_cons, List.filterMap_cons_some isFirst,
          inductionHypothesis]
  unfold texts KeyMap.mapValues
  rw [isText, KeyMap.ofList_entries]

theorem textViolations_mapValues (field : String) (map : KeyMap String) :
    textViolations field (map.mapValues .string) = [] := by
  unfold textViolations KeyMap.mapValues
  rw [List.filterMap_map, List.filterMap_eq_nil_iff]
  intro entry _
  rfl

theorem assessments_objects (kept : List Assessment) :
    assessments (kept.map .object) = kept := by
  induction kept with
  | nil => rfl
  | cons assessment rest inductionHypothesis =>
      rw [List.map_cons, assessments, inductionHypothesis]

theorem assessmentViolations_objects (index : Nat) (kept : List Assessment) :
    assessmentViolations index (kept.map .object) = [] := by
  induction kept generalizing index with
  | nil => rfl
  | cons assessment rest inductionHypothesis =>
      rw [List.map_cons, assessmentViolations, inductionHypothesis]

/-- The message about what is known of a trace is accepted as exactly that. -/
theorem checkInfo_ofInfo
    {kept : TraceInfo} (isKey : IsKey kept.traceId)
    (canonical : Canonical kept.location) :
    ∃ draft, checkInfo (Wire.TraceInfo.ofInfo kept) = .ok draft ∧
      draft.traceId = some kept.traceId ∧
        draft.toInfo kept.traceId = kept := by
  have given :
      givenTraceId? (Wire.TraceInfo.ofInfo kept) = some kept.traceId :=
    nonBlank?_of_isKey isKey
  have key := Identifier.keyOf?_of_isKey isKey
  have located :
      checkLocation (Wire.TraceInfo.ofInfo kept).location =
        .ok kept.location :=
    canonical
  let draft : InfoDraft :=
    { traceId := some kept.traceId
      clientRequestId := kept.clientRequestId
      location := kept.location
      request := kept.request
      response := kept.response
      requestTime := kept.requestTime
      executionDuration := kept.executionDuration
      state := kept.state
      metadata := kept.metadata
      assessments := kept.assessments
      tags := kept.tags }
  have faultless : infoViolations (Wire.TraceInfo.ofInfo kept) = [] := by
    simp only [infoViolations, locationViolations, located,
      requestTimeViolations, traceIdViolations, given, key]
    simp only [Wire.TraceInfo.ofInfo, textViolations_mapValues,
      assessmentViolations_objects, List.append_nil]
  have isDraft : draft? (Wire.TraceInfo.ofInfo kept) = some draft := by
    have isTraceKey :
        traceKey? (Wire.TraceInfo.ofInfo kept) = some kept.traceId := by
      rw [traceKey?, given, Option.bind_some, key]
    simp only [draft?, located, isTraceKey]
    simp only [Wire.TraceInfo.ofInfo, texts_mapValues, assessments_objects,
      Option.getD_some]
    rfl
  refine ⟨draft, ?_, rfl, rfl⟩
  simp only [checkInfo, faultless, isDraft]

end Check

end TraceArchive
