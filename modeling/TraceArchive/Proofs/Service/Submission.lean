import TraceArchive.Proofs.Check.Info
import TraceArchive.Proofs.Check.Location
import TraceArchive.Proofs.Check.Span
import TraceArchive.Proofs.Check.Tree
import TraceArchive.Proofs.Identifier
import TraceArchive.Service.Submission

/-!
# What a submission leads to

The spans of a submission are sound, its trace has a proper key, and the tree of
what is stored was checked, unless a stored trace keeps its spans.
-/

namespace TraceArchive

/-! ## Fewer attributes -/

namespace AttributePolicy

/-- What a policy leaves of one span. -/
def cut : AttributePolicy → Span → Span
  | .trustClient, span => span
  | .enforce maximum, span => cutSpan maximum span

theorem apply_eq_map (policy : AttributePolicy) (spans : List Span) :
    policy.apply spans = spans.map policy.cut := by
  cases policy with
  | trustClient => exact (List.map_id spans).symm
  | enforce maximum => rfl

variable {policy : AttributePolicy} {span : Span}

@[simp]
theorem traceId_cut : (policy.cut span).traceId = span.traceId := by
  cases policy <;> rfl

@[simp]
theorem spanId_cut : (policy.cut span).spanId = span.spanId := by
  cases policy <;> rfl

@[simp]
theorem parentId_cut : (policy.cut span).parentId = span.parentId := by
  cases policy <;> rfl

/-! ### The first attributes -/

theorem addSaturated_zero (count : UInt32) : addSaturated count 0 = count := by
  have isBelow : count.toNat < UInt32.size := count.toNat_lt
  have notSaturated : min (count.toNat + 0) (UInt32.size - 1) = count.toNat := by
    omega
  rw [addSaturated, notSaturated, UInt32.ofNat_toNat]

/-- What is cut off at a key is all from a position on. -/
theorem truncate_eq
    (maximum : Nat) (attributes : Attributes) (dropped : UInt32) :
    truncate maximum attributes dropped =
      (attributes.take maximum,
        addSaturated dropped (attributes.size - maximum)) := by
  unfold truncate
  cases isKey : attributes.keys[maximum]? with
  | none =>
      have few : attributes.size ≤ maximum := by
        rw [KeyMap.keys, List.getElem?_eq_none_iff, List.length_map] at isKey
        exact isKey
      rw [KeyMap.take_of_size_le few, Nat.sub_eq_zero_of_le few,
        addSaturated_zero]
  | some firstRemoved =>
      obtain ⟨kept, removed⟩ := KeyMap.splitAt_of_key isKey
      simp only [kept, removed]

theorem truncate_of_few
    {maximum : Nat} {attributes : Attributes}
    (few : attributes.size ≤ maximum) (dropped : UInt32) :
    truncate maximum attributes dropped = (attributes, dropped) := by
  rw [truncate_eq, KeyMap.take_of_size_le few, Nat.sub_eq_zero_of_le few,
    addSaturated_zero]

theorem attributeMaps_cutSpan (maximum : Nat) (span : Span) :
    (cutSpan maximum span).attributeMaps =
      span.attributeMaps.map (fun attributes => attributes.take maximum) := by
  simp [Span.attributeMaps, cutSpan, cutEvent, cutLink, truncate_eq,
    Function.comp_def]

theorem sound_cut (sound : span.Sound) : (policy.cut span).Sound := by
  cases policy with
  | trustClient => exact sound
  | enforce maximum =>
      refine ⟨sound.checked, ?_⟩
      intro attributes member
      rw [cut, attributeMaps_cutSpan] at member
      obtain ⟨whole, isWhole, rfl⟩ := List.mem_map.mp member
      exact (sound.fit whole isWhole).take maximum

theorem size_cut
    {maximum : Nat} {attributes : Attributes}
    (member :
      attributes ∈ ((AttributePolicy.enforce maximum).cut span).attributeMaps) :
    attributes.size ≤ maximum := by
  rw [cut, attributeMaps_cutSpan] at member
  obtain ⟨whole, _, rfl⟩ := List.mem_map.mp member
  exact KeyMap.size_take_le whole maximum

theorem keepsPlaces_cut : Check.KeepsPlaces policy.cut where
  traceId _ := traceId_cut
  spanId _ := spanId_cut
  parentId _ := parentId_cut
  name _ := by cases policy <;> rfl

/-! ### Few attributes -/

section Few

variable {maximum : Nat}

theorem cutEvent_of_few
    {event : SpanEvent} (few : event.attributes.size ≤ maximum) :
    cutEvent maximum event = event := by
  rw [cutEvent, truncate_of_few few]

theorem cutLink_of_few
    {link : SpanLink} (few : link.attributes.size ≤ maximum) :
    cutLink maximum link = link := by
  rw [cutLink, truncate_of_few few]

theorem cutSpan_of_few
    (few : ∀ attributes ∈ span.attributeMaps, attributes.size ≤ maximum) :
    cutSpan maximum span = span := by
  have ofSpan := few _ List.mem_cons_self
  have ofEvents : span.events.map (cutEvent maximum) = span.events :=
    (List.map_congr_left fun event member =>
      cutEvent_of_few (few _ (Span.attributes_mem_of_event member))).trans
        (List.map_id span.events)
  have ofLinks : span.links.map (cutLink maximum) = span.links :=
    (List.map_congr_left fun link member =>
      cutLink_of_few (few _ (Span.attributes_mem_of_link member))).trans
        (List.map_id span.links)
  rw [cutSpan, ofEvents, ofLinks, truncate_of_few ofSpan]

end Few

/-- Whether a policy has nothing to cut off a span. -/
def Spares (policy : AttributePolicy) (span : Span) : Prop :=
  ∀ maximum, policy = .enforce maximum →
    ∀ attributes ∈ span.attributeMaps, attributes.size ≤ maximum

theorem Spares.cut (spares : policy.Spares span) : policy.cut span = span := by
  cases policy with
  | trustClient => rfl
  | enforce maximum => exact cutSpan_of_few (spares maximum rfl)

theorem spares_cut : policy.Spares (policy.cut span) := by
  rintro maximum rfl attributes member
  exact size_cut member

/-- A policy has to be applied only once. -/
theorem cut_cut : policy.cut (policy.cut span) = policy.cut span :=
  spares_cut.cut

end AttributePolicy

/-- Whether a message is accepted as a submission for the trace with an
identifier, which the request tells or which was allocated for it. -/
structure Submission.Fits (settings : Settings) (message : Wire.Trace)
    (submission : Submission) (traceId : String) : Prop where
  accepted : Submission.ofRequest settings message = .ok submission
  named :
    submission.traceId? = some traceId ∨
      submission.traceId? = none ∧
        ∃ (sequence : IdSequence) (identifier : Identifier),
          sequence.allocate.2 = .ok identifier ∧ traceId = identifier.toHex
  own : submission.foreignSpans traceId = []

namespace Submission

variable {settings : Settings} {message : Wire.Trace} {submission : Submission}
  {traceId : String}

/-! ## Accepted requests -/

theorem exists_of_mem_acceptedSpans
    {index : Nat} {messages : List Wire.Span} {span : Span}
    (member : span ∈ acceptedSpans index messages) :
    ∃ sent ∈ messages, ∃ path, Check.checkSpan path sent = .ok span := by
  induction messages generalizing index with
  | nil => exact absurd member List.not_mem_nil
  | cons first rest inductionHypothesis =>
      have ofRest : span ∈ acceptedSpans (index + 1) rest →
          ∃ sent ∈ first :: rest, ∃ path,
            Check.checkSpan path sent = .ok span := by
        intro inRest
        obtain ⟨sent, isSent, accepted⟩ := inductionHypothesis inRest
        exact ⟨sent, List.mem_cons_of_mem _ isSent, accepted⟩
      unfold acceptedSpans at member
      split at member
      · rename_i accepted isAccepted
        rcases List.mem_cons.mp member with rfl | inRest
        · exact ⟨first, List.mem_cons_self, _, isAccepted⟩
        · exact ofRest inRest
      · exact ofRest member

theorem faultless_of_accepted
    (accepted : ofRequest settings message = .ok submission) :
    partViolations message = [] ∧ treeViolations settings message = [] := by
  unfold ofRequest at accepted
  split at accepted
  · rename_i nothing _
    unfold violations at nothing
    split at nothing
    · rename_i noneInParts
      exact ⟨noneInParts, nothing⟩
    · rename_i notNone
      exact absurd nothing notNone
  · cases accepted

theorem parts_of_accepted
    (accepted : ofRequest settings message = .ok submission) :
    treeViolations settings message = [] ∧
      acceptedInfo? message = some submission.info ∧
        submission.spans = message.spans.map (acceptedSpans 0) := by
  refine ⟨(faultless_of_accepted accepted).2, ?_⟩
  unfold ofRequest at accepted
  split at accepted
  · rename_i info _ isInfo
    cases accepted
    exact ⟨isInfo, rfl⟩
  · cases accepted

theorem info_of_accepted
    (accepted : ofRequest settings message = .ok submission) :
    ∃ info, message.info = some info ∧
      Check.checkInfo info = .ok submission.info := by
  obtain ⟨_, isInfo, _⟩ := parts_of_accepted accepted
  unfold acceptedInfo? at isInfo
  obtain ⟨info, isSent, checked⟩ := Option.bind_eq_some_iff.mp isInfo
  refine ⟨info, isSent, ?_⟩
  cases isDraft : Check.checkInfo info with
  | error violations =>
      rw [isDraft] at checked
      cases checked
  | ok draft =>
      rw [isDraft] at checked
      cases checked
      rfl

theorem draft_of_accepted
    (accepted : ofRequest settings message = .ok submission) :
    ∃ info, message.info = some info ∧
      Check.draft? info = some submission.info := by
  obtain ⟨info, isSent, isDraft⟩ := info_of_accepted accepted
  exact ⟨info, isSent, (Check.draft_of_checkInfo isDraft).2⟩

theorem state_of_draft
    {info : Wire.TraceInfo} {draft : InfoDraft} {spans : Option (List Wire.Span)}
    (isDraft : Check.draft? info = some draft) :
    declaredState { info := some info, spans } = draft.state := by
  unfold Check.draft? at isDraft
  split at isDraft
  · rw [← Option.some.inj isDraft]
    rfl
  · cases isDraft

theorem state_of_accepted
    (accepted : ofRequest settings message = .ok submission) :
    declaredState message = submission.info.state := by
  obtain ⟨info, isSent, isDraft⟩ := draft_of_accepted accepted
  obtain ⟨_, spans⟩ := message
  cases isSent
  exact state_of_draft isDraft

theorem canonical_of_accepted
    (accepted : ofRequest settings message = .ok submission) :
    Check.Canonical submission.info.location := by
  obtain ⟨info, _, isDraft⟩ := draft_of_accepted accepted
  exact Check.canonical_of_checkLocation (Check.location_of_draft isDraft)

theorem isKey_of_named
    (accepted : ofRequest settings message = .ok submission) {key : String}
    (named : submission.info.traceId = some key) : IsKey key := by
  obtain ⟨info, _, isDraft⟩ := draft_of_accepted accepted
  rw [Check.traceId_of_draft isDraft] at named
  obtain ⟨given, _, isKey⟩ := Option.bind_eq_some_iff.mp named
  exact Identifier.isKey_of_keyOf? isKey

/-- Every span of a submission was accepted from its request. -/
theorem sent_of_accepted
    (accepted : ofRequest settings message = .ok submission)
    {span : Span} (member : span ∈ submission.spanList) :
    ∃ messages, message.spans = some messages ∧
      ∃ sent ∈ messages, ∃ path, Check.checkSpan path sent = .ok span := by
  obtain ⟨_, _, spans⟩ := parts_of_accepted accepted
  unfold spanList at member
  rw [spans] at member
  cases isSent : message.spans with
  | none =>
      rw [isSent] at member
      exact absurd member List.not_mem_nil
  | some messages =>
      rw [isSent] at member
      exact ⟨messages, rfl, exists_of_mem_acceptedSpans member⟩

theorem sound_of_accepted
    (accepted : ofRequest settings message = .ok submission)
    {span : Span} (member : span ∈ submission.spanList) : span.Sound := by
  obtain ⟨_, _, _, _, _, isAccepted⟩ := sent_of_accepted accepted member
  exact Check.sound_of_checkSpan isAccepted

/-! ## The identifier -/

theorem Fits.isKey (fits : submission.Fits settings message traceId) :
    IsKey traceId := by
  rcases fits.named with told | ⟨_, sequence, identifier, given, rfl⟩
  · unfold traceId? at told
    split at told
    · rename_i key named
      cases told
      exact isKey_of_named fits.accepted named
    · split at told
      · rename_i span rest isList
        cases told
        have sound : span.Sound :=
          sound_of_accepted fits.accepted (isList ▸ List.mem_cons_self)
        exact Identifier.isKey_toHex (Span.traceId_of_checked sound.checked)
      · cases told
  · exact Identifier.isKey_toHex (IdSequence.isEmpty_of_allocate given)

theorem Fits.toHex_eq (fits : submission.Fits settings message traceId)
    {span : Span} (member : span ∈ submission.spanList) :
    span.traceId.toHex = traceId := by
  have names : span.traceId.hasKey traceId = true := by
    have kept := List.map_eq_nil_iff.mp fits.own
    simpa using List.filter_eq_nil_iff.mp kept span member
  exact Identifier.toHex_of_hasKey fits.isKey names

/-! ## The stored trace -/

theorem updatable_iff
    {stored : TraceInfo} {info : InfoDraft} :
    checkUpdatable stored info = .ok () ↔
      stored.state = .inProgress ∧ info.location = stored.location ∧
        info.state ≠ .unspecified := by
  unfold checkUpdatable
  cases stored.state with
  | inProgress =>
      by_cases stays : info.location = stored.location
      · by_cases lost : info.state = .unspecified
        · simp [TraceState.acceptsUpdates, locationChanges,
            stateLosses, stays, lost]
        · simp [TraceState.acceptsUpdates, locationChanges,
            stateLosses, stays, lost]
      · simp [TraceState.acceptsUpdates, locationChanges, stays]
  | _ => simp [TraceState.acceptsUpdates]

variable {stored : Option Trace} {trace : Trace}

theorem parts_of_result
    (isResult : submission.result settings stored traceId = .ok trace) :
    submission.mergedViolations settings stored traceId = [] ∧
      trace.info = (submission.merged settings stored traceId).info ∧
        trace.spans =
          (submission.merged settings stored traceId).spans.map
            settings.attributes.cut := by
  unfold result at isResult
  split at isResult
  · rename_i nothing
    cases isResult
    exact ⟨nothing, rfl, AttributePolicy.apply_eq_map _ _⟩
  · cases isResult

theorem id_of_result
    (isResult : submission.result settings stored traceId = .ok trace) :
    trace.id = traceId := by
  unfold Trace.id
  rw [(parts_of_result isResult).2.1]
  unfold merged
  cases stored <;> rfl

theorem location_of_result
    (isResult : submission.result settings stored traceId = .ok trace) :
    trace.info.location = submission.info.location := by
  rw [(parts_of_result isResult).2.1]
  unfold merged
  cases stored <;> rfl

theorem state_of_result
    (isResult : submission.result settings stored traceId = .ok trace) :
    trace.info.state = submission.info.state := by
  rw [(parts_of_result isResult).2.1]
  unfold merged
  cases stored <;> rfl

/-- The tree of what a request has stored was checked for the state that is
stored, unless the request has no part for the spans and the stored ones
stay. -/
theorem checked_or_kept
    (accepted : ofRequest settings message = .ok submission)
    (isResult : submission.result settings stored traceId = .ok trace) :
    Check.treeViolations (settings.validation.modeFor trace.info.state)
        (submission.merged settings stored traceId).spans = [] ∨
      submission.spans = none ∧ ∃ previous, stored = some previous ∧
        (submission.merged settings stored traceId).spans = previous.spans := by
  obtain ⟨noneInMessage, _, isSpans⟩ := parts_of_accepted accepted
  have noneMerged := (parts_of_result isResult).1
  rw [state_of_result isResult]
  unfold mergedViolations needsTreeCheck at noneMerged
  unfold treeViolations at noneInMessage
  rw [state_of_accepted accepted] at noneInMessage
  cases mode : settings.updateMode with
  | append =>
      rw [mode] at noneMerged
      cases stored with
      | none => exact Or.inl noneMerged
      | some previous =>
          cases sent : submission.spans with
          | none =>
              refine Or.inr ⟨rfl, previous, rfl, ?_⟩
              simp [merged, mergeSpans, sent]
          | some spans =>
              rw [sent] at noneMerged
              exact Or.inl noneMerged
  | replace =>
      rw [mode] at noneInMessage
      cases sent : message.spans with
      | none =>
          rw [sent] at isSpans
          cases stored with
          | none =>
              refine Or.inl ?_
              simp [merged, spanList, isSpans, Check.treeViolations]
          | some previous =>
              refine Or.inr ⟨isSpans, previous, rfl, ?_⟩
              simp [merged, mergeSpans, isSpans]
      | some messages =>
          rw [sent] at isSpans noneInMessage
          have isMerged :
              (submission.merged settings stored traceId).spans =
                acceptedSpans 0 messages := by
            cases stored with
            | none => simp [merged, spanList, isSpans]
            | some previous => simp [merged, mergeSpans, isSpans, mode]
          rw [isMerged]
          exact Or.inl noneInMessage

theorem mem_merged
    {span : Span}
    (member : span ∈ (submission.merged settings stored traceId).spans) :
    span ∈ submission.spanList ∨
      ∃ previous, stored = some previous ∧ span ∈ previous.spans := by
  unfold merged at member
  cases stored with
  | none => exact Or.inl member
  | some previous =>
      cases sent : submission.spans with
      | none =>
          simp only [sent, mergeSpans] at member
          exact Or.inr ⟨previous, rfl, member⟩
      | some spans =>
          cases mode : settings.updateMode with
          | replace =>
              simp only [sent, mode, mergeSpans] at member
              exact Or.inl (by simpa [spanList, sent] using member)
          | append =>
              simp only [sent, mode, mergeSpans, List.mem_append] at member
              rcases member with before | added
              · exact Or.inr ⟨previous, rfl, before⟩
              · exact Or.inl (by simpa [spanList, sent] using added)

end Submission

end TraceArchive
