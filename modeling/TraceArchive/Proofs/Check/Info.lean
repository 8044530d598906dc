import TraceArchive.Check.Info
import TraceArchive.Proofs.KeyMap

/-!
# What is taken over about a trace as a whole

What is accepted about a trace as a whole has every field as the message gives
it. The main statement is `Check.takes_of_checkInfo`.
-/

namespace TraceArchive

/-- Whether a draft has the fields of a message as they are given there. -/
structure InfoDraft.Takes (draft : InfoDraft) (info : Wire.TraceInfo) :
    Prop where
  clientRequestId : draft.clientRequestId = info.clientRequestId
  request : draft.request = info.request
  response : draft.response = info.response
  requestTime : some draft.requestTime = info.requestTime
  executionDuration : draft.executionDuration = info.executionDuration
  state : draft.state = info.state.getD .unspecified
  metadata : draft.metadata.mapValues .string = info.metadata
  assessments : draft.assessments.map .object = info.assessments
  tags : draft.tags.mapValues .string = info.tags

namespace Check

/-- An accepted part about a trace as a whole gives no violation. -/
theorem draft_of_checkInfo
    {info : Wire.TraceInfo} {draft : InfoDraft}
    (accepted : checkInfo info = .ok draft) :
    infoViolations info = [] ∧ draft? info = some draft := by
  unfold checkInfo at accepted
  split at accepted
  · rename_i nothing isDraft
    cases accepted
    exact ⟨nothing, isDraft⟩
  · cases accepted
  · cases accepted

theorem location_of_draft
    {info : Wire.TraceInfo} {draft : InfoDraft}
    (isDraft : draft? info = some draft) :
    checkLocation info.location = .ok draft.location := by
  unfold draft? at isDraft
  split at isDraft
  · rename_i location _ isLocation _
    cases isDraft
    exact isLocation
  · cases isDraft

theorem traceId_of_draft
    {info : Wire.TraceInfo} {draft : InfoDraft}
    (isDraft : draft? info = some draft) : draft.traceId = traceKey? info := by
  unfold draft? at isDraft
  split at isDraft
  · rw [← Option.some.inj isDraft]
  · cases isDraft

/-- A part about a trace as a whole that is accepted without an identifier gives
none. -/
theorem givenTraceId?_eq_none
    {info : Wire.TraceInfo} {draft : InfoDraft}
    (accepted : checkInfo info = .ok draft) (untold : draft.traceId = none) :
    givenTraceId? info = none := by
  obtain ⟨faultless, isDraft⟩ := draft_of_checkInfo accepted
  simp only [infoViolations, List.append_eq_nil_iff] at faultless
  have inOrder : traceIdViolations info = [] := faultless.1.1.1.2
  rw [traceId_of_draft isDraft, traceKey?] at untold
  unfold traceIdViolations at inOrder
  cases given : givenTraceId? info with
  | none => rfl
  | some text =>
      rw [given, Option.bind_some] at untold
      simp only [given, untold] at inOrder
      cases inOrder

theorem textEntries_of_faultless
    {field : String} {entries : List (String × Json)}
    (faultless : entries.filterMap (textViolation? field) = []) :
    (entries.filterMap textEntry?).map
        (fun entry => (entry.1, Json.string entry.2)) =
      entries := by
  induction entries with
  | nil => rfl
  | cons entry rest inductionHypothesis =>
      rw [List.filterMap_eq_nil_iff, List.forall_mem_cons,
        ← List.filterMap_eq_nil_iff] at faultless
      have others := inductionHypothesis faultless.2
      obtain ⟨key, value⟩ := entry
      cases value with
      | string text =>
          have isText :
              textEntry? (key, Json.string text) = some (key, text) := rfl
          rw [List.filterMap_cons_some isText, List.map_cons, others]
      | _ => cases faultless.1

theorem mapValues_texts
    {field : String} {map : KeyMap Json}
    (faultless : textViolations field map = []) :
    (texts map).mapValues .string = map := by
  have areEntries := textEntries_of_faultless faultless
  have ascending : Entries.Ascending (map.entries.filterMap textEntry?) := by
    refine Entries.Ascending.of_keys map.ascending ?_
    rw [← congrArg (List.map Prod.fst) areEntries, List.map_map]
    rfl
  have entriesOfTexts :
      (texts map).entries = map.entries.filterMap textEntry? :=
    KeyMap.entries_ofList ascending
  apply KeyMap.ext
  change (texts map).entries.map _ = map.entries
  rw [entriesOfTexts]
  exact areEntries

theorem objects_assessments
    {index : Nat} {values : List Json}
    (faultless : assessmentViolations index values = []) :
    (assessments values).map .object = values := by
  induction values generalizing index with
  | nil => rfl
  | cons value rest inductionHypothesis =>
      cases value with
      | object entries =>
          rw [assessments, List.map_cons, inductionHypothesis faultless]
      | _ => cases faultless

/-- What is accepted about a trace as a whole is what the message gives. -/
theorem takes_of_checkInfo
    {info : Wire.TraceInfo} {draft : InfoDraft}
    (accepted : checkInfo info = .ok draft) : draft.Takes info := by
  obtain ⟨faultless, isDraft⟩ := draft_of_checkInfo accepted
  simp only [infoViolations, List.append_eq_nil_iff] at faultless
  obtain ⟨⟨⟨_, faultlessMetadata⟩, faultlessTags⟩, faultlessAssessments⟩ :=
    faultless
  unfold draft? at isDraft
  split at isDraft
  · rename_i location requestTime _ isTime
    cases isDraft
    exact
      { clientRequestId := rfl
        request := rfl
        response := rfl
        requestTime := isTime.symm
        executionDuration := rfl
        state := rfl
        metadata := mapValues_texts faultlessMetadata
        assessments := objects_assessments faultlessAssessments
        tags := mapValues_texts faultlessTags }
  · cases isDraft

end Check

end TraceArchive
