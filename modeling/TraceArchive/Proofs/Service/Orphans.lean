import TraceArchive.Proofs.Service.Lifecycle

/-!
# Orphans in strict records

The mode in which a submission is checked follows from the state that it stores.
A submission without a part for the spans stores again spans that were checked
for an earlier state. The main statement, `strict_orphans_iff`, is that this is
the only way in which orphans come to be stored in a state whose mode is strict.
-/

namespace TraceArchive

/-- A mode becomes strict only when an execution ends. -/
theorem Check.Policy.ended_of_modes
    {policy : Check.Policy} {before after : TraceState}
    (notBefore : policy.modeFor before ≠ .strict)
    (strict : policy.modeFor after = .strict) :
    policy = .lenientInProgress ∧ before = .inProgress ∧
      after ≠ .inProgress := by
  cases policy with
  | strict => exact absurd rfl notBefore
  | lenient => cases strict
  | lenientInProgress =>
      refine ⟨rfl, ?_, ?_⟩
      · by_contra isOver
        exact notBefore (if_neg isOver)
      · rintro rfl
        cases strict

/-! ## What one request does -/

namespace Request

/-- Whether a request submits a trace without a part for the spans. -/
def LeavesSpans (request : Request) : Prop :=
  ∃ principal message, request = .submit principal message ∧
    message.spans = none

namespace Makes

open Check (NoOrphans)

variable {settings : Settings} {request : Request} {stored : StoredTrace}
  {trace : Trace}

theorem noOrphans_of_created
    (makes : request.Makes settings none trace)
    (strict : settings.validation.modeFor trace.info.state = .strict) :
    NoOrphans trace.spans := by
  cases makes with
  | created fits isResult =>
      rw [(Submission.parts_of_result isResult).2.2, Check.noOrphans_map
        (fun _ => AttributePolicy.spanId_cut)
        (fun _ => AttributePolicy.parentId_cut)]
      rcases Submission.checked_or_kept fits.accepted isResult with
        checked | ⟨_, previous, isStored, _⟩
      · exact (Check.isTree_of_treeViolations_nil checked).2 strict
      · cases isStored

theorem noOrphans_iff_of_leavesSpans
    (makes : request.Makes settings (some stored) trace)
    (leaves : request.LeavesSpans) :
    NoOrphans trace.spans ↔ NoOrphans stored.trace.spans := by
  obtain ⟨principal, message, rfl, unsent⟩ := leaves
  cases makes with
  | @updated _ _ submission _ _ _ fits _ isResult =>
      have noSpans : submission.spans = none := by
        rw [(Submission.parts_of_accepted fits.accepted).2.2, unsent]
        rfl
      rw [(Submission.parts_of_result isResult).2.2, Check.noOrphans_map
        (fun _ => AttributePolicy.spanId_cut)
        (fun _ => AttributePolicy.parentId_cut)]
      simp [Submission.merged, Submission.mergeSpans, noSpans]

/-- A strict trace has no orphans, unless the request left the spans or changed
nothing but tags. -/
theorem noOrphans_or_left
    (makes : request.Makes settings (some stored) trace)
    (strict : settings.validation.modeFor trace.info.state = .strict) :
    NoOrphans trace.spans ∨ request.LeavesSpans ∨
      trace = stored.trace.withTags trace.info.tags := by
  cases makes with
  | @updated principal message _ _ _ _ fits _ isResult =>
      rcases Submission.checked_or_kept fits.accepted isResult with
        checked | ⟨noSpans, _⟩
      · refine Or.inl ?_
        rw [(Submission.parts_of_result isResult).2.2, Check.noOrphans_map
          (fun _ => AttributePolicy.spanId_cut)
          (fun _ => AttributePolicy.parentId_cut)]
        exact (Check.isTree_of_treeViolations_nil checked).2 strict
      · rw [(Submission.parts_of_accepted fits.accepted).2.2,
          Option.map_eq_none_iff] at noSpans
        exact Or.inr (Or.inl ⟨principal, message, rfl, noSpans⟩)
  | tagged _ => exact Or.inr (Or.inr rfl)
  | untagged _ _ => exact Or.inr (Or.inr rfl)

end Makes

end Request

/-! ## What a life does -/

section Life

open Check (NoOrphans)

variable {Client : Type} {settings : Settings} {requests : Client → Request}
  {id : String} {commits : List (Commit Client)}

/-- Whether a request ended an execution that was in progress with orphans
among its spans, and left these spans as they were. -/
structure EndsWithOrphans (settings : Settings) (requests : Client → Request)
    (previous ended : Commit Client) : Prop where
  policy : settings.validation = .lenientInProgress
  underway : previous.record.trace.info.state = .inProgress
  orphans : ¬NoOrphans previous.record.trace.spans
  isOver : ended.record.trace.info.state ≠ .inProgress
  left : (requests ended.client).LeavesSpans

/-- Whether that happened in a life. -/
def WasEndedWithOrphans (settings : Settings) (requests : Client → Request)
    (commits : List (Commit Client)) : Prop :=
  ∃ earlier previous ended later,
    commits = earlier ++ previous :: ended :: later ∧
      EndsWithOrphans settings requests previous ended

theorem WasEndedWithOrphans.concat
    (was : WasEndedWithOrphans settings requests commits)
    (commit : Commit Client) :
    WasEndedWithOrphans settings requests (commits ++ [commit]) := by
  obtain ⟨earlier, previous, ended, later, split, ends⟩ := was
  exact ⟨earlier, previous, ended, later ++ [commit], by simp [split], ends⟩

/-- Orphans in the last record of a life, if its mode is strict, were there when
the execution was ended. -/
theorem Life.wasEnded_of_orphans
    (life : Life settings requests id commits) :
    ∀ record, (recordsOf commits).getLast? = some record →
      settings.validation.modeFor record.trace.info.state = .strict →
        ¬NoOrphans record.trace.spans →
          WasEndedWithOrphans settings requests commits := by
  induction life with
  | unborn =>
      intro record isLast
      cases isLast
  | @made commits commit earlier makes _ _ inductionHypothesis =>
      intro record isLast strict orphans
      rw [recordsOf_concat, List.getLast?_concat] at isLast
      cases isLast
      rcases List.eq_nil_or_concat commits with rfl | ⟨before, last, rfl⟩
      · exact absurd (makes.noOrphans_of_created strict) orphans
      · rw [List.concat_eq_append] at makes inductionHypothesis ⊢
        rw [recordsOf_concat, List.getLast?_concat]
          at makes inductionHypothesis
        by_cases strictBefore :
            settings.validation.modeFor last.record.trace.info.state = .strict
        · refine (inductionHypothesis last.record rfl strictBefore ?_).concat _
          rcases makes.noOrphans_or_left strict with none | left | onlyTags
          · exact absurd none orphans
          · exact (makes.noOrphans_iff_of_leavesSpans left).not.mp orphans
          · rw [onlyTags] at orphans
            exact orphans
        · rcases makes.noOrphans_or_left strict with none | left | onlyTags
          · exact absurd none orphans
          · obtain ⟨policy, underway, isOver⟩ :=
              Check.Policy.ended_of_modes strictBefore strict
            have orphansBefore :=
              (makes.noOrphans_iff_of_leavesSpans left).not.mp orphans
            exact
              ⟨before, last, commit, [], by simp,
                ⟨policy, underway, orphansBefore, isOver, left⟩⟩
          · rw [onlyTags] at strict
            exact absurd strict strictBefore

/-- Once an execution was ended with orphans they stay. -/
theorem Life.orphans_of_wasEnded
    (life : Life settings requests id commits)
    (was : WasEndedWithOrphans settings requests commits) :
    ∃ record, (recordsOf commits).getLast? = some record ∧
      settings.validation.modeFor record.trace.info.state = .strict ∧
        ¬NoOrphans record.trace.spans := by
  obtain ⟨earlier, previous, ended, later, rfl, ends⟩ := was
  have makes :
      (requests ended.client).Makes settings (some previous.record)
        ended.record.trace := by
    have chain := life.isChain.right_of_append
    exact (List.isChain_cons_cons.mp chain).1
  have orphans : ¬NoOrphans ended.record.trace.spans :=
    (makes.noOrphans_iff_of_leavesSpans ends.left).not.mpr ends.orphans
  have strict :
      settings.validation.modeFor ended.record.trace.info.state = .strict := by
    rw [ends.policy]
    exact if_neg ends.isOver
  rcases List.eq_nil_or_concat later with rfl | ⟨between, last, rfl⟩
  · exact ⟨ended.record, by simp [recordsOf], strict, orphans⟩
  · have split :
        recordsOf (earlier ++ previous :: ended :: between.concat last) =
          recordsOf (earlier ++ previous :: ended :: between) ++
            [last.record] := by
      simp [recordsOf]
    have settled := life.settled
    rw [split] at settled ⊢
    have onlyTags :
        last.record.trace =
          ended.record.trace.withTags last.record.trace.info.tags :=
      (List.pairwise_append.mp settled).2.2 ended.record (by simp [recordsOf])
        last.record List.mem_cons_self ends.isOver
    refine ⟨last.record, List.getLast?_concat, ?_, ?_⟩
    · rw [onlyTags]
      exact strict
    · rw [onlyTags]
      exact orphans

end Life

namespace Traffic

variable {Client : Type} [DecidableEq Client]

/-- After a run from the empty store a record whose state calls for the strict
mode has orphans exactly if a submission without a part for the spans ended its
execution, which was in progress with these orphans under the policy that is
lenient meanwhile. -/
theorem strict_orphans_iff
    (settings : Settings) (requests : Client → Request) (ids : IdSequence)
    (turns : List (Turn Client)) (id : String) :
    let reached := (start settings requests (World.initial ids)).run turns
    (∃ record, reached.world.store.get? id = some record ∧
        settings.validation.modeFor record.trace.info.state = .strict ∧
          ¬Check.NoOrphans record.trace.spans) ↔
      WasEndedWithOrphans settings requests (reached.commits id) := by
  intro reached
  obtain ⟨life, current⟩ := life_of_run settings requests ids turns id
  rw [current]
  constructor
  · rintro ⟨record, isLast, strict, orphans⟩
    exact life.wasEnded_of_orphans record isLast strict orphans
  · exact life.orphans_of_wasEnded

/-- What one client submits in progress, with a child of an unknown parent, and
another without spans as the end of it. -/
def unfinishedThenEnded (ends : Bool) : Request :=
  let info : Wire.TraceInfo :=
    { traceId := some "0a"
      location := some { experiment := some (some "1") }
      requestTime := some default }
  let span : Wire.Span :=
    { traceId := some ⟨[10]⟩, spanId := some ⟨[1]⟩, name := some "root"
      startTime := some 0, endTime := some 0 }
  if ends then .submit none { info := some { info with state := some .ok } }
  else
    .submit none
      { info := some { info with state := some .inProgress }
        spans :=
          some
            [span,
              { span with
                spanId := some ⟨[2]⟩, parentId := some ⟨[3]⟩ }] }

/-- The trace ends with its orphan, although the mode is then strict. -/
theorem orphan_kept_at_end :
    ∃ record,
      ((start {} unfinishedThenEnded (World.initial (.start 0))).run
          (List.replicate 6 { client := false } ++
            List.replicate 6 { client := true })).world.store.get? "0a" =
          some record ∧
        ({} : Settings).validation.modeFor record.trace.info.state = .strict ∧
          ¬Check.NoOrphans record.trace.spans := by
  have stored :
      (((start {} unfinishedThenEnded (World.initial (.start 0))).run
          (List.replicate 6 { client := false } ++
            List.replicate 6 { client := true })).world.store.get? "0a").any
        (fun record =>
          ({} : Settings).validation.modeFor record.trace.info.state =
              .strict ∧
            ¬Check.NoOrphans record.trace.spans) = true := by
    decide +kernel
  obtain ⟨record, isRecord, found⟩ := (Option.any_eq_true _ _).mp stored
  exact ⟨record, isRecord, of_decide_eq_true found⟩

end Traffic

end TraceArchive
