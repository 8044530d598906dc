import TraceArchive.Proofs.Service.Lifecycle

/-!
# What is stored

Everything in a store that was filled by requests alone is as the checks want
it. The checks are made in different places, before and after the stored trace
is read, and some requests store again what others have stored; so what holds of
one record is shown of all records of its life. The main statement is
`wellFormed_of_run`.
-/

namespace TraceArchive

/-! ## Proper traces -/

/-- What holds of every trace that is stored under some settings. -/
structure Trace.WellFormed (settings : Settings) (trace : Trace) : Prop where
  key : IsKey trace.id
  own : ∀ span ∈ trace.spans, span.traceId.toHex = trace.id
  tree : Check.IsTree trace.spans
  sound : ∀ span ∈ trace.spans, span.Sound
  bounded : ∀ maximum, settings.attributes = .enforce maximum →
    ∀ span ∈ trace.spans, ∀ attributes ∈ span.attributeMaps,
      attributes.size ≤ maximum

/-- What holds of every store that was filled under some settings. -/
structure TraceStore.WellFormed (settings : Settings)
    (store : TraceStore) : Prop where
  keyed : ∀ id record, store.get? id = some record → record.trace.id = id
  versioned : ∀ id record, store.get? id = some record → 1 ≤ record.version
  wellFormed : ∀ id record, store.get? id = some record →
    record.trace.WellFormed settings
  writable : ∀ id record, store.get? id = some record →
    ∀ format : Wire.Format, ∃ body, format.encode record.trace = .ok body

namespace Trace.WellFormed

variable {settings : Settings} {stored : Option Trace} {trace : Trace}

/-- What a submission leads to is proper, if what was stored before is. -/
theorem of_result
    {message : Wire.Trace} {submission : Submission} {traceId : String}
    (fits : submission.Fits settings message traceId)
    (isResult : submission.result settings stored traceId = .ok trace)
    (before : ∀ previous, stored = some previous →
      previous.id = traceId ∧ previous.WellFormed settings) :
    trace.WellFormed settings := by
  have sameId := Submission.id_of_result isResult
  obtain ⟨_, _, isCut⟩ := Submission.parts_of_result isResult
  have ofMerged :
      ∀ span ∈ (submission.merged settings stored traceId).spans,
        span.traceId.toHex = traceId ∧ span.Sound := by
    intro span member
    rcases Submission.mem_merged member with
      submitted | ⟨previous, isStored, kept⟩
    · exact
        ⟨fits.toHex_eq submitted,
          Submission.sound_of_accepted fits.accepted submitted⟩
    · obtain ⟨previousId, wellFormed⟩ := before previous isStored
      exact
        ⟨(wellFormed.own span kept).trans previousId,
          wellFormed.sound span kept⟩
  have mergedTree :
      Check.IsTree (submission.merged settings stored traceId).spans := by
    rcases Submission.checked_or_kept fits.accepted isResult with
      checked | ⟨_, previous, isStored, kept⟩
    · exact (Check.isTree_of_treeViolations_nil checked).1
    · rw [kept]
      exact (before previous isStored).2.tree
  refine ⟨?_, ?_, ?_, ?_, ?_⟩
  · rw [sameId]
    exact fits.isKey
  · intro span member
    rw [isCut] at member
    obtain ⟨whole, isWhole, rfl⟩ := List.mem_map.mp member
    rw [AttributePolicy.traceId_cut, sameId]
    exact (ofMerged whole isWhole).1
  · rw [isCut]
    exact mergedTree.map (fun _ => AttributePolicy.spanId_cut)
      (fun _ => AttributePolicy.parentId_cut)
  · intro span member
    rw [isCut] at member
    obtain ⟨whole, isWhole, rfl⟩ := List.mem_map.mp member
    exact AttributePolicy.sound_cut (ofMerged whole isWhole).2
  · intro maximum enforced span member attributes inSpan
    rw [isCut, enforced] at member
    obtain ⟨whole, isWhole, rfl⟩ := List.mem_map.mp member
    exact AttributePolicy.size_cut inSpan

/-- Tags do not matter. -/
theorem withTags
    (wellFormed : trace.WellFormed settings) (tags : KeyMap String) :
    (trace.withTags tags).WellFormed settings :=
  ⟨wellFormed.key, wellFormed.own, wellFormed.tree, wellFormed.sound,
    wellFormed.bounded⟩

/-- What a request makes of a proper trace is proper. -/
theorem of_makes
    {request : Request} {previous : Option StoredTrace}
    (makes : request.Makes settings previous trace)
    (before : ∀ stored, previous = some stored →
      stored.trace.id = trace.id ∧ stored.trace.WellFormed settings) :
    trace.WellFormed settings := by
  cases makes with
  | created fits isResult => exact of_result fits isResult (by simp)
  | @updated _ _ _ _ stored _ fits _ isResult =>
      refine of_result fits isResult ?_
      intro trace isStored
      cases isStored
      rw [← Submission.id_of_result isResult]
      exact before stored rfl
  | @tagged _ _ _ _ _ stored _ => exact (before stored rfl).2.withTags _
  | @untagged _ _ _ _ stored _ _ => exact (before stored rfl).2.withTags _

end Trace.WellFormed

/-! ## Stores of runs -/

namespace Life

variable {Client : Type} {settings : Settings} {requests : Client → Request}
  {id : String} {commits : List (Commit Client)}

theorem wellFormed (life : Life settings requests id commits) :
    ∀ record ∈ recordsOf commits, record.trace.WellFormed settings :=
  life.forall_of_makes fun _ _ _ makes before =>
    Trace.WellFormed.of_makes makes before

theorem version_pos
    (life : Life settings requests id commits) {record : StoredTrace}
    (member : record ∈ recordsOf commits) : 1 ≤ record.version := by
  have isVersion :
      record.version ∈ List.range' 1 (recordsOf commits).length :=
    life.numbered ▸ List.mem_map_of_mem member
  exact (List.mem_range'_1.mp isVersion).1

end Life

namespace Traffic

variable {Client : Type} [DecidableEq Client]

/-- Whatever requests are made under whatever settings, in whatever order their
calls are answered and whichever of them fail, everything in the store is
proper: its key and version, the identifiers, times, tree and attributes of its
spans, and it can be written in every format. -/
theorem wellFormed_of_run
    (settings : Settings) (requests : Client → Request) (ids : IdSequence)
    (turns : List (Turn Client)) :
    ((start settings requests (World.initial ids)).run
      turns).world.store.WellFormed settings := by
  have ofLife :
      ∀ id record,
        ((start settings requests (World.initial ids)).run
            turns).world.store.get? id = some record →
          record.trace.id = id ∧ 1 ≤ record.version ∧
            record.trace.WellFormed settings := by
    intro id record stored
    obtain ⟨life, current⟩ := life_of_run settings requests ids turns id
    rw [current] at stored
    have member := List.mem_of_getLast? stored
    exact
      ⟨life.named record member, life.version_pos member,
        life.wellFormed record member⟩
  refine ⟨?_, ?_, ?_, ?_⟩
  · exact fun id record stored => (ofLife id record stored).1
  · exact fun id record stored => (ofLife id record stored).2.1
  · exact fun id record stored => (ofLife id record stored).2.2
  · intro id record stored format
    exact Wire.Format.encode_of_sound (ofLife id record stored).2.2.sound format

end Traffic

end TraceArchive
