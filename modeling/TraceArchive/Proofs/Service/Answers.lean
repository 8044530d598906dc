import TraceArchive.Proofs.Service.Contract
import TraceArchive.Proofs.Store.Writing
import TraceArchive.Service.World

/-!
# Answers of the world

What an answer tells about the world that gave it, and what a call leaves of
that world. Under lone conditions no one but the caller writes between two
calls.
-/

namespace TraceArchive

/-- The same conditions, under which nobody writes unseen. -/
def Conditions.alone (conditions : Conditions) : Conditions :=
  { conditions with interference := fun _ store => store }

namespace TraceStore

/-- The store that a call leaves with its answer. -/
def after (store : TraceStore) : (call : Call) → call.Answer → TraceStore
  | .createTrace trace, .answered _ => (store.create trace).1
  | .replaceTrace id expected trace, .answered _ =>
      (store.compareAndSwap id expected trace).1
  | _, _ => store

theorem grows_after
    (store : TraceStore) (call : Call) (answer : call.Answer) :
    Grows store (store.after call answer) := by
  unfold after
  split
  · exact grows_write store _ 0 _
  · exact grows_write store _ _ _
  · exact Grows.refl store

end TraceStore

namespace World

variable {world : World} {conditions : Conditions} {deadline : Nat}

/-! ## Calls that may be kept waiting -/

section Awaited

variable {Fault Answer : Type} {outcome : Outcome Fault Answer}

@[simp]
theorem awaited_store :
    (world.awaited deadline outcome).1.store = world.store := by
  unfold awaited
  split <;> rfl

@[simp]
theorem awaited_cache :
    (world.awaited deadline outcome).1.cache = world.cache := by
  unfold awaited
  split <;> rfl

@[simp]
theorem awaited_ids : (world.awaited deadline outcome).1.ids = world.ids := by
  unfold awaited
  split <;> rfl

@[simp]
theorem awaited_lookups :
    (world.awaited deadline outcome).1.lookups = world.lookups := by
  unfold awaited
  split <;> rfl

@[simp]
theorem awaited_outcome : (world.awaited deadline outcome).2 = outcome := by
  unfold awaited
  split <;> rfl

end Awaited

theorem widen_ne_answered
    {Fault Answer : Type} (hindrance : Outcome Fault Empty) (answer : Answer) :
    (hindrance.widen : Outcome Fault Answer) ≠ .answered answer := by
  cases hindrance with
  | answered never => exact never.elim
  | failed fault => simp [Outcome.widen]
  | stalled => simp [Outcome.widen]

/-! ## What an answer tells -/

theorem allocate_of_answered
    {identifier : Identifier}
    (answered :
      (world.answer conditions deadline .allocateId).2 = .answered identifier) :
    world.ids.allocate.2 = .ok identifier := by
  simp only [answer, allocate] at answered
  split at answered
  · simp [widen_ne_answered] at answered
  · generalize world.ids.allocate = allocated at answered ⊢
    obtain ⟨ids, given⟩ := allocated
    cases given <;> simp_all [Outcome.ofExcept]

theorem read_of_answered
    {id : String} {found : Option StoredTrace}
    (answered :
      (world.answer conditions deadline (.readTrace id)).2 =
        .answered found) :
    world.store.get? id = found := by
  simp only [answer, read] at answered
  split at answered
  · simp [widen_ne_answered] at answered
  · simpa using answered

theorem write_of_answered
    {id : String} {expected : Nat} {trace : Trace} {record : StoredTrace}
    (answered :
      (world.write conditions deadline id expected trace).2 =
        .answered record) :
    (world.store.write id expected trace).2 = .ok record := by
  unfold write at answered
  split at answered
  · simp [widen_ne_answered] at answered
  · generalize world.store.write id expected trace = written at answered ⊢
    obtain ⟨store, result⟩ := written
    cases result <;> simp_all [Outcome.ofExcept]

theorem create_of_answered
    {trace : Trace} {record : StoredTrace}
    (answered :
      (world.answer conditions deadline (.createTrace trace)).2 =
        .answered record) :
    (world.store.create trace).2 = .ok record :=
  write_of_answered answered

theorem replace_of_answered
    {id : String} {expected : Nat} {trace : Trace} {record : StoredTrace}
    (answered :
      (world.answer conditions deadline (.replaceTrace id expected trace)).2 =
        .answered record) :
    (world.store.compareAndSwap id expected trace).2 = .ok record :=
  write_of_answered answered

/-- The cache knows an experiment only if it holds it. -/
theorem known_of_recalled
    {identifier : String}
    (recalled :
      (world.answer conditions deadline (.recallExperiment identifier)).2 =
        true) :
    identifier ∈ world.cache.known := by
  simp only [answer, ExperimentCache.consult] at recalled
  split at recalled
  · rename_i contained
    simpa using contained
  · cases recalled

@[simp]
theorem answer_lookUp (identifier : String) :
    (world.answer conditions deadline (.lookUpExperiment identifier)).2 =
      conditions.catalog identifier := by
  simp [answer]

@[simp]
theorem answer_authorize
    (location : TraceLocation) (principal : Option String) :
    (world.answer conditions deadline (.authorize location principal)).2 =
      conditions.authorizer location principal := by
  simp [answer]

/-! ## What a call leaves -/

theorem store_of_write
    (world : World) (conditions : Conditions) (deadline : Nat) (id : String)
    (expected : Nat) (trace : Trace) :
    (∃ record,
      (world.write conditions deadline id expected trace).2 =
          .answered record ∧
        (world.write conditions deadline id expected trace).1.store =
          (world.store.write id expected trace).1) ∨
      ((∀ record,
        (world.write conditions deadline id expected trace).2 ≠
          .answered record) ∧
        (world.write conditions deadline id expected trace).1.store =
          world.store) := by
  unfold write
  cases conditions.writing id with
  | some hindrance =>
      exact Or.inr ⟨by simp [widen_ne_answered], by simp⟩
  | none =>
      cases outcome : (world.store.write id expected trace).2 with
      | error error =>
          refine Or.inr ⟨?_, ?_⟩
          · simp [outcome, Outcome.ofExcept]
          · simpa using TraceStore.write_of_refused outcome
      | ok record =>
          exact Or.inl ⟨record, by simp [outcome, Outcome.ofExcept], rfl⟩

/-- Only an answered write changes the store. -/
theorem store_answer (call : Call) :
    (world.answer conditions.alone deadline call).1.store =
      world.store.after call
        (world.answer conditions.alone deadline call).2 := by
  cases call with
  | allocateId =>
      simp only [answer, allocate, TraceStore.after]
      split <;> simp
  | readTrace id =>
      simp only [answer, read, TraceStore.after]
      split <;> simp [Conditions.alone]
  | recallExperiment identifier => rfl
  | lookUpExperiment identifier => simp [answer, TraceStore.after]
  | rememberExperiment identifier => rfl
  | authorize location principal => simp [answer, TraceStore.after]
  | createTrace trace =>
      rcases store_of_write world conditions.alone deadline trace.id 0
          trace with
        ⟨record, answered, left⟩ | ⟨refused, left⟩
      · simp only [answer, answered, left, TraceStore.after, TraceStore.create]
      · simp only [answer, left]
        unfold TraceStore.after
        split <;> simp_all
  | replaceTrace id expected trace =>
      rcases store_of_write world conditions.alone deadline id expected
          trace with
        ⟨record, answered, left⟩ | ⟨refused, left⟩
      · simp only [answer, answered, left, TraceStore.after,
          TraceStore.compareAndSwap]
      · simp only [answer, left]
        unfold TraceStore.after
        split <;> simp_all

/-- Only the call for it puts an experiment into the cache. -/
theorem known_answer
    {call : Call} {identifier : String}
    (known :
      identifier ∈
        (world.answer conditions deadline call).1.cache.known) :
    identifier ∈ world.cache.known ∨
      call = .rememberExperiment identifier := by
  cases call with
  | allocateId =>
      simp only [answer, allocate] at known
      split at known <;> simp_all
  | readTrace id =>
      simp only [answer, read] at known
      split at known <;> simp_all
  | recallExperiment asked =>
      simp only [answer, ExperimentCache.consult] at known
      split at known <;> exact Or.inl known
  | lookUpExperiment asked => simp_all [answer]
  | rememberExperiment remembered =>
      simp only [answer, ExperimentCache.remember, List.mem_cons] at known
      rcases known with rfl | before
      · exact Or.inr rfl
      · exact Or.inl before
  | authorize location principal => simp_all [answer]
  | createTrace trace =>
      simp only [answer, write] at known
      split at known <;> simp_all
  | replaceTrace id expected trace =>
      simp only [answer, write] at known
      split at known <;> simp_all

/-- The source of identifiers that a call leaves. -/
theorem ids_answer (call : Call) (different : call ≠ .allocateId) :
    (world.answer conditions deadline call).1.ids = world.ids := by
  cases call with
  | allocateId => exact absurd rfl different
  | readTrace id =>
      simp only [answer, read]
      split <;> simp
  | recallExperiment asked => rfl
  | lookUpExperiment asked => simp [answer]
  | rememberExperiment remembered => rfl
  | authorize location principal => simp [answer]
  | createTrace trace =>
      simp only [answer, write]
      split <;> simp
  | replaceTrace id expected trace =>
      simp only [answer, write]
      split <;> simp

end World

/-! ## Running to the end -/

/-- A program that keeps a contract ends as it should, if the world admits the
answers to its calls and keeps up what holds of it. -/
theorem Program.Keeps.runUntil
    {Ghost Result : Type} {contract : Contract Ghost}
    {ends : Ghost → Result → Prop} {ghost : Ghost} {program : Program Result}
    {conditions : Conditions} {deadline : Nat} {world : World}
    (keeps : program.Keeps contract ends ghost)
    (holds : Ghost → World → Prop) (initially : holds ghost world)
    (afterCall :
      ∀ known before call, holds known before → contract.demands known call →
        let next := (before.answer conditions deadline call).1
        let answer := (before.answer conditions deadline call).2
        contract.admits known call answer ∧
          holds (contract.next known call answer) next) :
    let outcome := program.runUntil conditions deadline world
    ∃ last, holds last outcome.1 ∧ ends last outcome.2 := by
  induction program generalizing ghost world with
  | done result =>
      rw [keeps_done] at keeps
      exact ⟨ghost, initially, keeps⟩
  | step call resume inductionHypothesis =>
      rw [keeps_step] at keeps
      obtain ⟨demanded, afterwards⟩ := keeps
      obtain ⟨admitted, holdsNext⟩ :=
        afterCall ghost world call initially demanded
      exact inductionHypothesis _ (afterwards _ admitted) holdsNext

end TraceArchive
