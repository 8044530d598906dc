import TraceArchive.Proofs.KeyMap
import TraceArchive.Store.Basic

/-!
# What writes do to a store

A write succeeds exactly when it is based on what is stored, and then changes
the record under one identifier. So records are never lost, and a record whose
version is still the same is the same record.
-/

namespace TraceArchive.TraceStore

/-! ## Putting a record -/

@[simp]
theorem get?_put_self (store : TraceStore) (record : StoredTrace) :
    (store.put record).get? record.trace.id = some record :=
  KeyMap.find?_insert_self store.records record.trace.id record

theorem get?_put_of_ne
    (store : TraceStore) {record : StoredTrace} {id : String}
    (different : id ≠ record.trace.id) :
    (store.put record).get? id = store.get? id :=
  KeyMap.find?_insert_of_ne store.records different record

theorem mem_entries_iff
    {store : TraceStore} {id : String} {record : StoredTrace} :
    (id, record) ∈ store.records.entries ↔ store.get? id = some record :=
  KeyMap.mem_entries_iff

/-- A store is determined by the records under all identifiers. -/
theorem ext_get?
    {left right : TraceStore}
    (same : ∀ id, left.get? id = right.get? id) : left = right :=
  congrArg TraceStore.mk (KeyMap.ext_find? same)

/-! ## All records -/

theorem exists_of_mem_listing
    {store : TraceStore} {record : StoredTrace}
    (member : record ∈ store.listing) :
    ∃ id, store.get? id = some record := by
  obtain ⟨entry, inEntries, rfl⟩ := List.mem_map.mp member
  exact ⟨entry.1, mem_entries_iff.mp inEntries⟩

theorem restore_map_snd
    (map : KeyMap StoredTrace) {entries : List (String × StoredTrace)}
    (keyed : ∀ entry ∈ entries, entry.2.trace.id = entry.1) :
    restore ⟨map⟩ (entries.map Prod.snd) = ⟨map.insertAll entries⟩ := by
  induction entries generalizing map with
  | nil => rfl
  | cons entry rest inductionHypothesis =>
      rw [List.forall_mem_cons] at keyed
      have others :=
        inductionHypothesis (map.insert entry.1 entry.2) keyed.2
      have isPut : put ⟨map⟩ entry.2 = ⟨map.insert entry.1 entry.2⟩ := by
        rw [put, keyed.1]
      rw [List.map_cons, restore, List.foldl_cons, isPut]
      exact others

/-- Putting all records of a store into an empty one leads to the same
store. -/
theorem restore_listing
    {store : TraceStore}
    (keyed :
      ∀ id record, store.get? id = some record → record.trace.id = id) :
    empty.restore store.listing = store := by
  have ofEntries :
      empty.restore store.listing =
        ⟨KeyMap.empty.insertAll store.records.entries⟩ :=
    restore_map_snd .empty fun entry member =>
      keyed entry.1 entry.2 (mem_entries_iff.mp member)
  have whole :
      KeyMap.empty.insertAll store.records.entries = store.records :=
    KeyMap.ofList_entries store.records
  rw [ofEntries, whole]

/-! ## Writing -/

/-- What a write has to be based on: nothing for the version zero, else a
record of that version. -/
def IsBase (expected : Nat) : Option StoredTrace → Prop
  | none => expected = 0
  | some record => expected ≠ 0 ∧ record.version = expected

/-- A write is accepted exactly under the identifier of its trace and based on
what is stored, and it leaves the next version. -/
theorem written?_eq_ok_iff
    {store : TraceStore} {id : String} {expected : Nat} {trace : Trace}
    {record : StoredTrace} :
    store.written? id expected trace = .ok record ↔
      trace.id = id ∧ IsBase expected (store.get? id) ∧
        record = ⟨trace, expected + 1⟩ := by
  unfold written?
  by_cases sameId : trace.id = id
  · rw [if_neg (not_not_intro sameId)]
    cases stored : store.get? id with
    | none =>
        by_cases fresh : expected = 0
        · simp [IsBase, sameId, fresh, eq_comm]
        · simp [IsBase, fresh]
    | some current =>
        by_cases fresh : expected = 0
        · simp [IsBase, fresh]
        · by_cases sameVersion : current.version = expected
          · simp [IsBase, sameId, fresh, sameVersion, eq_comm]
          · simp [IsBase, fresh, sameVersion]
  · simp [sameId]

/-- A refused write changes nothing. -/
theorem write_of_refused
    {store : TraceStore} {id : String} {expected : Nat} {trace : Trace}
    {error : StoreError}
    (refused : (store.write id expected trace).2 = .error error) :
    (store.write id expected trace).1 = store := by
  unfold write at refused ⊢
  split at refused
  · rfl
  · cases refused

/-- An accepted write puts the record that it answers with. -/
theorem write_of_accepted
    {store : TraceStore} {id : String} {expected : Nat} {trace : Trace}
    {record : StoredTrace}
    (accepted : (store.write id expected trace).2 = .ok record) :
    trace.id = id ∧ IsBase expected (store.get? id) ∧
      record = ⟨trace, expected + 1⟩ ∧
        (store.write id expected trace).1 = store.put record := by
  unfold write at accepted ⊢
  split at accepted
  · cases accepted
  · rename_i written isWritten
    cases accepted
    obtain ⟨sameId, isBase, isRecord⟩ := written?_eq_ok_iff.mp isWritten
    exact ⟨sameId, isBase, isRecord, rfl⟩

/-! ## Growth -/

/-- Every record is still there or was replaced by one with a greater
version. -/
def Grows (earlier later : TraceStore) : Prop :=
  ∀ id record, earlier.get? id = some record →
    ∃ current, later.get? id = some current ∧
      (current = record ∨ record.version < current.version)

namespace Grows

theorem refl (store : TraceStore) : Grows store store :=
  fun _ record stored => ⟨record, stored, Or.inl rfl⟩

theorem trans
    {earlier middle later : TraceStore}
    (first : Grows earlier middle) (second : Grows middle later) :
    Grows earlier later := by
  intro id record stored
  obtain ⟨between, isBetween, firstStep⟩ := first id record stored
  obtain ⟨current, isCurrent, secondStep⟩ := second id between isBetween
  refine ⟨current, isCurrent, ?_⟩
  rcases firstStep with rfl | less
  · exact secondStep
  · rcases secondStep with rfl | lessAgain
    · exact Or.inr less
    · exact Or.inr (Nat.lt_trans less lessAgain)

/-- A record of the same version is the same record. -/
theorem eq_of_version
    {earlier later : TraceStore} (grows : Grows earlier later)
    {id : String} {record current : StoredTrace}
    (before : earlier.get? id = some record)
    (after : later.get? id = some current)
    (sameVersion : current.version = record.version) :
    current = record := by
  obtain ⟨found, isFound, step⟩ := grows id record before
  rw [after] at isFound
  cases isFound
  rcases step with same | less
  · exact same
  · omega

end Grows

theorem grows_write
    (store : TraceStore) (id : String) (expected : Nat) (trace : Trace) :
    Grows store (store.write id expected trace).1 := by
  cases outcome : (store.write id expected trace).2 with
  | error error =>
      rw [write_of_refused outcome]
      exact Grows.refl store
  | ok written =>
      obtain ⟨sameId, isBase, isRecord, left⟩ := write_of_accepted outcome
      rw [left]
      intro other record stored
      by_cases atId : other = written.trace.id
      · subst atId
        refine ⟨written, get?_put_self store written, Or.inr ?_⟩
        have underId : store.get? id = some record := by
          rw [← stored, isRecord, ← sameId]
        rw [underId] at isBase
        obtain ⟨_, sameVersion⟩ := isBase
        simp [isRecord, sameVersion]
      · exact ⟨record, (get?_put_of_ne store atId).trans stored, Or.inl rfl⟩

/-- Whether a store has every record of another one, in the same version or a
later one. -/
def Retains (store other : TraceStore) : Prop :=
  ∀ id record, other.get? id = some record →
    ∃ current, store.get? id = some current ∧
      record.version ≤ current.version

theorem Grows.retains
    {earlier later : TraceStore} (grows : Grows earlier later) :
    later.Retains earlier := by
  intro id record stored
  obtain ⟨current, isCurrent, same | less⟩ := grows id record stored
  · exact ⟨current, isCurrent, Nat.le_of_eq (same ▸ rfl)⟩
  · exact ⟨current, isCurrent, Nat.le_of_lt less⟩

/-- An earlier store has all records of a later one only if nothing was
written. -/
theorem Grows.eq_of_retains
    {earlier later : TraceStore} (grows : Grows earlier later)
    (retains : earlier.Retains later) : later = earlier := by
  refine ext_get? fun id => ?_
  cases isLater : later.get? id with
  | none =>
      cases isEarlier : earlier.get? id with
      | none => rfl
      | some record =>
          obtain ⟨current, isCurrent, _⟩ := grows id record isEarlier
          rw [isLater] at isCurrent
          cases isCurrent
  | some record =>
      obtain ⟨current, isEarlier, notLater⟩ := retains id record isLater
      obtain ⟨found, isFound, same | less⟩ := grows id current isEarlier
      · rw [isLater] at isFound
        rw [isEarlier, Option.some.inj isFound, same]
      · rw [isLater] at isFound
        cases isFound
        omega

end TraceArchive.TraceStore
