import TraceArchive.Proofs.Store.History
import TraceArchive.Proofs.Text.Utf8

/-!
# What a store lists and restores

Whatever is written to a store and restored into it, every record stays under
the identifier of its trace. So the listing of a store has each record once, in
the order of the bytes of the identifiers, and restoring it anywhere puts every
record where it was. The main statement is `listing_of_operations`.
-/

namespace TraceArchive

namespace TraceStore

/-! ## Records under their own identifiers -/

/-- Whether every record is under the identifier of its trace. -/
def Keyed (store : TraceStore) : Prop :=
  ∀ id record, store.get? id = some record → record.trace.id = id

theorem keyed_empty : Keyed empty := by
  intro id record stored
  cases stored

namespace Keyed

variable {store : TraceStore} (keyed : store.Keyed)

include keyed

theorem put (record : StoredTrace) : (store.put record).Keyed := by
  intro id current stored
  by_cases same : id = record.trace.id
  · rw [same, get?_put_self] at stored
    rw [same, Option.some.inj stored]
  · rw [get?_put_of_ne store same] at stored
    exact keyed id current stored

theorem write (id : String) (expected : Nat) (trace : Trace) :
    (store.write id expected trace).1.Keyed := by
  cases outcome : (store.write id expected trace).2 with
  | error error =>
      rw [write_of_refused outcome]
      exact keyed
  | ok record =>
      obtain ⟨-, -, -, left⟩ := write_of_accepted outcome
      rw [left]
      exact keyed.put record

theorem restore (records : List StoredTrace) :
    (store.restore records).Keyed := by
  induction records generalizing store with
  | nil => exact keyed
  | cons record rest inductionHypothesis =>
      exact inductionHypothesis (keyed.put record)

/-! ## The listing -/

theorem ids_listing :
    store.listing.map (fun record => record.trace.id) = store.records.keys := by
  rw [listing, KeyMap.keys, List.map_map]
  refine List.map_congr_left ?_
  rintro ⟨id, record⟩ member
  exact keyed id record (mem_entries_iff.mp member)

theorem mem_listing_iff (record : StoredTrace) :
    record ∈ store.listing ↔ store.get? record.trace.id = some record := by
  constructor
  · intro member
    obtain ⟨id, stored⟩ := exists_of_mem_listing member
    rw [keyed id record stored]
    exact stored
  · intro stored
    exact List.mem_map.mpr ⟨_, mem_entries_iff.mpr stored, rfl⟩

/-- The listing is in the order of the bytes of the identifiers. -/
theorem pairwise_listing :
    store.listing.Pairwise fun earlier later =>
      Text.Utf8.encode earlier.trace.id.toList <
        Text.Utf8.encode later.trace.id.toList := by
  have ascending : store.records.keys.Pairwise (· < ·) :=
    List.pairwise_map.mpr store.records.ascending
  rw [← keyed.ids_listing, List.pairwise_map] at ascending
  exact ascending.imp Text.Utf8.encode_lt_encode_iff.mpr

/-- An identifier is listed once if a record is under it, else not at all. -/
theorem count_listing (id : String) :
    (store.listing.map fun record => record.trace.id).count id =
      if (store.get? id).isSome then 1 else 0 := by
  have ascending : store.records.keys.Pairwise (· < ·) :=
    List.pairwise_map.mpr store.records.ascending
  have nodup : store.records.keys.Nodup := ascending.imp String.ne_of_lt
  have isListed : id ∈ store.records.keys ↔ (store.get? id).isSome = true := by
    rw [KeyMap.keys, List.mem_map, Option.isSome_iff_exists]
    constructor
    · rintro ⟨⟨_, record⟩, member, rfl⟩
      exact ⟨record, mem_entries_iff.mp member⟩
    · rintro ⟨record, stored⟩
      exact ⟨(id, record), mem_entries_iff.mpr stored, rfl⟩
  rw [keyed.ids_listing, nodup.count]
  simp only [isListed]

/-- Restoring the listing of a store into the store itself changes nothing. -/
theorem restore_listing_self : store.restore store.listing = store := by
  have ofEntries :
      store.restore store.listing =
        ⟨store.records.insertAll store.records.entries⟩ :=
    restore_map_snd store.records fun entry member =>
      keyed entry.1 entry.2 (mem_entries_iff.mp member)
  rw [ofEntries, store.records.insertAll_of_subset (List.Subset.refl _)]

end Keyed

/-! ## What is found after restoring -/

/-- The last of some records that is about a trace. -/
def lastOf? (id : String) (records : List StoredTrace) : Option StoredTrace :=
  (records.filter fun record => record.trace.id = id).getLast?

theorem lastOf?_cons
    (id : String) (record : StoredTrace) (rest : List StoredTrace) :
    lastOf? id (record :: rest) =
      (lastOf? id rest).or
        (if record.trace.id = id then some record else none) := by
  by_cases same : record.trace.id = id
  · rw [lastOf?, List.filter_cons_of_pos (by simpa using same),
      List.getLast?_cons, if_pos same, lastOf?]
    cases List.getLast? _ <;> rfl
  · rw [lastOf?, List.filter_cons_of_neg (by simpa using same), if_neg same,
      Option.or_none, lastOf?]

/-- Of the restored records the last about a trace is found, and for a trace
that is not among them what was found before. -/
theorem get?_restore
    (store : TraceStore) (records : List StoredTrace) (id : String) :
    (store.restore records).get? id =
      (lastOf? id records).or (store.get? id) := by
  induction records generalizing store with
  | nil => rfl
  | cons record rest inductionHypothesis =>
      have others := inductionHypothesis (store.put record)
      rw [lastOf?_cons, Option.or_assoc]
      refine others.trans (congrArg (lastOf? id rest).or ?_)
      by_cases same : record.trace.id = id
      · rw [if_pos same, ← same, get?_put_self]
        rfl
      · rw [if_neg same, get?_put_of_ne store (Ne.symm same)]
        rfl

end TraceStore

/-! ## Operations one after another -/

/-- What changes a store: a write, or records that are restored. -/
inductive StoreOperation where
  | write (attempt : StoreWrite)
  | restore (records : List StoredTrace)

namespace StoreOperation

/-- The store after an operation, which a refused write leaves as it is. -/
def perform (store : TraceStore) : StoreOperation → TraceStore
  | .write attempt => (attempt.perform store).1
  | .restore records => store.restore records

/-- The store after operations, which was empty in the beginning. -/
def performAll (operations : List StoreOperation) : TraceStore :=
  operations.foldl perform .empty

theorem keyed_perform
    {store : TraceStore} (keyed : store.Keyed) (operation : StoreOperation) :
    (operation.perform store).Keyed := by
  cases operation with
  | write attempt =>
      rw [perform, StoreWrite.perform_eq_write]
      exact keyed.write attempt.id attempt.expected attempt.trace
  | restore records => exact keyed.restore records

theorem keyed_performAll (operations : List StoreOperation) :
    (performAll operations).Keyed := by
  induction operations using List.reverseRecOn with
  | nil => exact TraceStore.keyed_empty
  | append_singleton earlier operation inductionHypothesis =>
      rw [performAll, List.foldl_append]
      exact keyed_perform inductionHypothesis operation

/-- Whatever is written and restored: every record is under the identifier of
its trace. The listing has exactly the records that are found under their
identifiers, each identifier once, in ascending order of its bytes. Of records
that are restored the last about a trace is found as it is, and everything else
is found as before. Restoring the listing into an empty store leads to the same
store, and restoring it into the store itself changes nothing. -/
theorem listing_of_operations (operations : List StoreOperation) :
    let store := performAll operations
    store.Keyed ∧
      (∀ record,
        record ∈ store.listing ↔ store.get? record.trace.id = some record) ∧
      (∀ id,
        (store.listing.map fun record => record.trace.id).count id =
          if (store.get? id).isSome then 1 else 0) ∧
      (store.listing.Pairwise fun earlier later =>
        Text.Utf8.encode earlier.trace.id.toList <
          Text.Utf8.encode later.trace.id.toList) ∧
      (∀ records id,
        (store.restore records).get? id =
          (TraceStore.lastOf? id records).or (store.get? id)) ∧
      TraceStore.empty.restore store.listing = store ∧
        store.restore store.listing = store := by
  intro store
  have keyed : store.Keyed := keyed_performAll operations
  refine
    ⟨keyed, keyed.mem_listing_iff, keyed.count_listing,
      keyed.pairwise_listing, store.get?_restore, ?_, ?_⟩
  · exact TraceStore.restore_listing keyed
  · exact keyed.restore_listing_self

end StoreOperation

end TraceArchive
