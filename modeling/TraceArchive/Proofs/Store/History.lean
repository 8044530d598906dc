import Mathlib.Data.List.Induction
import Mathlib.Data.List.Nodup
import TraceArchive.Proofs.Store.Writing

/-!
# Histories of a store

Whoever writes to a store that was empty in the beginning, in whatever order and
based on whatever versions: the writes that it accepts under one identifier are
a chain, each based on the one before. The main statement is
`chain_of_writes`.
-/

namespace TraceArchive

/-! ## Writes and their answers -/

/-- What a store can be asked to write. -/
inductive StoreWrite where
  | create (trace : Trace)
  | swap (id : String) (expected : Nat) (trace : Trace)

namespace StoreWrite

/-- The identifier under which the trace is to be written. -/
def id : StoreWrite → String
  | .create trace => trace.id
  | .swap id _ _ => id

/-- The version on which the write is based, zero for a trace that is not
stored. -/
def expected : StoreWrite → Nat
  | .create _ => 0
  | .swap _ expected _ => expected

/-- The trace that is to be written. -/
def trace : StoreWrite → Trace
  | .create trace => trace
  | .swap _ _ trace => trace

/-- What the store does about the write. -/
def perform (store : TraceStore) :
    StoreWrite → TraceStore × Except StoreError StoredTrace
  | .create trace => store.create trace
  | .swap id expected trace => store.compareAndSwap id expected trace

theorem perform_eq_write (store : TraceStore) (write : StoreWrite) :
    write.perform store =
      store.write write.id write.expected write.trace := by
  cases write <;> rfl

end StoreWrite

/-- A write with the answer of the store. -/
structure StoreEvent where
  write : StoreWrite
  answer : Except StoreError StoredTrace

namespace StoreEvent

/-- The record that was accepted under an identifier. -/
def accepted? (id : String) (event : StoreEvent) : Option StoredTrace :=
  match event.answer with
  | .ok record => if event.write.id = id then some record else none
  | .error _ => none

/-- Whether a write under an identifier was accepted that is based on a
version. -/
def takes (id : String) (expected : Nat) (event : StoreEvent) : Bool :=
  event.answer.isOk && event.write.id = id && event.write.expected = expected

end StoreEvent

/-- A store with what it was asked to write and what it answered, the latest
last. -/
structure StoreHistory where
  store : TraceStore
  events : List StoreEvent

namespace StoreHistory

/-- The empty store before the first write. -/
def start : StoreHistory :=
  ⟨.empty, []⟩

/-- The history after one more write. -/
def next (history : StoreHistory) (write : StoreWrite) : StoreHistory where
  store := (write.perform history.store).1
  events := history.events ++ [⟨write, (write.perform history.store).2⟩]

/-- The history of the writes of a list, beginning with the empty store. -/
def ofWrites (writes : List StoreWrite) : StoreHistory :=
  writes.foldl next start

/-- The records that were accepted under an identifier. -/
def accepted (history : StoreHistory) (id : String) : List StoredTrace :=
  history.events.filterMap (StoreEvent.accepted? id)

@[simp]
theorem ofWrites_concat (writes : List StoreWrite) (write : StoreWrite) :
    ofWrites (writes ++ [write]) = (ofWrites writes).next write := by
  simp [ofWrites]

theorem accepted_next
    (history : StoreHistory) (write : StoreWrite) (id : String) :
    (history.next write).accepted id =
      history.accepted id ++
        (StoreEvent.accepted? id
          ⟨write, (write.perform history.store).2⟩).toList := by
  rw [accepted, next, List.filterMap_append, List.filterMap_cons]
  cases StoreEvent.accepted? id _ <;> rfl

end StoreHistory

/-! ## Versions -/

/-- The version of what is stored under an identifier, zero when nothing is. -/
def TraceStore.version (store : TraceStore) (id : String) : Nat :=
  match store.get? id with
  | none => 0
  | some record => record.version

/-- The version of the last of records that are numbered from one on. -/
theorem version_of_numbered
    {records : List StoredTrace}
    (numbered :
      records.map StoredTrace.version = List.range' 1 records.length) :
    (records.getLast?.map StoredTrace.version).getD 0 = records.length := by
  rw [← List.getLast?_map, numbered, List.getLast?_range']
  split
  · rename_i isEmpty
    simp [isEmpty]
  · simp

namespace StoreHistory

/-- What holds of a store and its history after any writes. -/
structure Linear (history : StoreHistory) : Prop where
  /-- The accepted versions under an identifier count up from one. -/
  numbered : ∀ id,
    (history.accepted id).map StoredTrace.version =
      List.range' 1 (history.accepted id).length
  /-- What was accepted last is what is read. -/
  latest : ∀ id, history.store.get? id = (history.accepted id).getLast?
  /-- An accepted write leaves its trace and the version after its base. -/
  based : ∀ event ∈ history.events, ∀ record, event.answer = .ok record →
    record = ⟨event.write.trace, event.write.expected + 1⟩

namespace Linear

variable {history : StoreHistory}

theorem start : Linear StoreHistory.start := by
  refine ⟨fun id => rfl, fun id => rfl, ?_⟩
  intro event member
  cases member

theorem version_eq (linear : history.Linear) (id : String) :
    history.store.version id = (history.accepted id).length := by
  rw [← version_of_numbered (linear.numbered id), TraceStore.version,
    linear.latest id]
  cases (history.accepted id).getLast? <;> rfl

/-- Nothing is stored exactly when the version is zero. -/
theorem isBase_iff (linear : history.Linear) (id : String) (expected : Nat) :
    TraceStore.IsBase expected (history.store.get? id) ↔
      expected = history.store.version id := by
  have isLength := linear.version_eq id
  unfold TraceStore.version at isLength ⊢
  cases stored : history.store.get? id with
  | none => exact Iff.rfl
  | some record =>
      rw [stored] at isLength
      have positive : 0 < record.version := by
        rw [show record.version = _ from isLength]
        refine List.length_pos_of_mem (a := record) ?_
        exact List.mem_of_getLast? ((linear.latest id).symm.trans stored)
      simp only [TraceStore.IsBase]
      omega

/-- A write is accepted exactly under the identifier of its trace and based on
the stored version. -/
theorem accepts_iff (linear : history.Linear) (write : StoreWrite) :
    (∃ record, (write.perform history.store).2 = .ok record) ↔
      write.trace.id = write.id ∧
        write.expected = history.store.version write.id := by
  rw [StoreWrite.perform_eq_write, ← linear.isBase_iff]
  constructor
  · rintro ⟨record, accepted⟩
    obtain ⟨sameId, isBase, _⟩ := TraceStore.write_of_accepted accepted
    exact ⟨sameId, isBase⟩
  · rintro ⟨sameId, isBase⟩
    refine ⟨⟨write.trace, write.expected + 1⟩, ?_⟩
    rw [TraceStore.write,
      TraceStore.written?_eq_ok_iff.mpr ⟨sameId, isBase, rfl⟩]

theorem next_of_refused
    (linear : history.Linear) {write : StoreWrite} {error : StoreError}
    (refused : (write.perform history.store).2 = .error error) :
    (history.next write).Linear := by
  have unchanged : (history.next write).store = history.store := by
    rw [StoreWrite.perform_eq_write] at refused
    simp only [next, StoreWrite.perform_eq_write]
    exact TraceStore.write_of_refused refused
  have nothing : ∀ id,
      (history.next write).accepted id = history.accepted id := by
    intro id
    simp [accepted_next, StoreEvent.accepted?, refused]
  refine ⟨?_, ?_, ?_⟩
  · intro id
    rw [nothing id]
    exact linear.numbered id
  · intro id
    rw [nothing id, unchanged]
    exact linear.latest id
  · intro event member record isRecord
    rcases List.mem_append.mp member with before | last
    · exact linear.based event before record isRecord
    · rw [List.mem_singleton.mp last, refused] at isRecord
      cases isRecord

theorem next_of_accepted
    (linear : history.Linear) {write : StoreWrite} {record : StoredTrace}
    (accepted : (write.perform history.store).2 = .ok record) :
    (history.next write).Linear := by
  have answered := accepted
  rw [StoreWrite.perform_eq_write] at answered
  obtain ⟨sameId, isBase, isRecord, left⟩ :=
    TraceStore.write_of_accepted answered
  have isPut : (history.next write).store = history.store.put record := by
    simp only [next, StoreWrite.perform_eq_write]
    exact left
  have underId : record.trace.id = write.id := by
    rw [isRecord]
    exact sameId
  have added : ∀ id,
      (history.next write).accepted id =
        history.accepted id ++ if write.id = id then [record] else [] := by
    intro id
    rw [accepted_next, StoreEvent.accepted?, accepted]
    by_cases same : write.id = id <;> simp [same]
  refine ⟨?_, ?_, ?_⟩
  · intro id
    rw [added id]
    split
    · rename_i same
      have isNext : record.version = (history.accepted id).length + 1 := by
        rw [isRecord, ← linear.version_eq, ← same,
          ← (linear.isBase_iff _ _).mp isBase]
      rw [List.map_append, linear.numbered id, List.length_append,
        List.length_singleton, List.range'_1_concat, List.map_singleton,
        isNext, Nat.add_comm 1]
    · simpa using linear.numbered id
  · intro id
    rw [added id, isPut]
    split
    · rename_i same
      rw [← same, ← underId, TraceStore.get?_put_self]
      simp
    · rename_i different
      rw [TraceStore.get?_put_of_ne _ fun equal =>
        different (equal.trans underId).symm, linear.latest id]
      simp
  · intro event member other isOther
    rcases List.mem_append.mp member with before | last
    · exact linear.based event before other isOther
    · rw [List.mem_singleton.mp last] at isOther ⊢
      rw [accepted] at isOther
      cases isOther
      exact isRecord

/-- One more write keeps what holds of the history. -/
theorem next (linear : history.Linear) (write : StoreWrite) :
    (history.next write).Linear := by
  cases answer : (write.perform history.store).2 with
  | error error => exact linear.next_of_refused answer
  | ok record => exact linear.next_of_accepted answer

theorem ofWrites (writes : List StoreWrite) :
    (StoreHistory.ofWrites writes).Linear := by
  induction writes using List.reverseRecOn with
  | nil => exact start
  | append_singleton earlier write inductionHypothesis =>
      rw [ofWrites_concat]
      exact inductionHypothesis.next write

/-! ## One write for each version -/

theorem countP_takes
    {events : List StoreEvent} (id : String) (expected : Nat)
    (based : ∀ event ∈ events, ∀ record, event.answer = .ok record →
      record = ⟨event.write.trace, event.write.expected + 1⟩) :
    events.countP (StoreEvent.takes id expected) =
      ((events.filterMap (StoreEvent.accepted? id)).map
        StoredTrace.version).count (expected + 1) := by
  induction events with
  | nil => rfl
  | cons event rest inductionHypothesis =>
      have basedRest := inductionHypothesis fun other member =>
        based other (List.mem_cons_of_mem _ member)
      rw [List.countP_cons, List.filterMap_cons, basedRest]
      cases answer : event.answer with
      | error error =>
          simp [StoreEvent.takes, StoreEvent.accepted?, answer, Except.isOk,
            Except.toBool]
      | ok record =>
          have isRecord := based event List.mem_cons_self record answer
          by_cases same : event.write.id = id
          · by_cases sameVersion : event.write.expected = expected
            · simp [StoreEvent.takes, StoreEvent.accepted?, answer,
                Except.isOk, Except.toBool, same, sameVersion, isRecord]
            · simp [StoreEvent.takes, StoreEvent.accepted?, answer,
                Except.isOk, Except.toBool, same, sameVersion, isRecord]
          · simp [StoreEvent.takes, StoreEvent.accepted?, answer,
              Except.isOk, Except.toBool, same]

theorem countP_takes_le_one
    (linear : history.Linear) (id : String) (expected : Nat) :
    history.events.countP (StoreEvent.takes id expected) ≤ 1 := by
  rw [countP_takes id expected linear.based]
  change ((history.accepted id).map StoredTrace.version).count _ ≤ 1
  rw [linear.numbered id]
  exact List.nodup_iff_count_le_one.mp List.nodup_range' _

end Linear

/-- Under every identifier the accepted writes have the versions one, two, three
and so on, and the last of them is what is read. Of the writes that are based on
one version the store accepts one at most, and answers it with the next version.
What it accepts next is exactly what is written under its own identifier and
based on the stored version; what it refuses changes nothing. -/
theorem chain_of_writes (writes : List StoreWrite) :
    let history := ofWrites writes
    (∀ id,
      (history.accepted id).map StoredTrace.version =
          List.range' 1 (history.accepted id).length ∧
        (history.store.get? id).map StoredTrace.trace =
          (history.accepted id).getLast?.map StoredTrace.trace) ∧
      (∀ id expected,
        history.events.countP (StoreEvent.takes id expected) ≤ 1) ∧
      (∀ event ∈ history.events, ∀ record, event.answer = .ok record →
        record = ⟨event.write.trace, event.write.expected + 1⟩) ∧
      ∀ write : StoreWrite,
        ((∃ record, (write.perform history.store).2 = .ok record) ↔
          write.trace.id = write.id ∧
            write.expected = history.store.version write.id) ∧
        ∀ error, (write.perform history.store).2 = .error error →
          (write.perform history.store).1 = history.store := by
  intro history
  have linear : history.Linear := Linear.ofWrites writes
  refine ⟨?_, linear.countP_takes_le_one, linear.based, ?_⟩
  · intro id
    exact ⟨linear.numbered id, by rw [linear.latest id]⟩
  · intro write
    refine ⟨linear.accepts_iff write, ?_⟩
    intro error refused
    rw [StoreWrite.perform_eq_write] at refused ⊢
    exact TraceStore.write_of_refused refused

end StoreHistory

end TraceArchive
