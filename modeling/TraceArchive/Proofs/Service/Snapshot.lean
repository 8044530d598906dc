import TraceArchive.Proofs.Service.ReadBack
import TraceArchive.Proofs.Snapshot.Archive

/-!
# Stores are recovered from snapshots

A snapshot of a store that was filled by requests is restored as the same store
if there is room in it for every assessment. The text of a snapshot has more
levels around an assessment than a request has, so that assessments are accepted
that no snapshot can be restored with. The main statement is
`recovered_from_snapshot`, and `unrecoverable_deepMessage` shows a store that is
lost.
-/

namespace TraceArchive

open Snapshot (Archive Body)

/-- Whether every record of a store can be read from its place in a snapshot.
There are six levels around an assessment in it. -/
def TraceStore.Recoverable (store : TraceStore) : Prop :=
  ∀ record ∈ store.listing, record.Recoverable (Json.depthLimit - 6)

instance (store : TraceStore) : Decidable store.Recoverable :=
  inferInstanceAs (Decidable (∀ record ∈ store.listing, _))

namespace Traffic

variable {Client : Type} [DecidableEq Client]

/-- Whatever requests with messages in either format are made under whatever
settings, in whatever order their calls are answered and whichever of them fail:
a snapshot of the store can be taken at any time, and whoever opens its
directory finds it. If compression loses nothing, restoring it into an empty
store leads to the same store if every version has 64 bits and no assessment has
more than 121 levels, and fails otherwise. -/
theorem recovered_from_snapshot
    (settings : Settings) (requests : Client → Request) (ids : IdSequence)
    (turns : List (Turn Client))
    (received : ∀ client, (requests client).Received)
    (archive : Archive) {time : Int}
    (inRange :
      -9223372036854775808 ≤ time ∧ time < 9223372036854775808)
    (lossless :
      (Body.ofRecords
        ((start settings requests (World.initial ids)).run
          turns).world.store.listing).Lossless) :
    let store :=
      ((start settings requests (World.initial ids)).run turns).world.store
    ∃ reached description,
      archive.takeSnapshot time store = (reached, .ok description) ∧
        Archive.ofDirectory reached.directory = .ok reached ∧
          reached.restoreInto .empty =
            if store.Recoverable then .ok (store, some description)
            else .error .unreadable := by
  intro store
  have ofRun := restorable_of_run settings requests ids turns received
  have ofListing :
      ∀ record ∈ store.listing,
        record.trace.WellFormed settings ∧ record.trace.Restorable := by
    intro record member
    obtain ⟨id, stored⟩ := TraceStore.exists_of_mem_listing member
    exact (ofRun id record stored).2
  have same : TraceStore.empty.restore store.listing = store :=
    TraceStore.restore_listing fun id record stored =>
      (ofRun id record stored).1
  obtain ⟨reached, description, taken, isDescription, holds⟩ :=
    archive.holds_takeSnapshot time store
  have bounded : description.Bounded :=
    isDescription ▸ Archive.bounded_describe inRange lossless
  refine ⟨reached, description, taken, holds.ofDirectory bounded, ?_⟩
  split
  · rename_i recoverable
    have read :=
      Body.ofBytes_toBytes lossless
        (fun record member => (ofListing record member).1.sound)
        (fun record member => (ofListing record member).2.proper) recoverable
    rw [holds.restoreInto_of_read read, Body.ofRecords, same]
  · rename_i deep
    have unread :=
      Body.ofBytes_toBytes_of_not_recoverable lossless
        (fun record member => (ofListing record member).2.assessments) deep
    exact holds.restoreInto_of_unread unread .empty

/-- Lists inside each other around `null`. -/
def nestedLists : Nat → Json
  | 0 => .null
  | levels + 1 => .list [nestedLists levels]

theorem readable_nestedLists (levels : Nat) :
    Json.Readable levels (nestedLists levels) := by
  induction levels with
  | zero => trivial
  | succ levels inductionHypothesis =>
      exact ⟨Nat.succ_pos levels, inductionHypothesis, trivial⟩

/-- A message with one span and an assessment that has one level more than the
lists in it. -/
def assessedMessage (levels : Nat) : Wire.Trace :=
  { zeroMessage with
    info := zeroMessage.info.map fun info =>
      { info with assessments := [.object [("note", nestedLists levels)]] } }

theorem received_assessedMessage {levels : Nat} (few : levels < 124) :
    (Request.submit none (assessedMessage levels)).Received := by
  have readable :
      Json.Readable 124 (.object [("note", nestedLists levels)]) :=
    ⟨by decide, List.pairwise_singleton _ _,
      (readable_nestedLists levels).mono _ (by omega), trivial⟩
  have legible : (assessedMessage levels).Legible := by
    constructor
    · rintro _ ⟨⟩
      exact
        ⟨List.forall_mem_nil _, List.forall_mem_singleton.mpr readable,
          List.forall_mem_nil _⟩
    · exact legible_zeroMessage.spans
  exact ⟨.json, _, Wire.Format.decode_encodeMessage legible⟩

/-- The store after that message was submitted. -/
def assessedStore (levels : Nat) : TraceStore :=
  ((start {} (fun _ : Unit => .submit none (assessedMessage levels))
      (World.initial (.start 0))).run
    (List.replicate 6 { client := () })).world.store

/-- The records of a snapshot of that store. -/
def assessedBody (levels : Nat) : Body :=
  Body.ofRecords (assessedStore levels).listing

/-- A store with an assessment of 121 levels is recovered. -/
theorem recovered_assessedMessage :
    (assessedStore 120).size = 1 ∧
      ∃ reached description,
        Archive.takeSnapshot {} 0 (assessedStore 120) =
            (reached, .ok description) ∧
          Archive.ofDirectory reached.directory = .ok reached ∧
            reached.restoreInto .empty =
              .ok (assessedStore 120, some description) := by
  have evaluated :
      (assessedStore 120).size = 1 ∧ (assessedStore 120).Recoverable ∧
        4 * (assessedBody 120).toJson.characters.length < Nat.pow 2 32 := by
    decide +kernel
  obtain ⟨single, recoverable, short⟩ := evaluated
  have lossless : (assessedBody 120).Lossless := Body.lossless_of_length short
  have inRange :
      (-9223372036854775808 : Int) ≤ 0 ∧ (0 : Int) < 9223372036854775808 := by
    decide
  obtain ⟨reached, description, taken, opened, restored⟩ :=
    recovered_from_snapshot {} _ (.start 0) _
      (fun _ : Unit => received_assessedMessage (by decide : 120 < 124)) {}
      inRange lossless
  refine ⟨single, reached, description, taken, opened, ?_⟩
  exact restored.trans (if_pos recoverable)

/-- A store with an assessment of 122 levels is lost, though the assessment was
accepted and nothing is lost by compression. -/
theorem unrecoverable_deepMessage :
    (Request.submit none (assessedMessage 121)).Received ∧
      (assessedStore 121).size = 1 ∧ (assessedBody 121).Lossless ∧
        ∃ reached description,
          Archive.takeSnapshot {} 0 (assessedStore 121) =
              (reached, .ok description) ∧
            reached.restoreInto .empty = .error .unreadable := by
  have evaluated :
      (assessedStore 121).size = 1 ∧
        (∀ record ∈ (assessedStore 121).listing, record.Recoverable 124) ∧
          ¬ (assessedStore 121).Recoverable ∧
            4 * (assessedBody 121).toJson.characters.length <
              Nat.pow 2 32 := by
    decide +kernel
  obtain ⟨single, readable, deep, short⟩ := evaluated
  have lossless : (assessedBody 121).Lossless := Body.lossless_of_length short
  obtain ⟨reached, description, taken, -, holds⟩ :=
    Archive.holds_takeSnapshot {} 0 (assessedStore 121)
  have unread :=
    Body.ofBytes_toBytes_of_not_recoverable lossless
      (fun record member => (readable record member).assessments) deep
  exact
    ⟨received_assessedMessage (by decide), single, lossless, reached,
      description, taken, holds.restoreInto_of_unread unread .empty⟩

end Traffic

end TraceArchive
