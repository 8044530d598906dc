import Mathlib.Logic.Function.Basic
import TraceArchive.Proofs.Snapshot.Interruption
import TraceArchive.Proofs.Snapshot.Stages
import TraceArchive.Proofs.Store.Listing

/-!
# Snapshots that overlap

Two snapshots of one archive may be under way at once while the store is written
to. They share the drafts and the places of their files, and nothing keeps one
of them from putting older records in the place of newer ones. What a restart
finds are the records of the snapshot that was the last to write a draft of
them. So nothing is lost exactly if that one was also the last to read the
store, or if nothing was written between the two readings. The main statement is
`Overlap.restart_of_ended`, and `Overlap.lost_to_lateSides` shows an update that
is lost.
-/

namespace TraceArchive.Snapshot

/-! ## Two snapshots at once -/

/-- One of two snapshots. -/
inductive Side where
  | left
  | right
deriving DecidableEq, Repr

theorem Side.eq_of_ne
    {first second third : Side}
    (firstDiffers : first ≠ third) (secondDiffers : second ≠ third) :
    first = second := by
  cases first <;> cases second <;> cases third <;> trivial

/-- Two snapshots of one archive and the store that they are of. -/
structure Overlap where
  store : TraceStore
  archive : Archive
  /-- When each snapshot was begun. -/
  time : Side → Int
  /-- What each snapshot does next. -/
  stage : Side → Archive.Stage
  /-- What each snapshot has read of the store. -/
  read : Side → TraceStore
  /-- The snapshot that was the last to read the store. -/
  lastReader? : Option Side
  /-- The snapshot that was the last to write a draft of its records. -/
  lastWriter? : Option Side

/-- What can happen while two snapshots are under way. -/
inductive Move where
  /-- Somebody writes to the store. -/
  | write (attempt : StoreWrite)
  /-- A snapshot takes its next step. -/
  | proceed (side : Side)

namespace Overlap

/-- Two snapshots that are begun and have done nothing yet. -/
def start (archive : Archive) (store : TraceStore) (time : Side → Int) :
    Overlap where
  store := store
  archive := archive
  time := time
  stage side := .readRecords (time side)
  read _ := store
  lastReader? := none
  lastWriter? := none

/-- The next step of a snapshot. -/
def proceed (overlap : Overlap) (side : Side) : Overlap where
  store := overlap.store
  archive := (overlap.archive.advance overlap.store (overlap.stage side)).1
  time := overlap.time
  stage :=
    Function.update overlap.stage side
      (overlap.archive.advance overlap.store (overlap.stage side)).2
  read :=
    match overlap.stage side with
    | .readRecords _ => Function.update overlap.read side overlap.store
    | _ => overlap.read
  lastReader? :=
    match overlap.stage side with
    | .readRecords _ => some side
    | _ => overlap.lastReader?
  lastWriter? :=
    match overlap.stage side with
    | .draftBody _ _ => some side
    | _ => overlap.lastWriter?

/-- What is after a move. -/
def after (overlap : Overlap) : Move → Overlap
  | .write attempt =>
      { overlap with store := (attempt.perform overlap.store).1 }
  | .proceed side => overlap.proceed side

/-- What is after moves. -/
def run (overlap : Overlap) (moves : List Move) : Overlap :=
  moves.foldl after overlap

/-- What every move keeps holds after any moves. -/
theorem keeps_run
    {Holds : Overlap → Prop}
    (ofMove : ∀ overlap move, Holds overlap → Holds (overlap.after move))
    {overlap : Overlap} (holds : Holds overlap) (moves : List Move) :
    Holds (overlap.run moves) := by
  induction moves generalizing overlap with
  | nil => exact holds
  | cons move rest inductionHypothesis =>
      exact inductionHypothesis (ofMove overlap move holds)

/-- The files of the archive. -/
def directory (overlap : Overlap) : Directory :=
  overlap.archive.directory

/-- The bytes of the records that a snapshot has read. -/
def bytes (overlap : Overlap) (side : Side) : List UInt8 :=
  (Body.ofRecords (overlap.read side).listing).toBytes

/-- The description of a snapshot. -/
def description (overlap : Overlap) (side : Side) : Description :=
  Archive.describe (overlap.time side) (overlap.read side).listing
    (overlap.bytes side)

/-! ## One step -/

section Step

variable {overlap : Overlap} {side other : Side}

theorem directory_proceed :
    (overlap.proceed side).directory =
      (overlap.archive.advance overlap.store
        (overlap.stage side)).1.directory :=
  rfl

theorem stage_proceed_self (overlap : Overlap) (side : Side) :
    (overlap.proceed side).stage side =
      (overlap.archive.advance overlap.store (overlap.stage side)).2 :=
  Function.update_self side _ _

theorem stage_proceed_of_ne (different : other ≠ side) :
    (overlap.proceed side).stage other = overlap.stage other :=
  Function.update_of_ne different _ _

theorem proceed_readRecords
    {time : Int} (isStage : overlap.stage side = .readRecords time) :
    (overlap.proceed side).read =
        Function.update overlap.read side overlap.store ∧
      (overlap.proceed side).lastReader? = some side := by
  simp only [proceed, isStage, and_self]

theorem advances (overlap : Overlap) (side : Side) :
    Archive.Advances overlap.archive overlap.store (overlap.stage side)
      (overlap.proceed side).archive ((overlap.proceed side).stage side) := by
  rw [stage_proceed_self]
  exact Archive.advances overlap.archive overlap.store (overlap.stage side)

/-- A step that does not read the store leaves what was read as it is. -/
theorem reading_proceed (hasRead : (overlap.stage side).HasRead) :
    (overlap.proceed side).read = overlap.read ∧
      (overlap.proceed side).lastReader? = overlap.lastReader? := by
  unfold proceed
  cases isStage : overlap.stage side with
  | readRecords time =>
      rw [isStage] at hasRead
      cases hasRead
  | _ => exact ⟨rfl, rfl⟩

/-- A snapshot reads the store once. -/
theorem read_proceed (hasRead : (overlap.stage other).HasRead) :
    (overlap.proceed side).read other = overlap.read other := by
  by_cases same : other = side
  · subst same
    rw [(reading_proceed hasRead).1]
  · unfold proceed
    cases overlap.stage side with
    | readRecords time => exact Function.update_of_ne same _ _
    | _ => rfl

theorem bytes_proceed (hasRead : (overlap.stage other).HasRead) :
    (overlap.proceed side).bytes other = overlap.bytes other := by
  rw [bytes, read_proceed hasRead, bytes]

theorem description_proceed (hasRead : (overlap.stage other).HasRead) :
    (overlap.proceed side).description other = overlap.description other := by
  rw [description, bytes_proceed hasRead, read_proceed hasRead, description]
  rfl

/-- What the step keeps of its own snapshot it keeps of both. -/
theorem keeps_proceed
    {Holds : Archive.Stage → Prop}
    (ofOwn :
      Holds (overlap.stage side) → Holds ((overlap.proceed side).stage side))
    (holds : Holds (overlap.stage other)) :
    Holds ((overlap.proceed side).stage other) := by
  by_cases same : other = side
  · subst same
    exact ofOwn holds
  · rw [stage_proceed_of_ne same]
    exact holds

theorem hasRead_proceed (hasRead : (overlap.stage other).HasRead) :
    ((overlap.proceed side).stage other).HasRead :=
  keeps_proceed (fun _ => (overlap.advances side).hasRead) hasRead

theorem hasDrafted_proceed (drafted : (overlap.stage other).HasDrafted) :
    ((overlap.proceed side).stage other).HasDrafted :=
  keeps_proceed
    (fun ownDrafted => (overlap.advances side).hasDrafted ownDrafted.hasRead)
    drafted

theorem hasSucceeded_proceed (succeeded : (overlap.stage other).HasSucceeded) :
    ((overlap.proceed side).stage other).HasSucceeded :=
  keeps_proceed (overlap.advances side).hasSucceeded succeeded

/-- What is new of a snapshot after the step is due to the step. -/
theorem stage_of_proceed
    {Holds : Archive.Stage → Prop} {Due : Prop}
    (ofOwn :
      Holds ((overlap.proceed side).stage side) →
        Holds (overlap.stage side) ∨ Due)
    (holds : Holds ((overlap.proceed side).stage other)) :
    Holds (overlap.stage other) ∨ Due := by
  by_cases same : other = side
  · subst same
    exact ofOwn holds
  · rw [stage_proceed_of_ne same] at holds
    exact Or.inl holds

theorem stage_of_hasDrafted_proceed
    (drafted : ((overlap.proceed side).stage other).HasDrafted) :
    (overlap.stage other).HasDrafted ∨
      ∃ time records, overlap.stage side = .draftBody time records :=
  stage_of_proceed (overlap.advances side).stage_of_hasDrafted drafted

theorem stage_of_hasSucceeded_proceed
    (succeeded : ((overlap.proceed side).stage other).HasSucceeded) :
    (overlap.stage other).HasSucceeded ∨
      ∃ description, overlap.stage side = .publishDescription description :=
  stage_of_proceed (overlap.advances side).stage_of_hasSucceeded succeeded

end Step

/-! ## What is read -/

/-- What holds of the store and what the snapshots have read of it. -/
structure ReadsInOrder (overlap : Overlap) : Prop where
  keyed : overlap.store.Keyed
  readKeyed : ∀ side, (overlap.read side).Keyed
  grows : ∀ side, TraceStore.Grows (overlap.read side) overlap.store
  /-- The last reader has all that another has read. -/
  last : ∀ last, overlap.lastReader? = some last →
    ∀ side, TraceStore.Grows (overlap.read side) (overlap.read last)
  reader : ∀ side, (overlap.stage side).HasRead →
    ∃ last, overlap.lastReader? = some last

theorem readsInOrder_start
    (archive : Archive) {store : TraceStore} (time : Side → Int)
    (keyed : store.Keyed) : (start archive store time).ReadsInOrder where
  keyed := keyed
  readKeyed _ := keyed
  grows _ := TraceStore.Grows.refl store
  last _ isLast := by cases isLast
  reader _ hasRead := by cases hasRead

namespace ReadsInOrder

variable {overlap : Overlap} (inOrder : overlap.ReadsInOrder)

include inOrder

theorem write (attempt : StoreWrite) :
    (overlap.after (.write attempt)).ReadsInOrder where
  keyed := by
    rw [after, StoreWrite.perform_eq_write]
    exact inOrder.keyed.write attempt.id attempt.expected attempt.trace
  readKeyed := inOrder.readKeyed
  grows side := by
    rw [after, StoreWrite.perform_eq_write]
    exact (inOrder.grows side).trans
      (TraceStore.grows_write overlap.store attempt.id attempt.expected
        attempt.trace)
  last := inOrder.last
  reader := inOrder.reader

theorem proceed (side : Side) : (overlap.proceed side).ReadsInOrder := by
  by_cases hasRead : (overlap.stage side).HasRead
  · obtain ⟨sameRead, sameLast⟩ := reading_proceed hasRead
    obtain ⟨last, isLast⟩ := inOrder.reader side hasRead
    refine ⟨inOrder.keyed, ?_, ?_, ?_, ?_⟩
    · rw [sameRead]
      exact inOrder.readKeyed
    · rw [sameRead]
      exact inOrder.grows
    · rw [sameRead, sameLast]
      exact inOrder.last
    · intro other _
      exact ⟨last, sameLast.trans isLast⟩
  · obtain ⟨time, isStage⟩ := Archive.Stage.exists_of_not_hasRead hasRead
    obtain ⟨isRead, isLast⟩ := proceed_readRecords isStage
    have readSelf : (overlap.proceed side).read side = overlap.store := by
      rw [isRead, Function.update_self]
    have readOther :
        ∀ other, other ≠ side →
          (overlap.proceed side).read other = overlap.read other := by
      intro other different
      rw [isRead, Function.update_of_ne different]
    have grows :
        ∀ other,
          TraceStore.Grows ((overlap.proceed side).read other)
            overlap.store := by
      intro other
      by_cases same : other = side
      · rw [same, readSelf]
        exact TraceStore.Grows.refl overlap.store
      · rw [readOther other same]
        exact inOrder.grows other
    refine ⟨inOrder.keyed, ?_, grows, ?_, ?_⟩
    · intro other
      by_cases same : other = side
      · rw [same, readSelf]
        exact inOrder.keyed
      · rw [readOther other same]
        exact inOrder.readKeyed other
    · intro last isReader other
      rw [isLast] at isReader
      cases isReader
      rw [readSelf]
      exact grows other
    · intro _ _
      exact ⟨side, isLast⟩

theorem after (move : Move) : (overlap.after move).ReadsInOrder := by
  cases move with
  | write attempt => exact inOrder.write attempt
  | proceed side => exact inOrder.proceed side

theorem run (moves : List Move) : (overlap.run moves).ReadsInOrder :=
  keeps_run (fun _ move before => before.after move) inOrder moves

/-- A snapshot has read everything that another has read exactly if it was the
last reader or both have read the same. -/
theorem retains_iff
    {side last : Side} (hasRead : (overlap.stage side).HasRead) :
    (overlap.read last).Retains (overlap.read side) ↔
      overlap.lastReader? = some last ∨
        overlap.read side = overlap.read last := by
  constructor
  · intro retains
    obtain ⟨reader, isReader⟩ := inOrder.reader side hasRead
    by_cases isLast : reader = last
    · exact Or.inl (isLast ▸ isReader)
    · right
      by_cases same : side = last
      · rw [same]
      · have isSide : reader = side := Side.eq_of_ne isLast same
        have grows := inOrder.last reader isReader last
        rw [isSide] at grows
        exact grows.eq_of_retains retains
  · rintro (isReader | same)
    · exact (inOrder.last last isReader side).retains
    · rw [same]
      exact (TraceStore.Grows.refl (overlap.read last)).retains

end ReadsInOrder

/-! ## What is in the files -/

/-- Whether the draft of a snapshot's records waits to be put in its place by
that snapshot, or is in its place and the snapshot that put it there has not
failed. -/
def KeepsRecords (overlap : Overlap) (last : Side) : Prop :=
  (overlap.stage last).HasDrafted ∧
    ((overlap.directory.bodyDraft = some (overlap.bytes last) ∧
        (overlap.stage last).IsPending) ∨
      (overlap.directory.bodyDraft = none ∧
        overlap.directory.body = some (overlap.bytes last) ∧
          ∃ side, (overlap.stage side).HasPublished))

/-- Whether there is a draft of a description, or none because a snapshot was
taken with it. -/
def KeepsDraft (overlap : Overlap) : Prop :=
  (∃ side, (overlap.stage side).HasRead ∧
      overlap.directory.descriptionDraft =
        some (overlap.description side).toBytes) ∨
    (overlap.directory.descriptionDraft = none ∧
      ∃ side, (overlap.stage side).HasSucceeded)

/-- Whether the description in its place is that of one of the snapshots. -/
def KeepsDescription (overlap : Overlap) : Prop :=
  ∃ side, (overlap.stage side).HasRead ∧
    overlap.directory.description = some (overlap.description side).toBytes

/-- A step that is not about the files of the description keeps them. -/
theorem KeepsDraft.elsewhere
    {overlap : Overlap} {side : Side} (kept : overlap.KeepsDraft)
    (elsewhere : ¬ (overlap.stage side).HandlesDescription) :
    (overlap.proceed side).KeepsDraft := by
  have sameDraft := (overlap.advances side).descriptionDraft elsewhere
  unfold KeepsDraft
  rw [directory, sameDraft]
  rcases kept with ⟨other, hasRead, isDraft⟩ | ⟨noDraft, taken, succeeded⟩
  · refine Or.inl ⟨other, hasRead_proceed hasRead, ?_⟩
    rw [description_proceed hasRead]
    exact isDraft
  · exact Or.inr ⟨noDraft, taken, hasSucceeded_proceed succeeded⟩

theorem KeepsDescription.elsewhere
    {overlap : Overlap} {side : Side} (kept : overlap.KeepsDescription)
    (sameFile :
      (overlap.proceed side).directory.description =
        overlap.directory.description) :
    (overlap.proceed side).KeepsDescription := by
  obtain ⟨other, hasRead, isDescription⟩ := kept
  refine ⟨other, hasRead_proceed hasRead, ?_⟩
  rw [sameFile, description_proceed hasRead]
  exact isDescription

/-- What holds of the files while the snapshots are under way. -/
structure KeepsFiles (overlap : Overlap) : Prop where
  goesOn : ∀ side,
    (overlap.stage side).GoesOnWith (overlap.time side) (overlap.read side)
  writer : ∀ side, (overlap.stage side).HasDrafted →
    ∃ last, overlap.lastWriter? = some last
  records : ∀ last, overlap.lastWriter? = some last →
    overlap.KeepsRecords last
  draft : ∀ side description,
    overlap.stage side = .publishDescription description → overlap.KeepsDraft
  description : ∀ side, (overlap.stage side).HasSucceeded →
    overlap.KeepsDescription

theorem keepsFiles_start
    (archive : Archive) (store : TraceStore) (time : Side → Int) :
    (start archive store time).KeepsFiles where
  goesOn _ := rfl
  writer _ drafted := by cases drafted
  records _ isLast := by cases isLast
  draft _ _ isStage := by cases isStage
  description _ succeeded := by cases succeeded

namespace KeepsFiles

variable {overlap : Overlap} (keeps : overlap.KeepsFiles)

include keeps

theorem goesOn_proceed (side other : Side) :
    ((overlap.proceed side).stage other).GoesOnWith
      ((overlap.proceed side).time other)
      ((overlap.proceed side).read other) := by
  have goesOn := keeps.goesOn other
  by_cases hasRead : (overlap.stage other).HasRead
  · rw [read_proceed hasRead]
    by_cases same : other = side
    · subst same
      exact (overlap.advances other).goesOnWith hasRead goesOn
    · rw [stage_proceed_of_ne same]
      exact goesOn
  · obtain ⟨time, isStage⟩ := Archive.Stage.exists_of_not_hasRead hasRead
    rw [isStage] at goesOn
    by_cases same : other = side
    · subst same
      rw [stage_proceed_self, isStage, (proceed_readRecords isStage).1,
        Function.update_self]
      exact ⟨goesOn, rfl⟩
    · rw [stage_proceed_of_ne same, isStage]
      exact goesOn

theorem exists_published_proceed
    (side : Side) (published : ∃ other, (overlap.stage other).HasPublished) :
    ∃ other, ((overlap.proceed side).stage other).HasPublished := by
  obtain ⟨other, published⟩ := published
  by_cases same : other = side
  · subst same
    have next := stage_proceed_self overlap other
    cases isStage : overlap.stage other with
    | draftDescription description =>
        rw [isStage] at next
        exact ⟨other, next ▸ trivial⟩
    | publishDescription description =>
        rcases keeps.draft other description isStage with
          ⟨_, -, isDraft⟩ | ⟨-, taken, succeeded⟩
        · rw [isStage, Archive.advance_publishDescription isDraft] at next
          exact ⟨other, next ▸ trivial⟩
        · -- The draft is gone, so this one fails, but with the draft another
          -- snapshot was taken.
          exact
            ⟨taken,
              Archive.Stage.HasSucceeded.hasPublished
                (hasSucceeded_proceed succeeded)⟩
    | finished result =>
        rw [isStage] at next published
        exact ⟨other, next ▸ published⟩
    | _ =>
        rw [isStage] at published
        cases published
  · exact ⟨other, (stage_proceed_of_ne same).symm ▸ published⟩

/-- A step that is not about the files of the records keeps them. -/
theorem records_elsewhere
    {side last : Side}
    (elsewhere : ¬ (overlap.stage side).HandlesRecords)
    (kept : overlap.KeepsRecords last) :
    (overlap.proceed side).KeepsRecords last := by
  obtain ⟨sameBody, sameDraft⟩ := (overlap.advances side).recordFiles elsewhere
  obtain ⟨drafted, kept⟩ := kept
  refine ⟨hasDrafted_proceed drafted, ?_⟩
  rw [bytes_proceed drafted.hasRead, directory, sameBody, sameDraft]
  rcases kept with ⟨isDraft, pending⟩ | ⟨noDraft, isBody, published⟩
  · have different : last ≠ side := by
      rintro rfl
      exact elsewhere pending.handlesRecords
    rw [stage_proceed_of_ne different]
    exact Or.inl ⟨isDraft, pending⟩
  · exact
      Or.inr ⟨noDraft, isBody, keeps.exists_published_proceed side published⟩

theorem records_proceed
    {side last : Side}
    (isLast : (overlap.proceed side).lastWriter? = some last) :
    (overlap.proceed side).KeepsRecords last := by
  have next := stage_proceed_self overlap side
  cases isStage : overlap.stage side with
  | draftBody time records =>
      have goesOn := keeps.goesOn side
      have hasRead : (overlap.stage side).HasRead := by
        rw [isStage]
        trivial
      simp only [Overlap.proceed, isStage] at isLast
      cases isLast
      rw [isStage] at goesOn next
      obtain ⟨rfl, rfl⟩ := goesOn
      refine ⟨next ▸ trivial, Or.inl ⟨?_, next ▸ trivial⟩⟩
      rw [bytes_proceed hasRead, directory_proceed, isStage]
      rfl
  | publishBody description =>
      simp only [Overlap.proceed, isStage] at isLast
      obtain ⟨drafted, kept⟩ := keeps.records last isLast
      refine ⟨hasDrafted_proceed drafted, Or.inr ?_⟩
      rw [bytes_proceed drafted.hasRead, directory_proceed, isStage]
      rcases kept with ⟨isDraft, -⟩ | ⟨noDraft, isBody, published⟩
      · -- Whichever snapshot this is, the draft is that of the last writer.
        rw [isStage, Archive.advance_publishBody isDraft] at next
        rw [Archive.advance_publishBody isDraft]
        exact ⟨rfl, rfl, side, next ▸ trivial⟩
      · rw [Archive.advance_publishBody_of_none noDraft]
        exact
          ⟨noDraft, isBody, keeps.exists_published_proceed side published⟩
  | _ =>
      have elsewhere : ¬ (overlap.stage side).HandlesRecords := by
        rw [isStage]
        exact id
      simp only [Overlap.proceed, isStage] at isLast
      exact keeps.records_elsewhere elsewhere (keeps.records last isLast)

theorem writer_proceed
    {side other : Side}
    (drafted : ((overlap.proceed side).stage other).HasDrafted) :
    ∃ last, (overlap.proceed side).lastWriter? = some last := by
  rcases stage_of_hasDrafted_proceed drafted with
    drafted | ⟨time, records, isStage⟩
  · cases isStage : overlap.stage side with
    | draftBody time records =>
        exact ⟨side, by simp only [Overlap.proceed, isStage]⟩
    | _ =>
        simp only [Overlap.proceed, isStage]
        exact keeps.writer other drafted
  · exact ⟨side, by simp only [Overlap.proceed, isStage]⟩

theorem draft_proceed
    {side other : Side} {description : Description}
    (isNext :
      (overlap.proceed side).stage other = .publishDescription description) :
    (overlap.proceed side).KeepsDraft := by
  have next := stage_proceed_self overlap side
  cases isStage : overlap.stage side with
  | draftDescription drafted =>
      have goesOn := keeps.goesOn side
      have hasRead : (overlap.stage side).HasRead := by
        rw [isStage]
        trivial
      refine Or.inl ⟨side, hasRead_proceed hasRead, ?_⟩
      rw [isStage] at goesOn
      rw [description_proceed hasRead, directory_proceed, isStage, goesOn]
      rfl
  | publishDescription own =>
      right
      rw [directory_proceed, isStage]
      rcases keeps.draft side own isStage with
        ⟨_, -, isDraft⟩ | ⟨noDraft, taken, succeeded⟩
      · rw [isStage, Archive.advance_publishDescription isDraft] at next
        rw [Archive.advance_publishDescription isDraft]
        exact ⟨rfl, side, next ▸ trivial⟩
      · rw [Archive.advance_publishDescription_of_none noDraft]
        exact ⟨noDraft, taken, hasSucceeded_proceed succeeded⟩
  | _ =>
      have elsewhere : ¬ (overlap.stage side).HandlesDescription := by
        rw [isStage]
        exact id
      have different : other ≠ side := by
        rintro rfl
        have before :=
          (overlap.advances other).stage_of_publishDescription isNext
        rw [isStage] at before
        cases before
      rw [stage_proceed_of_ne different] at isNext
      exact (keeps.draft other description isNext).elsewhere elsewhere

theorem isDescribed_proceed
    {side other : Side}
    (succeeded : ((overlap.proceed side).stage other).HasSucceeded) :
    (overlap.proceed side).KeepsDescription := by
  by_cases publishes :
      ∃ description, overlap.stage side = .publishDescription description
  · obtain ⟨own, isStage⟩ := publishes
    rcases keeps.draft side own isStage with
      ⟨drafted, hasRead, isDraft⟩ | ⟨noDraft, taken, succeeded⟩
    · refine ⟨drafted, hasRead_proceed hasRead, ?_⟩
      rw [description_proceed hasRead, directory_proceed, isStage,
        Archive.advance_publishDescription isDraft]
    · refine (keeps.description taken succeeded).elsewhere ?_
      rw [directory_proceed, isStage,
        Archive.advance_publishDescription_of_none noDraft, directory]
  · rcases stage_of_hasSucceeded_proceed succeeded with succeeded | publishing
    · refine (keeps.description other succeeded).elsewhere ?_
      exact (overlap.advances side).description (not_exists.mp publishes)
    · exact absurd publishing publishes

theorem after (move : Move) : (overlap.after move).KeepsFiles := by
  cases move with
  | write attempt =>
      exact
        ⟨keeps.goesOn, keeps.writer, keeps.records, keeps.draft,
          keeps.description⟩
  | proceed side =>
      exact
        ⟨keeps.goesOn_proceed side, fun _ => keeps.writer_proceed,
          fun _ => keeps.records_proceed, fun _ _ => keeps.draft_proceed,
          fun _ => keeps.isDescribed_proceed⟩

theorem run (moves : List Move) : (overlap.run moves).KeepsFiles :=
  keeps_run (fun _ move before => before.after move) keeps moves

end KeepsFiles

/-! ## What is restored -/

theorem time_run (overlap : Overlap) (moves : List Move) :
    (overlap.run moves).time = overlap.time := by
  have ofMove :
      ∀ (later : Overlap) (move : Move),
        later.time = overlap.time → (later.after move).time = overlap.time := by
    intro later move sameTime
    cases move <;> exact sameTime
  exact keeps_run ofMove rfl moves

section Ended

variable {overlap : Overlap} (inOrder : overlap.ReadsInOrder)
  (keeps : overlap.KeepsFiles)
  (inRange : ∀ side,
    -9223372036854775808 ≤ overlap.time side ∧
      overlap.time side < 9223372036854775808)
  (ended : ∀ side, (overlap.stage side).HasEnded)
  (lossless : ∀ side, (Body.ofRecords (overlap.read side).listing).Lossless)
  (readsBack : ∀ side, ∀ record ∈ (overlap.read side).listing,
    record.ReadsBack)

include inOrder keeps inRange ended lossless readsBack

/-- Once both have ended, a restart finds what the last writer has read. -/
theorem exists_restart_eq :
    (∃ side, (overlap.stage side).HasSucceeded) ∧
      ∃ last, overlap.lastWriter? = some last ∧
        overlap.directory.restart = .ok (overlap.read last) := by
  obtain ⟨last, isLast⟩ := keeps.writer .left (ended .left).hasDrafted
  obtain ⟨-, ⟨-, pending⟩ | ⟨-, isBody, side, published⟩⟩ :=
    keeps.records last isLast
  · exact absurd (ended last) pending.not_hasEnded
  · have succeeded : (overlap.stage side).HasSucceeded :=
      published.hasSucceeded (ended side)
    obtain ⟨described, -, isDescription⟩ := keeps.description side succeeded
    let taking (each : Side) : Taking :=
      ⟨overlap.time each, overlap.read each, inRange each,
        inOrder.readKeyed each⟩
    have describedLossless : (taking described).Lossless := lossless described
    have restored : overlap.directory.restart = .ok (taking last).store :=
      restart_of_readsBack describedLossless (lossless last) isDescription
        isBody (readsBack last)
    exact ⟨⟨side, succeeded⟩, last, isLast, restored⟩

end Ended

/-- Two snapshots are begun, at times that have 64 bits, and take their steps in
any order, while anything is written to the store. Once both have ended, one of
them is taken, and if compression loses nothing and every record by itself is
read as it was written, then a restart finds what the last of them to write a
draft of its records has read. That has every record that a snapshot has read,
in the same version or a later one, if the last writer was the last reader as
well or nothing was written between the two readings, and otherwise it has
not. -/
theorem restart_of_ended
    (archive : Archive) {store : TraceStore} {time : Side → Int}
    (moves : List Move) {overlap : Overlap}
    (isReached : (start archive store time).run moves = overlap)
    (keyed : store.Keyed)
    (inRange : ∀ side,
      -9223372036854775808 ≤ time side ∧ time side < 9223372036854775808)
    (ended : ∀ side, (overlap.stage side).HasEnded)
    (lossless : ∀ side, (Body.ofRecords (overlap.read side).listing).Lossless)
    (readsBack : ∀ side, ∀ record ∈ (overlap.read side).listing,
      record.ReadsBack) :
    (∃ side, (overlap.stage side).HasSucceeded) ∧
      ∃ last, overlap.lastWriter? = some last ∧
        overlap.directory.restart = .ok (overlap.read last) ∧
          ∀ side,
            (overlap.read last).Retains (overlap.read side) ↔
              overlap.lastReader? = some last ∨
                overlap.read side = overlap.read last := by
  subst isReached
  have inOrder := (readsInOrder_start archive time keyed).run moves
  have keeps := (keepsFiles_start archive store time).run moves
  have sameTime : ((start archive store time).run moves).time = time :=
    time_run _ moves
  rw [← sameTime] at inRange
  obtain ⟨succeeded, last, isLast, restored⟩ :=
    exists_restart_eq inOrder keeps inRange ended lossless readsBack
  exact
    ⟨succeeded, last, isLast, restored, fun side =>
      inOrder.retains_iff (ended side).hasDrafted.hasRead⟩

/-! ## Two snapshots of one record -/

/-- The record without spans after an update. -/
def updatedRecord : StoredTrace :=
  { spanlessRecord with version := 2 }

/-- The record as each snapshot reads it. -/
def recordOf : Side → StoredTrace
  | .left => spanlessRecord
  | .right => updatedRecord

/-- The left snapshot reads the record, it is updated, and both snapshots go
on. -/
def updateMoves (sides : List Side) : List Move :=
  .proceed .left :: .write (.swap "0a" 1 spanlessRecord.trace) ::
    sides.map .proceed

/-- What is reached from a store with the record. -/
def afterUpdate (sides : List Side) : Overlap :=
  (start {} spanlessTaking.store fun _ => 60000).run (updateMoves sides)

/-- The right snapshot is taken before the left one goes on. -/
def lateSides : List Side :=
  [.right, .right, .right, .right, .right, .left, .left, .left, .left]

/-- The right snapshot is the last to write a draft of its records, and the left
one puts it in its place. -/
def sharedSides : List Side :=
  [.right, .left, .right, .left, .left, .left, .right]

theorem lossless_recordOf (side : Side) :
    (Body.ofRecords
      (TraceStore.empty.put (recordOf side)).listing).Lossless := by
  refine Body.lossless_of_length ?_
  cases side <;> decide +kernel

theorem readsBack_recordOf (side : Side) :
    ∀ record ∈ (TraceStore.empty.put (recordOf side)).listing,
      record.ReadsBack := by
  have isListing :
      (TraceStore.empty.put (recordOf side)).listing = [recordOf side] :=
    rfl
  rw [isListing, List.forall_mem_singleton]
  cases side <;>
    exact
      StoredTrace.readsBack_of_recoverable (List.forall_mem_nil _)
        (List.forall_mem_nil _) ⟨by decide, List.forall_mem_nil _⟩

/-- The right snapshot fails, but a restart finds its records, which are the
later ones. -/
theorem restart_sharedSides :
    let overlap := afterUpdate sharedSides
    overlap.directory.restart = .ok (TraceStore.empty.put updatedRecord) ∧
      ∀ side,
        (TraceStore.empty.put updatedRecord).Retains (overlap.read side) := by
  have isReached :
      (start {} spanlessTaking.store fun _ => 60000).run
          (updateMoves sharedSides) =
        afterUpdate sharedSides :=
    rfl
  have isRead :
      ∀ side,
        (afterUpdate sharedSides).read side =
          TraceStore.empty.put (recordOf side) := by
    intro side
    cases side <;> rfl
  have ended : ∀ side, ((afterUpdate sharedSides).stage side).HasEnded := by
    intro side
    cases side <;> exact True.intro
  obtain ⟨-, last, isLast, restored, retains⟩ :=
    restart_of_ended {} _ isReached spanlessTaking.keyed
      (fun _ => spanlessTaking.inRange) ended
      (fun side => isRead side ▸ lossless_recordOf side)
      (fun side => isRead side ▸ readsBack_recordOf side)
  have isRight : some last = some Side.right := isLast.symm
  cases isRight
  rw [isRead] at restored
  refine ⟨restored, fun side => ?_⟩
  have kept := (retains side).mpr (Or.inl rfl)
  rw [isRead .right] at kept
  exact kept

/-- Both snapshots are taken, but the left one was late: what a restart restores
is without the update that the right one has read. -/
theorem lost_to_lateSides :
    let overlap := afterUpdate lateSides
    (∀ side, (overlap.stage side).HasSucceeded) ∧
      ∃ restored, overlap.directory.restart = .ok restored ∧
        ¬ restored.Retains (overlap.read .right) := by
  have isRead :
      ∀ side,
        (afterUpdate lateSides).read side =
          TraceStore.empty.put (recordOf side) := by
    intro side
    cases side <;> rfl
  have succeeded :
      ∀ side, ((afterUpdate lateSides).stage side).HasSucceeded := by
    intro side
    cases side <;> exact True.intro
  have ended : ∀ side, ((afterUpdate lateSides).stage side).HasEnded := by
    intro side
    cases side <;> exact True.intro
  have inOrder : (afterUpdate lateSides).ReadsInOrder :=
    (readsInOrder_start {} _ spanlessTaking.keyed).run _
  have keeps : (afterUpdate lateSides).KeepsFiles :=
    (keepsFiles_start {} _ _).run _
  obtain ⟨-, last, isLast, restored⟩ :=
    exists_restart_eq inOrder keeps (fun _ => spanlessTaking.inRange) ended
      (fun side => isRead side ▸ lossless_recordOf side)
      (fun side => isRead side ▸ readsBack_recordOf side)
  have isLeft : some last = some Side.left := isLast.symm
  cases isLeft
  refine ⟨succeeded, _, restored, fun retains => ?_⟩
  rw [isRead, isRead] at retains
  obtain ⟨current, isCurrent, notLater⟩ := retains "0a" updatedRecord rfl
  cases isCurrent
  exact absurd notLater (by decide)

end Overlap

end TraceArchive.Snapshot
