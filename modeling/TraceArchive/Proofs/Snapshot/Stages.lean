import TraceArchive.Snapshot.Archive

/-!
# Stages of a snapshot

A snapshot reads the store, drafts its records, puts the draft in its place, and
does the same with its description. A draft that is missing when it is to be put
in its place, since another snapshot has taken it, ends the snapshot with an
error. The main statement is `Archive.advances`, which says all that one step
can do.
-/

namespace TraceArchive.Snapshot.Archive

/-! ## How far a snapshot has come -/

namespace Stage

/-- Whether the store was read. -/
def HasRead : Stage → Prop
  | .readRecords _ => False
  | _ => True

/-- Whether a draft of the records was written. -/
def HasDrafted : Stage → Prop
  | .readRecords _ | .draftBody _ _ => False
  | _ => True

/-- Whether the next step is to put the draft of the records in its place. -/
def IsPending : Stage → Prop
  | .publishBody _ => True
  | _ => False

/-- Whether records were put in their place and nothing has failed since. -/
def HasPublished : Stage → Prop
  | .draftDescription _ | .publishDescription _ | .finished (.ok _) => True
  | _ => False

/-- Whether the snapshot is taken. -/
def HasSucceeded : Stage → Prop
  | .finished (.ok _) => True
  | _ => False

/-- Whether nothing is left to do. -/
def HasEnded : Stage → Prop
  | .finished _ => True
  | _ => False

/-- Whether the next step is about the files of the records. -/
def HandlesRecords : Stage → Prop
  | .draftBody _ _ | .publishBody _ => True
  | _ => False

/-- Whether the next step is about the files of the description. -/
def HandlesDescription : Stage → Prop
  | .draftDescription _ | .publishDescription _ => True
  | _ => False

/-- Whether a snapshot that was begun at a time and has read a store goes on
with what it has read. -/
def GoesOnWith (time : Int) (read : TraceStore) : Stage → Prop
  | .readRecords begun => begun = time
  | .draftBody begun records => begun = time ∧ records = read.listing
  | .publishBody description
  | .draftDescription description
  | .publishDescription description =>
      description =
        describe time read.listing (Body.ofRecords read.listing).toBytes
  | .finished _ => True

section Stage

variable {stage : Stage}

theorem exists_of_not_hasRead (unread : ¬ stage.HasRead) :
    ∃ time, stage = .readRecords time := by
  cases stage with
  | readRecords time => exact ⟨time, rfl⟩
  | _ => exact absurd trivial unread

theorem HasDrafted.hasRead (drafted : stage.HasDrafted) : stage.HasRead := by
  cases stage <;> trivial

theorem HasSucceeded.hasPublished :
    ∀ {stage : Stage}, stage.HasSucceeded → stage.HasPublished
  | .finished (.ok _), _ => trivial

theorem IsPending.handlesRecords
    (pending : stage.IsPending) : stage.HandlesRecords := by
  cases stage <;> trivial

theorem IsPending.not_hasEnded
    (pending : stage.IsPending) : ¬ stage.HasEnded := by
  intro ended
  cases stage <;> trivial

theorem HasEnded.hasDrafted (ended : stage.HasEnded) : stage.HasDrafted := by
  cases stage <;> trivial

theorem HasPublished.hasSucceeded
    (published : stage.HasPublished) (ended : stage.HasEnded) :
    stage.HasSucceeded := by
  unfold HasPublished at published
  split at published
  · cases ended
  · cases ended
  · trivial
  · cases published

end Stage

end Stage

/-! ## One step -/

section Publish

variable {archive : Archive} {store : TraceStore} {description : Description}

theorem advance_publishBody
    {bytes : List UInt8}
    (isDraft : archive.directory.bodyDraft = some bytes) :
    archive.advance store (.publishBody description) =
      ({ archive with
          directory :=
            { archive.directory with body := some bytes, bodyDraft := none } },
        .draftDescription description) := by
  rw [advance, Directory.publishBody, isDraft]

theorem advance_publishBody_of_none
    (noDraft : archive.directory.bodyDraft = none) :
    archive.advance store (.publishBody description) =
      (archive, .finished (.error .fileMissing)) := by
  rw [advance, Directory.publishBody, noDraft]

theorem advance_publishDescription
    {bytes : List UInt8}
    (isDraft : archive.directory.descriptionDraft = some bytes) :
    archive.advance store (.publishDescription description) =
      (⟨{ archive.directory with
            description := some bytes
            descriptionDraft := none },
          some description⟩,
        .finished (.ok description)) := by
  rw [advance, Directory.publishDescription, isDraft]

theorem advance_publishDescription_of_none
    (noDraft : archive.directory.descriptionDraft = none) :
    archive.advance store (.publishDescription description) =
      (archive, .finished (.error .fileMissing)) := by
  rw [advance, Directory.publishDescription, noDraft]

end Publish

/-- What a step can make of an archive and a stage. -/
inductive Advances (archive : Archive) (store : TraceStore) :
    Stage → Archive → Stage → Prop
  | readRecords (time : Int) :
      Advances archive store (.readRecords time) archive
        (.draftBody time store.listing)
  | draftBody (time : Int) (records : List StoredTrace) :
      Advances archive store (.draftBody time records)
        { archive with
          directory :=
            { archive.directory with
              bodyDraft := some (Body.ofRecords records).toBytes } }
        (.publishBody
          (describe time records (Body.ofRecords records).toBytes))
  | publishBody (description : Description) {bytes : List UInt8}
      (isDraft : archive.directory.bodyDraft = some bytes) :
      Advances archive store (.publishBody description)
        { archive with
          directory :=
            { archive.directory with body := some bytes, bodyDraft := none } }
        (.draftDescription description)
  | bodyMissing (description : Description)
      (noDraft : archive.directory.bodyDraft = none) :
      Advances archive store (.publishBody description) archive
        (.finished (.error .fileMissing))
  | draftDescription (description : Description) :
      Advances archive store (.draftDescription description)
        { archive with
          directory :=
            { archive.directory with
              descriptionDraft := some description.toBytes } }
        (.publishDescription description)
  | publishDescription (description : Description) {bytes : List UInt8}
      (isDraft : archive.directory.descriptionDraft = some bytes) :
      Advances archive store (.publishDescription description)
        ⟨{ archive.directory with
            description := some bytes
            descriptionDraft := none },
          some description⟩
        (.finished (.ok description))
  | descriptionMissing (description : Description)
      (noDraft : archive.directory.descriptionDraft = none) :
      Advances archive store (.publishDescription description) archive
        (.finished (.error .fileMissing))
  | finished (result : Except SnapshotError Description) :
      Advances archive store (.finished result) archive (.finished result)

theorem advances (archive : Archive) (store : TraceStore) (stage : Stage) :
    Advances archive store stage (archive.advance store stage).1
      (archive.advance store stage).2 := by
  cases stage with
  | readRecords time => exact .readRecords time
  | draftBody time records => exact .draftBody time records
  | publishBody description =>
      cases isDraft : archive.directory.bodyDraft with
      | none =>
          rw [advance_publishBody_of_none isDraft]
          exact .bodyMissing description isDraft
      | some bytes =>
          rw [advance_publishBody isDraft]
          exact .publishBody description isDraft
  | draftDescription description => exact .draftDescription description
  | publishDescription description =>
      cases isDraft : archive.directory.descriptionDraft with
      | none =>
          rw [advance_publishDescription_of_none isDraft]
          exact .descriptionMissing description isDraft
      | some bytes =>
          rw [advance_publishDescription isDraft]
          exact .publishDescription description isDraft
  | finished result => exact .finished result

namespace Advances

variable {archive after : Archive} {store : TraceStore} {stage next : Stage}
  (step : Advances archive store stage after next)

include step

/-! ### What comes next -/

theorem hasRead : next.HasRead := by
  cases step <;> trivial

theorem hasDrafted (hasRead : stage.HasRead) : next.HasDrafted := by
  cases step <;> trivial

theorem hasSucceeded (succeeded : stage.HasSucceeded) : next.HasSucceeded := by
  cases step <;> trivial

theorem goesOnWith
    {time : Int} {read : TraceStore} (hasRead : stage.HasRead)
    (goesOn : stage.GoesOnWith time read) : next.GoesOnWith time read := by
  cases step with
  | readRecords time => cases hasRead
  | draftBody time records =>
      obtain ⟨rfl, rfl⟩ := goesOn
      rfl
  | publishBody description isDraft => exact goesOn
  | draftDescription description => exact goesOn
  | _ => trivial

/-! ### What came before -/

theorem stage_of_hasDrafted (drafted : next.HasDrafted) :
    stage.HasDrafted ∨ ∃ time records, stage = .draftBody time records := by
  cases step with
  | readRecords time => cases drafted
  | draftBody time records => exact Or.inr ⟨time, records, rfl⟩
  | _ => exact Or.inl trivial

/-- A description is put in its place only after a draft of it. -/
theorem stage_of_publishDescription
    {description : Description}
    (isNext : next = .publishDescription description) :
    stage = .draftDescription description := by
  cases step <;> cases isNext
  rfl

theorem stage_of_hasSucceeded (succeeded : next.HasSucceeded) :
    stage.HasSucceeded ∨
      ∃ description, stage = .publishDescription description := by
  cases step with
  | publishDescription description isDraft =>
      exact Or.inr ⟨description, rfl⟩
  | finished result => exact Or.inl succeeded
  | _ => cases succeeded

/-! ### Files that stay -/

theorem recordFiles (elsewhere : ¬ stage.HandlesRecords) :
    after.directory.body = archive.directory.body ∧
      after.directory.bodyDraft = archive.directory.bodyDraft := by
  cases step <;> first | exact ⟨rfl, rfl⟩ | exact absurd trivial elsewhere

theorem descriptionDraft (elsewhere : ¬ stage.HandlesDescription) :
    after.directory.descriptionDraft =
      archive.directory.descriptionDraft := by
  cases step <;> first | rfl | exact absurd trivial elsewhere

theorem description
    (elsewhere : ∀ description, stage ≠ .publishDescription description) :
    after.directory.description = archive.directory.description := by
  cases step with
  | publishDescription description isDraft =>
      exact absurd rfl (elsewhere description)
  | _ => rfl

end Advances

end TraceArchive.Snapshot.Archive
