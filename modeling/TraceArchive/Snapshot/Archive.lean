import TraceArchive.Snapshot.Content

/-!
# Archives of snapshots

An archive keeps the latest snapshot of a store in the files of a directory.
Each file is written beside its place first and then put there at once. A
snapshot is taken in steps, so that two of them may be under way together.
-/

namespace TraceArchive.Snapshot

/-! ## Directories -/

/-- The files of a directory; a draft is a file that is not in its place
yet. -/
structure Directory where
  body : Option (List UInt8) := none
  bodyDraft : Option (List UInt8) := none
  description : Option (List UInt8) := none
  descriptionDraft : Option (List UInt8) := none
deriving DecidableEq, Repr

namespace Directory

/-- The bytes of the file with the records. -/
def readBody (directory : Directory) : Except SnapshotError (List UInt8) :=
  match directory.body with
  | none => .error .fileMissing
  | some bytes => .ok bytes

/-- Deletes the file with the records. -/
def deleteBody (directory : Directory) : Except SnapshotError Directory :=
  match directory.body with
  | none => .error .fileMissing
  | some _ => .ok { directory with body := none }

/-- Puts the draft of the records in its place. -/
def publishBody (directory : Directory) : Except SnapshotError Directory :=
  match directory.bodyDraft with
  | none => .error .fileMissing
  | some bytes =>
      .ok { directory with body := some bytes, bodyDraft := none }

/-- Puts the draft of the description in its place. -/
def publishDescription (directory : Directory) :
    Except SnapshotError Directory :=
  match directory.descriptionDraft with
  | none => .error .fileMissing
  | some bytes =>
      .ok
        { directory with
          description := some bytes
          descriptionDraft := none }

end Directory

/-! ## Archives -/

/-- A directory together with the description of the latest snapshot that is
known to be in it. -/
structure Archive where
  directory : Directory := {}
  latest : Option Description := none

namespace Archive

/-- Opens a directory. -/
def ofDirectory (directory : Directory) : Except SnapshotError Archive :=
  match directory.description with
  | none => .ok ⟨directory, none⟩
  | some bytes =>
      match Description.ofBytes bytes with
      | .error error => .error error
      | .ok description => .ok ⟨directory, some description⟩

/-! ## Taking a snapshot -/

/-- What a snapshot does next. -/
inductive Stage where
  /-- Reads the records of the store. -/
  | readRecords (time : Int)
  | draftBody (time : Int) (records : List StoredTrace)
  | publishBody (description : Description)
  | draftDescription (description : Description)
  | publishDescription (description : Description)
  | finished (result : Except SnapshotError Description)

/-- The description of a snapshot. -/
def describe (time : Int) (records : List StoredTrace)
    (bytes : List UInt8) : Description where
  id := "snapshot_" ++ toString time
  createdAt := time
  traceCount := records.length
  sizeBytes := bytes.length
  schemaVersion := Snapshot.schemaVersion

/-- The archive and the stage after one step of a snapshot. -/
def advance (archive : Archive) (store : TraceStore) :
    Stage → Archive × Stage
  | .readRecords time => (archive, .draftBody time store.listing)
  | .draftBody time records =>
      let bytes := (Body.ofRecords records).toBytes
      ({ archive with
          directory := { archive.directory with bodyDraft := some bytes } },
        .publishBody (describe time records bytes))
  | .publishBody description =>
      match archive.directory.publishBody with
      | .error error => (archive, .finished (.error error))
      | .ok directory =>
          ({ archive with directory }, .draftDescription description)
  | .draftDescription description =>
      ({ archive with
          directory :=
            { archive.directory with
              descriptionDraft := some description.toBytes } },
        .publishDescription description)
  | .publishDescription description =>
      match archive.directory.publishDescription with
      | .error error => (archive, .finished (.error error))
      | .ok directory =>
          (⟨directory, some description⟩, .finished (.ok description))
  | .finished result => (archive, .finished result)

/-- The archive and the stage after some steps without a pause. -/
def advanceBy (store : TraceStore) : Nat → Archive × Stage → Archive × Stage
  | 0, reached => reached
  | steps + 1, (archive, stage) =>
      advanceBy store steps (archive.advance store stage)

/-- The number of steps of a snapshot. -/
def stageCount : Nat := 5

/-- Takes a snapshot of a store at a time. -/
def takeSnapshot (archive : Archive) (time : Int) (store : TraceStore) :
    Archive × Except SnapshotError Description :=
  match advanceBy store stageCount (archive, .readRecords time) with
  | (reached, .finished result) => (reached, result)
  | (reached, _) => (reached, .error .fileMissing)

/-! ## Restoring -/

/-- Puts the records of the latest snapshot into a store and gives its
description; without a snapshot there is nothing to do. -/
def restoreInto (archive : Archive) (store : TraceStore) :
    Except SnapshotError (TraceStore × Option Description) :=
  match archive.latest with
  | none => .ok (store, none)
  | some description =>
      match archive.directory.readBody with
      | .error error => .error error
      | .ok bytes =>
          match Body.ofBytes bytes with
          | .error error => .error error
          | .ok body => .ok (store.restore body.records, some description)

/-! ## Periodic snapshots -/

/-- How many times a period ends before a worker that runs for some seconds is
stopped. -/
def periodsBefore (period seconds : Nat) : Nat :=
  (seconds - 1) / period

/-- Lets a worker take a snapshot at the end of every period for some seconds.
While the store stays the same, the last of them is what remains. -/
def runWorker (archive : Archive) (period seconds : Nat) (time : Int)
    (store : TraceStore) : Archive :=
  let periods := periodsBefore period seconds
  if periods = 0 then archive
  else
    (archive.takeSnapshot (time + 1000 * (periods * period : Nat))
      store).1

end Archive

end TraceArchive.Snapshot
