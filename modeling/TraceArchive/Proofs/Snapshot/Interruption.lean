import TraceArchive.Proofs.Snapshot.Archive
import TraceArchive.Proofs.Store.Listing

/-!
# Snapshots that are cut off

A snapshot may be cut off before, during and after each of its steps; of a draft
that was being written then any first part may be left. Whoever opens the
directory afterwards finds what was there before or the snapshot as a whole,
whatever earlier snapshots, completed or cut off, have left:
`Directory.restart_of_cutOff`. But a snapshot as a whole is not always a store.
`Directory.lost_by_snapshot` shows two that put an end to what was there before,
one whose record is too deep for its place and one that is too long.
-/

namespace TraceArchive.Snapshot

/-! ## Restarts -/

/-- What an empty store holds once the latest snapshot of a directory is
restored into it by whoever opens the directory. -/
def Directory.restart (directory : Directory) :
    Except SnapshotError TraceStore :=
  match Archive.ofDirectory directory with
  | .error error => .error error
  | .ok archive =>
      match archive.restoreInto .empty with
      | .error error => .error error
      | .ok (store, _) => .ok store

/-- A store of which a snapshot is taken at a time, which has 64 bits. In a
store every record is under the identifier of its trace. -/
structure Taking where
  time : Int
  store : TraceStore
  inRange : -9223372036854775808 ≤ time ∧ time < 9223372036854775808
  keyed : ∀ id record, store.get? id = some record → record.trace.id = id

namespace Taking

/-- The bytes of the records. -/
def bytes (taking : Taking) : List UInt8 :=
  (Body.ofRecords taking.store.listing).toBytes

/-- The description of the snapshot. -/
def description (taking : Taking) : Description :=
  Archive.describe taking.time taking.store.listing taking.bytes

/-- The bytes of the records before they are compressed. -/
def text (taking : Taking) : List UInt8 :=
  (Body.ofRecords taking.store.listing).text

/-- Whether the number of the compressed bytes has 64 bits, as that of all bytes
has. -/
def Addressable (taking : Taking) : Prop :=
  taking.bytes.length < UInt64.size

/-- Whether compression loses nothing of the records. -/
def Lossless (taking : Taking) : Prop :=
  (Body.ofRecords taking.store.listing).Lossless

/-- Whether every record by itself is read as it was written. -/
def ReadsBack (taking : Taking) : Prop :=
  ∀ record ∈ taking.store.listing, record.ReadsBack

/-- The directory that the snapshot leaves when nothing comes between. -/
def completed (taking : Taking) (before : Directory) : Directory :=
  (Archive.takeSnapshot ⟨before, none⟩ taking.time taking.store).1.directory

/-- What is restored from the snapshot when it is found: the records as they are
read from their places, provided that four bytes can tell the length of their
text. -/
def restored (taking : Taking) : Except SnapshotError TraceStore :=
  if taking.text.length < Nat.pow 2 32 then
    match
      StoredTrace.listReader (Json.depthLimit - 1)
        (StoredTrace.listToStored taking.store.listing).document with
    | .error _ => .error .unreadable
    | .ok records => .ok (TraceStore.empty.restore records)
  else .error (.damaged .tooLong)

/-- A character has four bytes at most. -/
theorem short_of_characters
    {taking : Taking}
    (few :
      4 * (Body.ofRecords taking.store.listing).toJson.characters.length <
        Nat.pow 2 32) :
    taking.text.length < Nat.pow 2 32 :=
  decompress_compress_iff.mp (Body.lossless_of_length few)

theorem Lossless.addressable
    {taking : Taking} (lossless : taking.Lossless) : taking.Addressable :=
  Body.length_toBytes_lt (decompress_compress_iff.mp lossless)

theorem restored_eq (taking : Taking) :
    taking.restored =
      match Body.ofBytes taking.bytes with
      | .error error => .error error
      | .ok body => .ok (TraceStore.empty.restore body.records) := by
  unfold restored bytes
  split
  · rename_i short
    rw [Body.ofBytes_of_lossless (decompress_compress_iff.mpr short)]
    cases
      StoredTrace.listReader (Json.depthLimit - 1)
        (StoredTrace.listToStored taking.store.listing).document <;> rfl
  · rename_i long
    rw [Body.ofBytes_of_long (Nat.le_of_not_lt long)]

/-- Records that read back one by one are restored as the store that they were
taken of, unless they are too long. -/
theorem restored_of_readsBack
    {taking : Taking} (readsBack : taking.ReadsBack) :
    taking.restored =
      if taking.text.length < Nat.pow 2 32 then .ok taking.store
      else .error (.damaged .tooLong) := by
  have ofList :
      StoredTrace.listReader (Json.depthLimit - 1)
          (StoredTrace.listToStored taking.store.listing).document =
        .ok taking.store.listing :=
    Json.Reader.list_document readsBack
  rw [restored, ofList]
  dsimp only
  rw [TraceStore.restore_listing taking.keyed]

end Taking

/-! ## Interruptions -/

/-- The directories that a stage of a snapshot leaves when it is cut off before
its end: the stage has not begun, or a part of its draft is written. -/
inductive Torn (archive : Archive) : Archive.Stage → Directory → Prop
  | untouched (stage : Archive.Stage) : Torn archive stage archive.directory
  | body {time : Int} {records : List StoredTrace} {part : List UInt8}
      (isPart : part <+: (Body.ofRecords records).toBytes) :
      Torn archive (.draftBody time records)
        { archive.directory with bodyDraft := some part }
  | description {description : Description} {part : List UInt8}
      (isPart : part <+: description.toBytes) :
      Torn archive (.draftDescription description)
        { archive.directory with descriptionDraft := some part }

/-- Whether a snapshot leaves the second directory in place of the first when it
is cut off after some steps or, if these are all, when it is completed. -/
def CutOff (taking : Taking) (before after : Directory) : Prop :=
  ∃ latest steps,
    let reached :=
      Archive.advanceBy taking.store steps
        (⟨before, latest⟩, .readRecords taking.time)
    Torn reached.1 reached.2 after

/-- Whether a directory that was empty at first is what some snapshots, the
latest in front, have left, each completed or cut off. -/
inductive LeftBy : List Taking → Directory → Prop
  | nothing : LeftBy [] {}
  | snapshot {earlier : List Taking} {taking : Taking}
      {before after : Directory} (left : LeftBy earlier before)
      (cut : CutOff taking before after) : LeftBy (taking :: earlier) after

theorem cutOff_completed (taking : Taking) (before : Directory) :
    CutOff taking before (taking.completed before) :=
  ⟨none, Archive.stageCount, .untouched _⟩

/-! ## How far a snapshot has come -/

/-- What a snapshot that began in a directory has made of it by a stage. -/
def Underway (taking : Taking) (before : Directory) (archive : Archive) :
    Archive.Stage → Prop
  | .readRecords time => time = taking.time ∧ archive.directory = before
  | .draftBody time records =>
      time = taking.time ∧ records = taking.store.listing ∧
        archive.directory = before
  | .publishBody description =>
      description = taking.description ∧
        archive.directory = { before with bodyDraft := some taking.bytes }
  | .draftDescription description =>
      description = taking.description ∧
        archive.directory =
          { before with body := some taking.bytes, bodyDraft := none }
  | .publishDescription description =>
      description = taking.description ∧
        archive.directory =
          { before with
            body := some taking.bytes
            bodyDraft := none
            descriptionDraft := some taking.description.toBytes }
  | .finished _ => archive.directory = taking.completed before

section Underway

variable {taking : Taking} {before : Directory}

theorem underway_advance
    {archive : Archive} {stage : Archive.Stage}
    (underway : Underway taking before archive stage) :
    Underway taking before (archive.advance taking.store stage).1
      (archive.advance taking.store stage).2 := by
  obtain ⟨directory, latest⟩ := archive
  cases stage with
  | readRecords time =>
      obtain ⟨rfl, rfl⟩ := underway
      exact ⟨rfl, rfl, rfl⟩
  | draftBody time records =>
      obtain ⟨rfl, rfl, rfl⟩ := underway
      exact ⟨rfl, rfl⟩
  | publishBody description =>
      obtain ⟨rfl, rfl⟩ := underway
      exact ⟨rfl, rfl⟩
  | draftDescription description =>
      obtain ⟨rfl, rfl⟩ := underway
      exact ⟨rfl, rfl⟩
  | publishDescription description =>
      obtain ⟨rfl, rfl⟩ := underway
      rfl
  | finished result => exact underway

theorem underway_advanceBy
    {archive : Archive} {stage : Archive.Stage}
    (underway : Underway taking before archive stage) (steps : Nat) :
    Underway taking before
      (Archive.advanceBy taking.store steps (archive, stage)).1
      (Archive.advanceBy taking.store steps (archive, stage)).2 := by
  induction steps generalizing archive stage with
  | zero => exact underway
  | succ steps inductionHypothesis =>
      exact inductionHypothesis (underway_advance underway)

/-- What a snapshot may have done to the files in their places: nothing, or the
records are put there, or the description is as well. -/
def Published (taking : Taking) (before after : Directory) : Prop :=
  (after.body = before.body ∧ after.description = before.description) ∨
    (after.body = some taking.bytes ∧
      (after.description = before.description ∨
        after.description = some taking.description.toBytes))

theorem published_of_torn
    {archive : Archive} {stage : Archive.Stage} {after : Directory}
    (underway : Underway taking before archive stage)
    (torn : Torn archive stage after) : Published taking before after := by
  obtain ⟨directory, latest⟩ := archive
  cases torn with
  | untouched =>
      cases stage with
      | readRecords time =>
          obtain ⟨-, rfl⟩ := underway
          exact Or.inl ⟨rfl, rfl⟩
      | draftBody time records =>
          obtain ⟨-, -, rfl⟩ := underway
          exact Or.inl ⟨rfl, rfl⟩
      | publishBody description =>
          obtain ⟨-, rfl⟩ := underway
          exact Or.inl ⟨rfl, rfl⟩
      | draftDescription description =>
          obtain ⟨-, rfl⟩ := underway
          exact Or.inr ⟨rfl, Or.inl rfl⟩
      | publishDescription description =>
          obtain ⟨-, rfl⟩ := underway
          exact Or.inr ⟨rfl, Or.inl rfl⟩
      | finished result =>
          cases underway
          exact Or.inr ⟨rfl, Or.inr rfl⟩
  | body isPart =>
      obtain ⟨-, -, rfl⟩ := underway
      exact Or.inl ⟨rfl, rfl⟩
  | description isPart =>
      obtain ⟨-, rfl⟩ := underway
      exact Or.inr ⟨rfl, Or.inl rfl⟩

/-- The drafts may be torn, the files in their places never are. -/
theorem published_of_cutOff
    {after : Directory} (cut : CutOff taking before after) :
    Published taking before after := by
  obtain ⟨latest, steps, torn⟩ := cut
  have start :
      Underway taking before ⟨before, latest⟩ (.readRecords taking.time) :=
    ⟨rfl, rfl⟩
  exact published_of_torn (underway_advanceBy start steps) torn

end Underway

/-! ## What is found afterwards -/

theorem restart_of_undescribed
    {directory : Directory} (undescribed : directory.description = none) :
    Archive.ofDirectory directory = .ok ⟨directory, none⟩ ∧
      directory.restart = .ok .empty := by
  have opened : Archive.ofDirectory directory = .ok ⟨directory, none⟩ := by
    simp only [Archive.ofDirectory, undescribed]
  refine ⟨opened, ?_⟩
  simp only [Directory.restart, opened, Archive.restoreInto]

theorem restart_of_described
    {directory : Directory} {described taking : Taking}
    (addressable : described.Addressable)
    (isDescription :
      directory.description = some described.description.toBytes)
    (isBody : directory.body = some taking.bytes) :
    Archive.ofDirectory directory =
        .ok ⟨directory, some described.description⟩ ∧
      directory.restart = taking.restored := by
  have read :=
    Description.ofBytes_toBytes
      (Archive.bounded_describe_of_small described.inRange addressable)
  have opened :
      Archive.ofDirectory directory =
        .ok ⟨directory, some described.description⟩ := by
    simp only [Archive.ofDirectory, isDescription]
    unfold Taking.description Taking.bytes
    rw [read]
  refine ⟨opened, ?_⟩
  simp only [Directory.restart, opened, Archive.restoreInto,
    Directory.readBody, isBody, Taking.restored_eq]
  cases Body.ofBytes taking.bytes <;> rfl

theorem restart_completed
    {taking : Taking} (addressable : taking.Addressable)
    (before : Directory) :
    (taking.completed before).restart = taking.restored :=
  (restart_of_described addressable rfl rfl).2

/-- Records that read back one by one are restored as the store that they were
taken of. -/
theorem restart_of_readsBack
    {directory : Directory} {described taking : Taking}
    (describedLossless : described.Lossless) (lossless : taking.Lossless)
    (isDescription :
      directory.description = some described.description.toBytes)
    (isBody : directory.body = some taking.bytes)
    (readsBack : taking.ReadsBack) :
    directory.restart = .ok taking.store := by
  have short : taking.text.length < Nat.pow 2 32 :=
    decompress_compress_iff.mp lossless
  rw [(restart_of_described describedLossless.addressable isDescription
    isBody).2, Taking.restored_of_readsBack readsBack, if_pos short]

/-- Whether a directory is not described yet, or has the description of one of
some snapshots and the records of one, which may be another. -/
def Directory.Intact (directory : Directory) (takings : List Taking) : Prop :=
  directory.description = none ∨
    (∃ described ∈ takings,
      directory.description = some described.description.toBytes) ∧
      ∃ kept ∈ takings, directory.body = some kept.bytes

theorem Directory.Intact.cutOff
    {earlier : List Taking} {taking : Taking} {before after : Directory}
    (intact : before.Intact earlier) (cut : CutOff taking before after) :
    after.Intact (taking :: earlier) := by
  rcases published_of_cutOff cut with
    ⟨sameBody, sameDescription⟩ | ⟨newBody, sameDescription | newDescription⟩
  · rcases intact with
      undescribed |
        ⟨⟨described, wasDescribed, isDescription⟩, kept, wasKept, isBody⟩
    · exact Or.inl (sameDescription.trans undescribed)
    · exact
        Or.inr
          ⟨⟨described, List.mem_cons_of_mem _ wasDescribed,
              sameDescription.trans isDescription⟩,
            kept, List.mem_cons_of_mem _ wasKept, sameBody.trans isBody⟩
  · rcases intact with
      undescribed | ⟨⟨described, wasDescribed, isDescription⟩, -⟩
    · exact Or.inl (sameDescription.trans undescribed)
    · exact
        Or.inr
          ⟨⟨described, List.mem_cons_of_mem _ wasDescribed,
              sameDescription.trans isDescription⟩,
            taking, List.mem_cons_self, newBody⟩
  · exact
      Or.inr
        ⟨⟨taking, List.mem_cons_self, newDescription⟩,
          taking, List.mem_cons_self, newBody⟩

theorem LeftBy.intact
    {takings : List Taking} {directory : Directory}
    (left : LeftBy takings directory) : directory.Intact takings := by
  induction left with
  | nothing => exact Or.inl rfl
  | snapshot _ cut inductionHypothesis => exact inductionHypothesis.cutOff cut

/-- The directory can be opened, and a restart finds nothing or one of the
snapshots as a whole. -/
theorem Directory.Intact.opens
    {takings : List Taking} {directory : Directory}
    (intact : directory.Intact takings)
    (addressable : ∀ taking ∈ takings, taking.Addressable) :
    (∃ archive, Archive.ofDirectory directory = .ok archive) ∧
      (directory.restart = .ok .empty ∨
        ∃ kept ∈ takings, directory.restart = kept.restored) := by
  rcases intact with
    undescribed |
      ⟨⟨described, wasDescribed, isDescription⟩, kept, wasKept, isBody⟩
  · obtain ⟨opened, isEmpty⟩ := restart_of_undescribed undescribed
    exact ⟨⟨_, opened⟩, Or.inl isEmpty⟩
  · obtain ⟨opened, found⟩ :=
      restart_of_described (addressable described wasDescribed) isDescription
        isBody
    exact ⟨⟨_, opened⟩, Or.inr ⟨kept, wasKept, found⟩⟩

/-- Where files are in their places, a restart does not see the others. -/
theorem restart_congr
    {left right : Directory} (sameBody : left.body = right.body)
    (sameDescription : left.description = right.description) :
    left.restart = right.restart := by
  simp only [Directory.restart, Archive.ofDirectory, sameDescription]
  cases right.description with
  | none => rfl
  | some bytes =>
      cases read : Description.ofBytes bytes with
      | error error => simp only [read]
      | ok description =>
          simp only [read, Archive.restoreInto, Directory.readBody, sameBody]

/-- A restart finds what it would have found before the snapshot, or the
snapshot as a whole. -/
theorem restart_of_intact
    {earlier : List Taking} {taking : Taking} {before after : Directory}
    (intact : before.Intact earlier) (cut : CutOff taking before after)
    (addressable : ∀ each ∈ taking :: earlier, each.Addressable) :
    after.restart = before.restart ∨ after.restart = taking.restored := by
  rw [List.forall_mem_cons] at addressable
  rcases published_of_cutOff cut with
    ⟨sameBody, sameDescription⟩ | ⟨newBody, sameDescription | newDescription⟩
  · exact Or.inl (restart_congr sameBody sameDescription)
  · rcases intact with
      undescribed | ⟨⟨described, wasDescribed, isDescription⟩, -⟩
    · left
      rw [(restart_of_undescribed undescribed).2,
        (restart_of_undescribed (sameDescription.trans undescribed)).2]
    · right
      exact
        (restart_of_described (addressable.2 described wasDescribed)
          (sameDescription.trans isDescription) newBody).2
  · right
    exact (restart_of_described addressable.1 newDescription newBody).2

/-- Whatever snapshots, completed or cut off, have left a directory: once one
more snapshot is cut off at any point, the directory can still be opened, and a
restart finds what it would have found before, or the new snapshot as a whole. So
it was before: a restart has found nothing or an earlier snapshot as a whole. What
is found of a snapshot, if every record is read from its place as it was written,
is exactly the store that it was taken of, as long as the records have less than
four gibibytes. If they have more, a restart fails. -/
theorem Directory.restart_of_cutOff
    {earlier : List Taking} {taking : Taking} {before after : Directory}
    (left : LeftBy earlier before) (cut : CutOff taking before after)
    (addressable : ∀ each ∈ taking :: earlier, each.Addressable) :
    (∃ archive, Archive.ofDirectory after = .ok archive) ∧
      (after.restart = before.restart ∨ after.restart = taking.restored) ∧
        (before.restart = .ok .empty ∨
          ∃ each ∈ earlier, before.restart = each.restored) ∧
          ∀ each ∈ taking :: earlier, each.ReadsBack →
            each.restored =
              if each.text.length < Nat.pow 2 32 then .ok each.store
              else .error (.damaged .tooLong) := by
  have found := restart_of_intact left.intact cut addressable
  have opened := ((left.intact.cutOff cut).opens addressable).1
  rw [List.forall_mem_cons] at addressable
  have foundBefore := (left.intact.opens addressable.2).2
  exact
    ⟨opened, found, foundBefore, fun _ _ => Taking.restored_of_readsBack⟩

/-! ## A snapshot that is cut off after another -/

/-- A record without spans. -/
def spanlessRecord : StoredTrace where
  trace := ⟨.plain "0a" (.experiment "1") default, []⟩
  version := 1

/-- A snapshot of the empty store. -/
def emptyTaking : Taking where
  time := 0
  store := .empty
  inRange := by decide
  keyed := fun _ _ stored => by cases stored

/-- A snapshot of a store with one record. -/
def Taking.ofRecord (record : StoredTrace) : Taking where
  time := 60000
  store := TraceStore.empty.put record
  inRange := by decide
  keyed := TraceStore.keyed_empty.put record

/-- A snapshot of the record without spans. -/
def spanlessTaking : Taking :=
  .ofRecord spanlessRecord

theorem readsBack_spanlessRecord : spanlessRecord.ReadsBack :=
  StoredTrace.readsBack_of_recoverable (List.forall_mem_nil _)
    (List.forall_mem_nil _) ⟨by decide, List.forall_mem_nil _⟩

theorem short_emptyTaking : emptyTaking.text.length < Nat.pow 2 32 :=
  Taking.short_of_characters (by decide +kernel)

theorem short_spanlessTaking : spanlessTaking.text.length < Nat.pow 2 32 :=
  Taking.short_of_characters (by decide +kernel)

/-- The directory of the empty store in which the next snapshot was cut off in
the midst of its description. -/
def tornDirectory : Directory :=
  { emptyTaking.completed {} with
    body := some spanlessTaking.bytes
    descriptionDraft := some (spanlessTaking.description.toBytes.take 1) }

/-- What a restart finds there is one of the two stores. -/
theorem restart_tornDirectory :
    LeftBy [emptyTaking] (emptyTaking.completed {}) ∧
      CutOff spanlessTaking (emptyTaking.completed {}) tornDirectory ∧
        (∃ archive, Archive.ofDirectory tornDirectory = .ok archive) ∧
          ∃ store, tornDirectory.restart = .ok store ∧
            ((emptyTaking.completed {}).restart = .ok store ∨
              store = spanlessTaking.store) := by
  have left : LeftBy [emptyTaking] (emptyTaking.completed {}) :=
    .snapshot .nothing (cutOff_completed emptyTaking {})
  have cut :
      CutOff spanlessTaking (emptyTaking.completed {}) tornDirectory :=
    ⟨none, 3, .description (List.take_prefix 1 _)⟩
  have ofEmpty : emptyTaking.ReadsBack := List.forall_mem_nil _
  have ofSpanless : spanlessTaking.ReadsBack :=
    List.forall_mem_singleton.mpr readsBack_spanlessRecord
  obtain ⟨opened, found, foundBefore, whole⟩ :=
    Directory.restart_of_cutOff left cut
      (List.forall_mem_cons.mpr
        ⟨Body.length_toBytes_lt short_spanlessTaking,
          List.forall_mem_singleton.mpr
            (Body.length_toBytes_lt short_emptyTaking)⟩)
  have isSpanless := whole spanlessTaking List.mem_cons_self ofSpanless
  have isEmpty :=
    whole emptyTaking (List.mem_cons_of_mem _ List.mem_cons_self) ofEmpty
  rw [if_pos short_spanlessTaking] at isSpanless
  rw [if_pos short_emptyTaking] at isEmpty
  refine ⟨left, cut, opened, ?_⟩
  rcases found with asBefore | asWhole
  · rcases foundBefore with none | ⟨each, member, isEach⟩
    · exact ⟨_, asBefore.trans none, Or.inl none⟩
    · rw [List.mem_singleton] at member
      subst member
      have foundEmpty := isEach.trans isEmpty
      exact ⟨_, asBefore.trans foundEmpty, Or.inl foundEmpty⟩
  · exact ⟨_, asWhole.trans isSpanless, Or.inr rfl⟩

/-! ## Snapshots that cannot be restored -/

/-- A record with an assessment of 122 levels. -/
def deepRecord : StoredTrace :=
  { spanlessRecord with
    trace :=
      { spanlessRecord.trace with
        info :=
          { spanlessRecord.trace.info with
            assessments :=
              [[("note", Nat.repeat (fun inner => .list [inner]) 121 .null)]] } } }

/-- The record without spans with the text of a request. -/
def requestRecord (text : String) : StoredTrace :=
  { spanlessRecord with
    trace :=
      { spanlessRecord.trace with
        info := { spanlessRecord.trace.info with request := some text } } }

/-- A text of the letter `a` in a row. -/
def rowText (count : Nat) : String :=
  .ofList (List.replicate count 'a')

theorem length_quoted_rowText (count : Nat) :
    (Json.quoted (rowText count)).length = count + 2 := by
  have plain : Json.escaped 'a' = ['a'] := by decide
  have each :
      ((List.replicate count 'a').flatMap Json.escaped).length = count := by
    rw [List.length_flatMap, List.map_replicate, plain,
      List.sum_replicate_nat, List.length_singleton, Nat.mul_one]
  rw [Json.quoted, rowText, String.toList_ofList, List.cons_append,
    List.length_cons, List.length_append, each, List.length_singleton]

/-- The text of a body is as much longer than without that of a request as the
latter is. -/
theorem length_characters_requestRecord (text : String) :
    (Body.ofRecords [requestRecord text]).toJson.characters.length + 2 =
      (Body.ofRecords [requestRecord ""]).toJson.characters.length +
        (Json.quoted text).length := by
  have ofEmpty : (Json.quoted "").length = 2 := rfl
  simp only [Body.toJson, Body.ofRecords, StoredTrace.listToStored,
    StoredTrace.toStored, Trace.toStored, TraceInfo.toStored, requestRecord,
    List.map_cons, List.map_nil, Json.ofText?, Json.characters,
    Json.itemCharacters, Json.entryCharacters, List.length_append,
    List.length_cons, List.length_nil, ofEmpty]
  omega

/-- A snapshot of a record that is too deep for its place. -/
def deepTaking : Taking :=
  .ofRecord deepRecord

/-- A snapshot of a record with a text of four gibibytes. -/
def longTaking : Taking :=
  .ofRecord (requestRecord (rowText (Nat.pow 2 32)))

theorem short_deepTaking : deepTaking.text.length < Nat.pow 2 32 :=
  Taking.short_of_characters (by decide +kernel)

theorem readsAlone_deepRecord : deepRecord.ReadsAlone :=
  StoredTrace.readsAlone_of_recoverable (List.forall_mem_nil _)
    (List.forall_mem_nil _) (by decide +kernel)

theorem restored_deepTaking : deepTaking.restored = .error .unreadable := by
  have readable :
      ∀ record ∈ deepTaking.store.listing, record.Recoverable 123 := by
    decide +kernel
  have deep :
      ¬ ∀ record ∈ deepTaking.store.listing, record.Recoverable 121 := by
    decide +kernel
  have unread : Body.ofBytes deepTaking.bytes = .error .unreadable :=
    Body.ofBytes_toBytes_of_not_recoverable
      (decompress_compress_iff.mpr short_deepTaking)
      (fun record member => (readable record member).assessments) deep
  rw [Taking.restored_eq, unread]

/-- The text of the long snapshot has more than four gibibytes, but not many
more. -/
theorem length_longTaking :
    Nat.pow 2 32 ≤ longTaking.text.length ∧
      longTaking.text.length ≤ 4 * (Nat.pow 2 32 + 1000) := by
  have few :
      (Body.ofRecords [requestRecord ""]).toJson.characters.length ≤
        1000 := by
    decide +kernel
  have ofLong :=
    length_characters_requestRecord (rowText (Nat.pow 2 32))
  rw [length_quoted_rowText] at ofLong
  have bounds :=
    Text.Utf8.length_encode_bounds
      (Body.ofRecords
        [requestRecord (rowText (Nat.pow 2 32))]).toJson.characters
  have isText :
      longTaking.text =
        Text.Utf8.encode
          (Body.ofRecords
            [requestRecord (rowText (Nat.pow 2 32))]).toJson.characters :=
    rfl
  rw [isText]
  omega

theorem addressable_longTaking : longTaking.Addressable := by
  have compressed :
      longTaking.bytes.length ≤ 2 * longTaking.text.length + 6 :=
    length_compress_le longTaking.text
  have notLong := length_longTaking.2
  have small : 2 * (4 * (Nat.pow 2 32 + 1000)) + 6 < UInt64.size := by
    decide
  exact Nat.lt_of_le_of_lt compressed (by omega)

theorem readsBack_longTaking : longTaking.ReadsBack := by
  have ofRecord :
      (requestRecord (rowText (Nat.pow 2 32))).ReadsBack :=
    StoredTrace.readsBack_of_recoverable (List.forall_mem_nil _)
      (List.forall_mem_nil _) ⟨by decide, List.forall_mem_nil _⟩
  exact List.forall_mem_singleton.mpr ofRecord

/-- A restart finds the record without spans. Then a snapshot is completed, whose
record is read as it was written, the one from its text alone, the other even from
its place in the snapshot: and nothing can be restored any more. -/
theorem Directory.lost_by_snapshot :
    let before := spanlessTaking.completed {}
    LeftBy [spanlessTaking] before ∧
      before.restart = .ok spanlessTaking.store ∧
        (CutOff deepTaking before (deepTaking.completed before) ∧
          (∀ record ∈ deepTaking.store.listing, record.ReadsAlone) ∧
            (deepTaking.completed before).restart = .error .unreadable) ∧
          CutOff longTaking before (longTaking.completed before) ∧
            longTaking.ReadsBack ∧
              (longTaking.completed before).restart =
                .error (.damaged .tooLong) := by
  intro before
  have ofSpanless : spanlessTaking.ReadsBack :=
    List.forall_mem_singleton.mpr readsBack_spanlessRecord
  have isSpanless := Taking.restored_of_readsBack ofSpanless
  rw [if_pos short_spanlessTaking] at isSpanless
  have isLong := Taking.restored_of_readsBack readsBack_longTaking
  rw [if_neg (Nat.not_lt_of_le length_longTaking.1)] at isLong
  refine ⟨.snapshot .nothing (cutOff_completed _ _), ?_, ?_, ?_⟩
  · rw [restart_completed (Body.length_toBytes_lt short_spanlessTaking)]
    exact isSpanless
  · refine ⟨cutOff_completed _ _, ?_, ?_⟩
    · exact List.forall_mem_singleton.mpr readsAlone_deepRecord
    · rw [restart_completed (Body.length_toBytes_lt short_deepTaking)]
      exact restored_deepTaking
  · refine ⟨cutOff_completed _ _, readsBack_longTaking, ?_⟩
    rw [restart_completed addressable_longTaking]
    exact isLong

end TraceArchive.Snapshot
