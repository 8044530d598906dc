import TraceArchive.Proofs.Snapshot.Compression
import TraceArchive.Proofs.Trace.Stored
import TraceArchive.Snapshot.Archive

/-!
# Snapshots are read again

A snapshot that was taken is found by whoever opens its directory. Its records
are read as those of the store if there is room for all their assessments inside
a snapshot, and not read at all if there is not, or if their text is too long for
its declared length. The main statements are `Body.ofBytes_toBytes`,
`Body.ofBytes_toBytes_of_not_recoverable`, `Body.ofBytes_of_long` and
`Archive.Holds.ofDirectory`.
-/

namespace TraceArchive

namespace StoredTrace

/-- Whether a record is read as it was written from its place in a snapshot,
which is two levels deep. -/
def ReadsBack (record : StoredTrace) : Prop :=
  storedForm.read (Json.depthLimit - 2) record.toStored.document = .ok record

/-- Whether the text of a record alone is read as the record. -/
def ReadsAlone (record : StoredTrace) : Prop :=
  Json.readBytes storedForm.read
      (Text.Utf8.encode record.toStored.characters) =
    .ok record

theorem readsBack_of_recoverable
    {record : StoredTrace}
    (sound : ∀ span ∈ record.trace.spans, span.Sound)
    (proper : ∀ span ∈ record.trace.spans, span.Proper)
    (recoverable : record.Recoverable (Json.depthLimit - 6)) :
    record.ReadsBack :=
  read_toStored sound proper recoverable (by decide)

theorem readsAlone_of_recoverable
    {record : StoredTrace}
    (sound : ∀ span ∈ record.trace.spans, span.Sound)
    (proper : ∀ span ∈ record.trace.spans, span.Proper)
    (recoverable : record.Recoverable (Json.depthLimit - 4)) :
    record.ReadsAlone := by
  rw [ReadsAlone, Json.readBytes_characters]
  exact read_toStored sound proper recoverable (by decide)

end StoredTrace

namespace Snapshot

open Json (RecordForm)

/-! ## Descriptions -/

/-- Whether the numbers of a description have 64 bits. -/
structure Description.Bounded (description : Description) : Prop where
  createdAt :
    -9223372036854775808 ≤ description.createdAt ∧
      description.createdAt < 9223372036854775808
  traceCount : description.traceCount < UInt64.size
  sizeBytes : description.sizeBytes < UInt64.size

theorem Description.ofBytes_toBytes
    {description : Description} (bounded : description.Bounded) :
    ofBytes description.toBytes = .ok description := by
  obtain ⟨least, most⟩ := bounded.createdAt
  have ofTime :
      Json.Reader.wholeNumber
          (fun value =>
            -9223372036854775808 ≤ value ∧ value < 9223372036854775808)
          126 (Json.document (.ofInt description.createdAt)) =
        .ok description.createdAt := by
    rw [Json.ofInt, dif_pos ⟨least, by omega⟩]
    exact Json.Reader.wholeNumber_integer (decide_eq_true ⟨least, most⟩) 126
  have read :
      form.read Json.depthLimit description.toJson.document =
        .ok description := by
    refine RecordForm.read_of_fills (by decide) ?_
    refine .value rfl ?_
    refine .value ofTime ?_
    refine .value (Json.Reader.natural_ofNat bounded.traceCount _) ?_
    refine .value (Json.Reader.natural_ofNat bounded.sizeBytes _) ?_
    refine .value (Json.Reader.halfWord_ofHalfWord _ _) ?_
    exact .done _
  simp only [ofBytes, toBytes, Json.readBytes_characters, read]

/-! ## Records -/

namespace Body

/-- The bytes of a body before they are compressed. -/
def text (body : Body) : List UInt8 :=
  Text.Utf8.encode body.toJson.characters

/-- Whether compression loses nothing of a body. -/
def Lossless (body : Body) : Prop :=
  decompress (compress body.text) = .ok body.text

theorem lossless_of_length
    {body : Body} (short : 4 * body.toJson.characters.length < Nat.pow 2 32) :
    body.Lossless :=
  decompress_compress_iff.mpr
    (Nat.lt_of_le_of_lt
      (Text.Utf8.length_encode_bounds body.toJson.characters).2 short)

theorem ofBytes_of_long
    {records : List StoredTrace}
    (long : Nat.pow 2 32 ≤ (ofRecords records).text.length) :
    ofBytes (ofRecords records).toBytes = .error (.damaged .tooLong) := by
  have refused :
      decompress (ofRecords records).toBytes = .error .tooLong :=
    decompress_compress_of_long long
  simp only [ofBytes, textOfBytes, refused]

section Records

variable {records : List StoredTrace}
  (lossless : (ofRecords records).Lossless)

include lossless

theorem textOfBytes_toBytes :
    textOfBytes (ofRecords records).toBytes =
      .ok (ofRecords records).text := by
  have decompressed :
      decompress (ofRecords records).toBytes = .ok (ofRecords records).text :=
    lossless
  simp only [textOfBytes, decompressed]

/-- A body whose text comes back is read as its records are in their row. -/
theorem ofBytes_of_lossless :
    ofBytes (ofRecords records).toBytes =
      match
        StoredTrace.listReader (Json.depthLimit - 1)
          (StoredTrace.listToStored records).document with
      | .error _ => .error .unreadable
      | .ok results => .ok (ofRecords results) := by
  cases readList :
      StoredTrace.listReader (Json.depthLimit - 1)
        (StoredTrace.listToStored records).document with
  | ok results =>
      have read :
          form.read Json.depthLimit (ofRecords records).toJson.document =
            .ok (ofRecords results) := by
        refine RecordForm.read_of_fills (by decide) ?_
        refine .value (Json.Reader.halfWord_ofHalfWord _ _) ?_
        refine .value readList ?_
        exact .done _
      have supported :
          (ofRecords results).schemaVersion = Snapshot.schemaVersion :=
        rfl
      simp only [ofBytes, textOfBytes_toBytes lossless, text,
        Json.readBytes_characters, read, if_pos supported]
  | error error =>
      cases read :
          form.read Json.depthLimit (ofRecords records).toJson.document with
      | ok body =>
          obtain ⟨results, isRead⟩ :=
            RecordForm.read_of_mem_read read
              (List.mem_cons_of_mem _ List.mem_cons_self) rfl
          have isList :
              StoredTrace.listReader (Json.depthLimit - 1)
                  (StoredTrace.listToStored records).document =
                .ok results :=
            isRead
          rw [readList] at isList
          cases isList
      | error error =>
          simp only [ofBytes, textOfBytes_toBytes lossless, text,
            Json.readBytes_characters, read]

/-- Records of which each is read from its place are read. -/
theorem ofBytes_toBytes_of_readsBack
    (readsBack : ∀ record ∈ records, record.ReadsBack) :
    ofBytes (ofRecords records).toBytes = .ok (ofRecords records) := by
  have ofList :
      StoredTrace.listReader (Json.depthLimit - 1)
          (StoredTrace.listToStored records).document = .ok records :=
    Json.Reader.list_document readsBack
  rw [ofBytes_of_lossless lossless, ofList]

/-- Records without assessments that are too deep are read. -/
theorem ofBytes_toBytes
    (sound : ∀ record ∈ records, ∀ span ∈ record.trace.spans, span.Sound)
    (proper : ∀ record ∈ records, ∀ span ∈ record.trace.spans, span.Proper)
    (recoverable : ∀ record ∈ records, record.Recoverable 121) :
    ofBytes (ofRecords records).toBytes = .ok (ofRecords records) :=
  ofBytes_toBytes_of_readsBack lossless fun record member =>
    StoredTrace.readsBack_of_recoverable (sound record member)
      (proper record member) (recoverable record member)

/-- No record is read if an assessment is too deep. -/
theorem ofBytes_toBytes_of_not_recoverable
    {more : Nat}
    (readable :
      ∀ record ∈ records, ∀ assessment ∈ record.trace.info.assessments,
        Json.Readable more (.object assessment))
    (deep : ¬ ∀ record ∈ records, record.Recoverable 121) :
    ofBytes (ofRecords records).toBytes = .error .unreadable := by
  rw [ofBytes_of_lossless lossless]
  cases readList :
      StoredTrace.listReader (Json.depthLimit - 1)
        (StoredTrace.listToStored records).document with
  | error error => rfl
  | ok results =>
      refine absurd (fun record member => ?_) deep
      obtain ⟨result, readRecord⟩ :=
        Json.Reader.read_of_items_document readList record member
      exact
        StoredTrace.recoverable_of_read (readable record member) readRecord

end Records

theorem length_le_text (records : List StoredTrace) :
    records.length ≤ (ofRecords records).text.length := by
  have ofItems :=
    Json.length_le_itemCharacters (records.map StoredTrace.toStored)
  have ofText :=
    (Text.Utf8.length_encode_bounds (ofRecords records).toJson.characters).1
  rw [List.length_map] at ofItems
  simp only [toJson, ofRecords, StoredTrace.listToStored, Json.characters,
    Json.entryCharacters, List.length_append, List.length_cons] at ofText
  exact Nat.le_trans ofItems (Nat.le_trans (by omega) ofText)

theorem length_toBytes_lt
    {body : Body} (short : body.text.length < Nat.pow 2 32) :
    body.toBytes.length < UInt64.size := by
  have compressed : body.toBytes.length ≤ 2 * body.text.length + 6 :=
    length_compress_le body.text
  have few : body.text.length < 4294967296 := short
  have less : body.toBytes.length < 8589934599 := by omega
  exact Nat.lt_trans less (by decide)

end Body

/-! ## Archives -/

namespace Archive

theorem bounded_describe_of_small
    {time : Int} {records : List StoredTrace}
    (inRange :
      -9223372036854775808 ≤ time ∧ time < 9223372036854775808)
    (small : (Body.ofRecords records).toBytes.length < UInt64.size) :
    (describe time records (Body.ofRecords records).toBytes).Bounded := by
  have few := Body.length_le_text records
  have compressed :
      (Body.ofRecords records).text.length ≤
        (Body.ofRecords records).toBytes.length :=
    length_le_compress _
  exact
    ⟨inRange, Nat.lt_of_le_of_lt (Nat.le_trans few compressed) small, small⟩

theorem bounded_describe
    {time : Int} {records : List StoredTrace}
    (inRange :
      -9223372036854775808 ≤ time ∧ time < 9223372036854775808)
    (lossless : (Body.ofRecords records).Lossless) :
    (describe time records (Body.ofRecords records).toBytes).Bounded :=
  bounded_describe_of_small inRange
    (Body.length_toBytes_lt (decompress_compress_iff.mp lossless))

/-- Whether the snapshot of some records is the latest of an archive, in its
directory as in its memory. -/
structure Holds (archive : Archive) (description : Description)
    (records : List StoredTrace) : Prop where
  latest : archive.latest = some description
  body :
    archive.directory.body = some (Body.ofRecords records).toBytes
  description : archive.directory.description = some description.toBytes

/-- A snapshot that is taken is held, whatever the directory had in it. -/
theorem holds_takeSnapshot
    (archive : Archive) (time : Int) (store : TraceStore) :
    ∃ reached description,
      archive.takeSnapshot time store = (reached, .ok description) ∧
        description =
          describe time store.listing
            (Body.ofRecords store.listing).toBytes ∧
          reached.Holds description store.listing :=
  ⟨_, _, rfl, rfl, rfl, rfl, rfl⟩

namespace Holds

variable {archive : Archive} {description : Description}
  {records : List StoredTrace}

/-- Whoever opens the directory finds the same. -/
theorem ofDirectory
    (holds : archive.Holds description records)
    (bounded : description.Bounded) :
    Archive.ofDirectory archive.directory = .ok archive := by
  simp only [Archive.ofDirectory, holds.description,
    Description.ofBytes_toBytes bounded]
  rw [← holds.latest]

theorem restoreInto_of_read
    (holds : archive.Holds description records) {body : Body}
    (read : Body.ofBytes (Body.ofRecords records).toBytes = .ok body)
    (store : TraceStore) :
    archive.restoreInto store =
      .ok (store.restore body.records, some description) := by
  simp only [restoreInto, holds.latest, Directory.readBody, holds.body, read]

theorem restoreInto_of_unread
    (holds : archive.Holds description records) {error : SnapshotError}
    (unread : Body.ofBytes (Body.ofRecords records).toBytes = .error error)
    (store : TraceStore) :
    archive.restoreInto store = .error error := by
  simp only [restoreInto, holds.latest, Directory.readBody, holds.body, unread]

end Holds

end Archive

end Snapshot

end TraceArchive
