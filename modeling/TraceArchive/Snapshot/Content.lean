import TraceArchive.Snapshot.Compression
import TraceArchive.Store.Basic

/-!
# Contents of snapshots

A snapshot is two files: the compressed records of the store, and a description
of them. Both are JSON and name the version of their schema.
-/

namespace TraceArchive

/-- Why a snapshot cannot be read. -/
inductive SnapshotError where
  /-- A file is not there. -/
  | fileMissing
  /-- The text of a file has not the expected form. -/
  | unreadable
  /-- The records cannot be decompressed. -/
  | damaged (fault : Snapshot.BlockFault)
  /-- The records are of another schema. -/
  | unsupportedSchema (version : UInt32)
deriving DecidableEq, Repr

namespace SnapshotError

/-- The kind under which an error is reported. -/
def kind : SnapshotError → String
  | .fileMissing => "IO"
  | .unreadable => "DESERIALIZATION"
  | .damaged _ | .unsupportedSchema _ => "CORRUPTED"

/-- What is told about an error beyond its kind. -/
def detail? : SnapshotError → Option String
  | .unsupportedSchema version =>
      some ("unsupported schema version " ++ toString version.toNat)
  | _ => none

end SnapshotError

namespace Snapshot

open Json (RecordField Reader RecordForm)

/-- The version of the schema that is written and read. -/
def schemaVersion : UInt32 := 1

/-! ## Descriptions -/

/-- The description of a snapshot. -/
structure Description where
  id : String
  /-- The time in milliseconds since the start of the year 1970. -/
  createdAt : Int
  traceCount : Nat
  /-- The number of compressed bytes. -/
  sizeBytes : Nat
  schemaVersion : UInt32
deriving DecidableEq, Repr

namespace Description

/-- The description as a JSON value. -/
def toJson (description : Description) : Json :=
  .object
    [("id", .string description.id),
      ("created_at", .ofInt description.createdAt),
      ("trace_count", .ofNat description.traceCount),
      ("size_bytes", .ofNat description.sizeBytes),
      ("schema_version", .ofHalfWord description.schemaVersion)]

/-- The fields of a description. -/
def form : RecordForm Description where
  initial := ⟨"", 0, 0, 0, 0⟩
  fields :=
    [.needed "id" Reader.text
        (fun description id => { description with id }),
      .needed "created_at"
        (Reader.wholeNumber
          (fun value =>
            -9223372036854775808 ≤ value ∧ value < 9223372036854775808))
        (fun description createdAt => { description with createdAt }),
      .needed "trace_count" (Reader.natural UInt64.size)
        (fun description traceCount => { description with traceCount }),
      .needed "size_bytes" (Reader.natural UInt64.size)
        (fun description sizeBytes => { description with sizeBytes }),
      .needed "schema_version" Reader.halfWord
        (fun description schemaVersion =>
          { description with schemaVersion })]
  admitsOthers := true

/-- The bytes of a description. -/
def toBytes (description : Description) : List UInt8 :=
  Text.Utf8.encode description.toJson.characters

/-- Reads a description from its bytes. -/
def ofBytes (bytes : List UInt8) : Except SnapshotError Description :=
  match Json.readBytes form.read bytes with
  | .error _ => .error .unreadable
  | .ok description => .ok description

end Description

/-! ## Records -/

/-- The records of a snapshot with the version of their schema. -/
structure Body where
  schemaVersion : UInt32
  records : List StoredTrace

namespace Body

/-- The body as a JSON value. -/
def toJson (body : Body) : Json :=
  .object
    [("schema_version", .ofHalfWord body.schemaVersion),
      ("records", StoredTrace.listToStored body.records)]

/-- The fields of a body. -/
def form : RecordForm Body where
  initial := ⟨0, []⟩
  fields :=
    [.needed "schema_version" Reader.halfWord
        (fun body schemaVersion => { body with schemaVersion }),
      .needed "records" StoredTrace.listReader
        (fun body records => { body with records })]
  admitsOthers := true

/-- The body of a snapshot of records. -/
def ofRecords (records : List StoredTrace) : Body :=
  ⟨Snapshot.schemaVersion, records⟩

/-- The compressed bytes of a body. -/
def toBytes (body : Body) : List UInt8 :=
  compress (Text.Utf8.encode body.toJson.characters)

/-- The text of compressed bytes. -/
def textOfBytes (bytes : List UInt8) : Except SnapshotError (List UInt8) :=
  match decompress bytes with
  | .error fault => .error (.damaged fault)
  | .ok text => .ok text

/-- Reads a body of the supported schema from its compressed bytes. -/
def ofBytes (bytes : List UInt8) : Except SnapshotError Body :=
  match textOfBytes bytes with
  | .error error => .error error
  | .ok text =>
      match Json.readBytes form.read text with
      | .error _ => .error .unreadable
      | .ok body =>
          if body.schemaVersion = Snapshot.schemaVersion then .ok body
          else .error (.unsupportedSchema body.schemaVersion)

end Body

end Snapshot

end TraceArchive
