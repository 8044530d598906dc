import TraceArchive.Trace.Stored

/-!
# The store of traces

Each trace is stored under its identifier together with the number of writes
that led to it. A write tells which version it is based on and is refused when
the store holds another one, so that no write is lost.
-/

namespace TraceArchive

/-- A stored trace. Its first version is one, and every write adds one. -/
structure StoredTrace where
  trace : Trace
  /-- The version, which is kept in 64 bits. Beyond these it is counted on here,
  so that what is said of the version after a write is about records with
  `StoredTrace.HasRoom`. -/
  version : Nat

/-- Whether the version after that of a record has 64 bits. -/
def StoredTrace.HasRoom (record : StoredTrace) : Prop :=
  record.version + 1 < UInt64.size

instance (record : StoredTrace) : Decidable record.HasRoom :=
  inferInstanceAs (Decidable (_ < _))

/-- Why the store refuses a write or gives no answer. -/
inductive StoreError where
  /-- A trace that was to be created is already there. -/
  | alreadyExists (id : String)
  /-- The stored version is not the one that the write is based on. -/
  | concurrentUpdate (id : String) (expected actual : Nat)
  /-- A trace that was to be replaced is not there. -/
  | notFound (id : String)
  /-- The key of a write is not the identifier of its trace. -/
  | keyMismatch (key traceId : String)
  /-- The store cannot be reached. -/
  | unavailable (reason : String)
deriving DecidableEq, Repr

namespace StoreError

/-- The wording of each error. -/
def message : StoreError → String
  | .alreadyExists id => "trace '" ++ id ++ "' already exists"
  | .concurrentUpdate id expected actual =>
      "trace '" ++ id ++ "' was modified concurrently (expected version " ++
        toString expected ++ ", found " ++ toString actual ++ ")"
  | .notFound id => "trace '" ++ id ++ "' not found"
  | .keyMismatch key traceId =>
      "record key '" ++ key ++ "' does not match trace id '" ++ traceId ++ "'"
  | .unavailable reason => "storage unavailable: " ++ reason

/-- The kind under which an error is reported. A trace that is already there
was created by a concurrent write. -/
def kind : StoreError → String
  | .alreadyExists _ | .concurrentUpdate _ _ _ => "CONCURRENT_UPDATE"
  | .notFound _ => "NOT_FOUND"
  | .keyMismatch _ _ => "INTERNAL_ERROR"
  | .unavailable _ => "STORAGE_UNAVAILABLE"

end StoreError

/-! ## Stored form of records -/

namespace StoredTrace

open Json (RecordField Reader RecordForm)

/-- The stored form of a record. -/
def toStored (record : StoredTrace) : Json :=
  .object
    [("trace", record.trace.toStored), ("version", .ofNat record.version)]

/-- The fields of a stored record. -/
def storedForm : RecordForm StoredTrace where
  initial := ⟨Trace.storedForm.initial, 0⟩
  fields :=
    [.needed "trace" Trace.storedForm.read
        (fun record trace => { record with trace }),
      .needed "version" (Reader.natural UInt64.size)
        (fun record version => { record with version })]
  admitsOthers := true

/-- The stored form of records in a row. -/
def listToStored (records : List StoredTrace) : Json :=
  .list (records.map toStored)

/-- Reads records in a row from their stored form. -/
def listReader : Reader (List StoredTrace) :=
  Reader.list storedForm.read

end StoredTrace

/-! ## The store -/

/-- The stored traces under their identifiers. -/
structure TraceStore where
  records : KeyMap StoredTrace

namespace TraceStore

instance : Inhabited TraceStore := ⟨⟨.empty⟩⟩

/-- The store without traces. -/
def empty : TraceStore :=
  ⟨.empty⟩

/-- The number of stored traces. -/
def size (store : TraceStore) : Nat :=
  store.records.size

/-- Whether no trace is stored. -/
def isEmpty (store : TraceStore) : Bool :=
  store.records.isEmpty

/-- The record under an identifier. -/
def get? (store : TraceStore) (id : String) : Option StoredTrace :=
  store.records.find? id

/-- All records in the order of their identifiers. -/
def listing (store : TraceStore) : List StoredTrace :=
  store.records.entries.map Prod.snd

/-- Puts a record under the identifier of its trace, whatever was there. -/
def put (store : TraceStore) (record : StoredTrace) : TraceStore :=
  ⟨store.records.insert record.trace.id record⟩

/-- Puts records one after another, with the versions that they have. -/
def restore (store : TraceStore) (records : List StoredTrace) : TraceStore :=
  records.foldl put store

/-- The record that a write leaves. The expected version zero stands for a
trace that is not stored yet. -/
def written? (store : TraceStore) (id : String) (expected : Nat)
    (trace : Trace) : Except StoreError StoredTrace :=
  if trace.id ≠ id then .error (.keyMismatch id trace.id)
  else
    match store.get? id with
    | some record =>
        if expected = 0 then .error (.alreadyExists id)
        else if record.version ≠ expected then
          .error (.concurrentUpdate id expected record.version)
        else .ok ⟨trace, record.version + 1⟩
    | none =>
        if expected ≠ 0 then .error (.notFound id) else .ok ⟨trace, 1⟩

/-- Writes a trace; a write that is refused changes nothing. -/
def write (store : TraceStore) (id : String) (expected : Nat)
    (trace : Trace) : TraceStore × Except StoreError StoredTrace :=
  match store.written? id expected trace with
  | .error error => (store, .error error)
  | .ok record => (store.put record, .ok record)

/-- Stores a trace that is not there yet. -/
def create (store : TraceStore) (trace : Trace) :
    TraceStore × Except StoreError StoredTrace :=
  store.write trace.id 0 trace

/-- Replaces a trace whose stored version is the expected one. -/
def compareAndSwap (store : TraceStore) (id : String) (expected : Nat)
    (trace : Trace) : TraceStore × Except StoreError StoredTrace :=
  store.write id expected trace

end TraceStore

end TraceArchive
