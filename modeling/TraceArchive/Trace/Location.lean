import TraceArchive.Vocabulary

/-!
# Locations

A trace belongs to an experiment or to an inference table, whose full name is
that of a catalog, a schema and a table joined by points.
-/

namespace TraceArchive

/-- The place that a trace belongs to. -/
inductive TraceLocation where
  /-- The experiment with an identifier. -/
  | experiment (identifier : String)
  /-- The inference table with a full name. -/
  | inferenceTable (fullName : String)
deriving DecidableEq, Repr, Inhabited

/-- The three parts of the full name of a table. -/
structure TableName where
  catalog : String
  schema : String
  table : String
deriving DecidableEq, Repr

namespace TraceLocation

/-- The kind of a location. -/
def kind : TraceLocation → LocationKind
  | .experiment _ => .experiment
  | .inferenceTable _ => .inferenceTable

/-- The location as messages name it. -/
def describe : TraceLocation → String
  | .experiment identifier => "experiment '" ++ identifier ++ "'"
  | .inferenceTable fullName => "inference table '" ++ fullName ++ "'"

/-- The parts of a full name, if there are exactly three. -/
def tableName? (fullName : String) : Option TableName :=
  match Text.partsAt '.' fullName.toList with
  | [catalog, schema, table] =>
      some ⟨String.ofList catalog, String.ofList schema, String.ofList table⟩
  | _ => none

/-! ## Stored form -/

/-- The name of the field that holds the identifier or the full name. -/
def storedField : LocationKind → Option String
  | .experiment => some "experiment_id"
  | .inferenceTable => some "full_table_name"
  | .unspecified => none

/-- The location of a kind with an identifier or a full name. -/
def ofKind? : LocationKind → String → Option TraceLocation
  | .experiment, identifier => some (.experiment identifier)
  | .inferenceTable, fullName => some (.inferenceTable fullName)
  | .unspecified, _ => none

/-- The stored form of a location. -/
def toStored : TraceLocation → Json
  | .experiment identifier =>
      .object
        [("type", Vocabulary.toJson LocationKind.experiment),
          ("experiment_id", .string identifier)]
  | .inferenceTable fullName =>
      .object
        [("type", Vocabulary.toJson LocationKind.inferenceTable),
          ("full_table_name", .string fullName)]

/-- The kind that a stored location declares, by its exact name. -/
def storedKind? : Json.Document → Option LocationKind
  | .string (some "MLFLOW_EXPERIMENT") => some .experiment
  | .string (some "INFERENCE_TABLE") => some .inferenceTable
  | _ => none

/-- The documents under a key. -/
def documentsUnder (key : String)
    (entries : List (Option String × Json.Document)) : List Json.Document :=
  (entries.filter (fun entry => entry.1 == some key)).map Prod.snd

/-- The location of a kind whose identifier or full name is a document. -/
def ofDocument (kind : LocationKind) (room : Nat) (document : Json.Document) :
    Except Json.ReadError TraceLocation :=
  match Json.Reader.text room document with
  | .error error => .error error
  | .ok text =>
      match ofKind? kind text with
      | none => .error .malformed
      | some location => .ok location

/-- Whether a document can be read as a value of any form. -/
def isReadable (room : Nat) (document : Json.Document) : Bool :=
  (Json.Reader.json room document).isOk

/-- Reads a location from its stored form: an object in which the kind and the
field of that kind stand once, or a list of both. All other values have to be
readable too. -/
def storedReader : Json.Reader TraceLocation
  | room + 1, .object entries =>
      if entries.all
          (fun entry => entry.1.isSome && isReadable room entry.2) then
        match documentsUnder "type" entries with
        | [declared] =>
            match storedKind? declared with
            | none => .error .malformed
            | some kind =>
                match documentsUnder ((storedField kind).getD "") entries with
                | [document] => ofDocument kind room document
                | _ => .error .malformed
        | _ => .error .malformed
      else .error .malformed
  | room + 1, .list [declared, document] =>
      match storedKind? declared with
      | none => .error .malformed
      | some kind => ofDocument kind room document
  | _, _ => .error .malformed

end TraceLocation

end TraceArchive
