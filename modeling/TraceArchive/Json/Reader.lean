import TraceArchive.Json.Document

/-!
# Reading documents by their expected form

A reader walks a document in the order of its text and stops at the first
problem, be it a broken place or a value of the wrong form. A record is read
from an object by the names of its fields, or from a list by their order.
Containers inside each other are limited to a depth; values of unknown fields
are passed over without that limit.
-/

namespace TraceArchive.Json

/-- Why a document could not be read. -/
inductive ReadError where
  /-- The text breaks the grammar or has not the expected form. -/
  | malformed
  /-- A text is not the hexadecimal form of an identifier. -/
  | badIdentifier (text : String) (fault : Text.Hex.Fault)
  /-- A word does not belong to its vocabulary. -/
  | unknownWord (vocabulary word : String)
  /-- A number stands for no word of its vocabulary. -/
  | unknownNumber (vocabulary : String) (value : Int)
  /-- A text is no number of nanoseconds. -/
  | badTimestamp (text : String) (fault : Text.IntegerFault)
  /-- A text is no duration. -/
  | badDuration (text : String)
deriving DecidableEq, Repr

/-- What is told about an error beyond the fact that the text is malformed. -/
def ReadError.detail? : ReadError → Option String
  | .malformed => none
  | .badIdentifier text fault =>
      some ("failed to decode hex identifier '" ++ text ++ "': " ++
        fault.message)
  | .unknownWord vocabulary word =>
      some ("unknown " ++ vocabulary ++ " '" ++ word ++ "'")
  | .unknownNumber vocabulary value =>
      some ("unknown " ++ vocabulary ++ " value " ++ toString value)
  | .badTimestamp text fault =>
      some ("invalid nanosecond timestamp '" ++ text ++ "': " ++
        fault.message)
  | .badDuration text => some ("invalid duration '" ++ text ++ "'")

/-- Reads a value of a type from a document; the number says how many
containers may still be inside each other. -/
abbrev Reader (Value : Type) :=
  Nat → Document → Except ReadError Value

/-- How many lists and objects may be inside each other. -/
def depthLimit : Nat := 127

namespace Reader

variable {Value : Type}

/-! ## Simple values -/

/-- Reads a quoted text. -/
def text : Reader String
  | _, .string (some content) => .ok content
  | _, _ => .error .malformed

/-- Reads `null` as nothing and any other value with a reader. -/
def optional (reader : Reader Value) : Reader (Option Value)
  | _, .null => .ok none
  | room, document =>
      match reader room document with
      | .error error => .error error
      | .ok value => .ok (some value)

/-- The whole number of a numeral that is written without point and exponent
and fits the range of 64 bits. -/
def wholeNumber? (numeral : Numeral) : Option Int :=
  match numeral.value? with
  | some (.integer value _) => some value
  | _ => none

/-- Reads a whole number that passes a test. -/
def wholeNumber (admitted : Int → Bool) : Reader Int
  | _, .number numeral =>
      match wholeNumber? numeral with
      | some value =>
          if admitted value then .ok value else .error .malformed
      | none => .error .malformed
  | _, _ => .error .malformed

/-- Reads a natural number below a limit. -/
def natural (limit : Nat) : Reader Nat := fun room document =>
  match wholeNumber (fun value => 0 ≤ value ∧ value < limit) room document with
  | .error error => .error error
  | .ok value => .ok value.toNat

/-- Reads a natural number of 64 bits. -/
def word : Reader UInt64 := fun room document =>
  (natural UInt64.size room document).map UInt64.ofNat

/-- Reads a natural number of 32 bits. -/
def halfWord : Reader UInt32 := fun room document =>
  (natural UInt32.size room document).map UInt32.ofNat

/-! ## Arbitrary values -/

mutual

/-- Reads any value; of several values under one key the last counts. -/
def json (room : Nat) : Document → Except ReadError Json
  | .null => .ok .null
  | .boolean value => .ok (.boolean value)
  | .number numeral =>
      match numeral.value? with
      | none => .error .malformed
      | some value => .ok (.number value)
  | .string none => .error .malformed
  | .string (some content) => .ok (.string content)
  | .list items =>
      if room = 0 then .error .malformed
      else
        match jsonItems (room - 1) items with
        | .error error => .error error
        | .ok values => .ok (.list values)
  | .object entries =>
      if room = 0 then .error .malformed
      else
        match jsonEntries (room - 1) [] entries with
        | .error error => .error error
        | .ok values => .ok (.object values)
  | .broken => .error .malformed

/-- Reads any values in a row. -/
def jsonItems (room : Nat) : List Document → Except ReadError (List Json)
  | [] => .ok []
  | item :: rest =>
      match json room item with
      | .error error => .error error
      | .ok value =>
          match jsonItems room rest with
          | .error error => .error error
          | .ok values => .ok (value :: values)

/-- Reads any entries in a row and puts them to those read before. -/
def jsonEntries (room : Nat) (before : List (String × Json)) :
    List (Option String × Document) →
      Except ReadError (List (String × Json))
  | [] => .ok before
  | (none, _) :: _ => .error .malformed
  | (some key, document) :: rest =>
      match json room document with
      | .error error => .error error
      | .ok value => jsonEntries room (Entries.insert key value before) rest

end

/-! ## Lists and maps -/

/-- Reads the items of a list in a row. -/
def items (reader : Reader Value) (room : Nat) :
    List Document → Except ReadError (List Value)
  | [] => .ok []
  | item :: rest =>
      match reader room item with
      | .error error => .error error
      | .ok value =>
          match items reader room rest with
          | .error error => .error error
          | .ok values => .ok (value :: values)

/-- Reads a list. -/
def list (reader : Reader Value) : Reader (List Value)
  | 0, _ => .error .malformed
  | room + 1, .list documents => items reader room documents
  | _, _ => .error .malformed

/-- Reads entries in a row and puts them to those read before. -/
def mapEntries (reader : Reader Value) (room : Nat)
    (before : KeyMap Value) :
    List (Option String × Document) → Except ReadError (KeyMap Value)
  | [] => .ok before
  | (none, _) :: _ => .error .malformed
  | (some key, document) :: rest =>
      match reader room document with
      | .error error => .error error
      | .ok value => mapEntries reader room (before.insert key value) rest

/-- Reads an object as a map; of several values under one key the last
counts. -/
def keyMap (reader : Reader Value) : Reader (KeyMap Value)
  | 0, _ => .error .malformed
  | room + 1, .object entries => mapEntries reader room .empty entries
  | _, _ => .error .malformed

/-- Reads an object as its entries in ascending order of the keys. -/
def jsonObject : Reader (List (String × Json))
  | 0, _ => .error .malformed
  | room + 1, .object entries => jsonEntries room [] entries
  | _, _ => .error .malformed

end Reader

/-! ## Records -/

/-- A field of a record that is being read. -/
structure RecordField (Record : Type) where
  /-- The name under which the field is written. -/
  name : String
  /-- Another name under which it may be written. -/
  otherName : Option String
  /-- Whether the field has to be there. -/
  required : Bool
  /-- Reads the value of the field and puts it into the record. -/
  assign : Nat → Document → Record → Except ReadError Record

namespace RecordField

variable {Record Value : Type}

/-- A field with a reader for its value and a way to put it into the record. -/
def of (name : String) (required : Bool) (reader : Reader Value)
    (set : Record → Value → Record) : RecordField Record where
  name := name
  otherName := none
  required := required
  assign room document record :=
    match reader room document with
    | .error error => .error error
    | .ok value => .ok (set record value)

/-- A field that has to be there. -/
def needed (name : String) (reader : Reader Value)
    (set : Record → Value → Record) : RecordField Record :=
  of name true reader set

/-- A field that keeps its initial value when it is left out. -/
def possible (name : String) (reader : Reader Value)
    (set : Record → Value → Record) : RecordField Record :=
  of name false reader set

/-- The same field with another name beside its own. -/
def orNamed (field : RecordField Record) (other : String) : RecordField Record :=
  { field with otherName := some other }

/-- Whether a key is a name of the field. -/
def answersTo (field : RecordField Record) (key : String) : Bool :=
  field.name == key || field.otherName == some key

end RecordField

/-- The form of a record: its fields in order, and what happens to others. -/
structure RecordForm (Record : Type) where
  /-- The record before any field is read. -/
  initial : Record
  fields : List (RecordField Record)
  /-- Whether unknown fields are passed over. -/
  admitsOthers : Bool

namespace RecordForm

variable {Record : Type}

/-- Reads entries in the order of the text. A field that was seen before is
refused. -/
def readEntries (form : RecordForm Record) (room : Nat) :
    List String → Record → List (Option String × Document) →
      Except ReadError Record
  | seen, record, [] =>
      if form.fields.all
          (fun field => !field.required || seen.contains field.name) then
        .ok record
      else .error .malformed
  | _, _, (none, _) :: _ => .error .malformed
  | seen, record, (some key, document) :: rest =>
      match form.fields.find? (fun field => field.answersTo key) with
      | none =>
          if form.admitsOthers && document.isWhole then
            readEntries form room seen record rest
          else .error .malformed
      | some field =>
          if seen.contains field.name then .error .malformed
          else
            match field.assign room document record with
            | .error error => .error error
            | .ok changed =>
                readEntries form room (field.name :: seen) changed rest

/-- Reads items as the fields in their order; fields beyond the last item are
left out. -/
def readItems (room : Nat) :
    List (RecordField Record) → Record → List Document → Except ReadError Record
  | fields, record, [] =>
      if fields.all (fun field => !field.required) then .ok record
      else .error .malformed
  | [], _, _ :: _ => .error .malformed
  | field :: fields, record, document :: rest =>
      match field.assign room document record with
      | .error error => .error error
      | .ok changed => readItems room fields changed rest

/-- Reads a record from an object or from a list. -/
def read (form : RecordForm Record) : Reader Record
  | 0, _ => .error .malformed
  | room + 1, .object entries =>
      form.readEntries room [] form.initial entries
  | room + 1, .list documents =>
      readItems room form.fields form.initial documents
  | _, _ => .error .malformed

end RecordForm

/-! ## Texts and bodies -/

/-- Reads a whole text given as symbols; only blanks may follow the value. -/
def readSymbols {Value : Type} (reader : Reader Value)
    (symbols : List Text.Utf8.Symbol) : Except ReadError Value :=
  let (document, ends) := Document.ofSymbols symbols
  match reader depthLimit document with
  | .error error => .error error
  | .ok value => if ends then .ok value else .error .malformed

/-- Reads a whole text. -/
def readText {Value : Type} (reader : Reader Value) (text : String) :
    Except ReadError Value :=
  readSymbols reader (text.toList.map some)

/-- Reads a whole body of bytes. -/
def readBytes {Value : Type} (reader : Reader Value) (bytes : List UInt8) :
    Except ReadError Value :=
  readSymbols reader (Text.Utf8.symbols bytes)

end TraceArchive.Json
