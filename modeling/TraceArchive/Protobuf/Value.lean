import TraceArchive.Json.Basic
import TraceArchive.Protobuf.Field

/-!
# Dynamic values on the wire

A value is one of six kinds, each with a field number of its own; an empty
message is a value of no kind. A map of values is itself a message with the map
as its only field, and so is a list.
-/

namespace TraceArchive.Protobuf

/-- A value of a kind that is known only when it is read. -/
inductive Value where
  /-- A value of no kind. -/
  | absent
  | null
  | number (value : Double)
  | string (value : String)
  | boolean (value : Bool)
  | struct (entries : List (String × Value))
  | list (items : List Value)
deriving Inhabited

namespace Value

/-! ## Writing -/

mutual

/-- The fields of a value. -/
def fields : Value → List Field
  | .absent => []
  | .null => [⟨1, .varint 0⟩]
  | .number value => [⟨2, .fixed64 value.toBits⟩]
  | .string value => [⟨3, .ofText value⟩]
  | .boolean value => [⟨4, .varint (if value then 1 else 0)⟩]
  | .struct entries => [⟨5, .delimited (encodeEntries entries)⟩]
  | .list items => [⟨6, .delimited (encodeItems items)⟩]

/-- The bytes of a map of values. -/
def encodeEntries : List (String × Value) → List UInt8
  | [] => []
  | (key, value) :: rest =>
      Field.encode
          ⟨1, .delimited
            ((if key.isEmpty then [] else Field.encode ⟨1, .ofText key⟩) ++
              Field.encode ⟨2, .delimited (encodeFields (fields value))⟩)⟩ ++
        encodeEntries rest

/-- The bytes of a list of values. -/
def encodeItems : List Value → List UInt8
  | [] => []
  | item :: rest =>
      Field.encode ⟨1, .delimited (encodeFields (fields item))⟩ ++
        encodeItems rest

end

/-- The bytes of a value. -/
def encode (value : Value) : List UInt8 :=
  encodeFields value.fields

/-! ## Reading -/

/-- The known fields of a value. -/
def schema : Schema := ⟨[1, 2, 3, 4, 5, 6], []⟩

/-- The known fields of a map of values. -/
def structSchema : Schema := ⟨[], [1]⟩

/-- The known fields of a list of values. -/
def listSchema : Schema := ⟨[1], []⟩

/-- The entries of a value that is a map so far. -/
def entriesSoFar : Value → List (String × Value)
  | .struct entries => entries
  | _ => []

/-- The items of a value that is a list so far. -/
def itemsSoFar : Value → List Value
  | .list items => items
  | _ => []

/-- Puts a field into a value: the last kind counts, but the parts of a map or
of a list are put together. -/
def absorb
    (mergeStruct : List (String × Value) → List UInt8 →
      Option (List (String × Value)))
    (mergeList : List Value → List UInt8 → Option (List Value))
    (value : Value) (field : Field) : Option Value :=
  match field.number with
  | 1 => field.payload.int32?.map (fun _ => .null)
  | 2 => field.payload.fixed64?.map (fun bits => .number (Double.ofBits bits))
  | 3 => field.payload.text?.map .string
  | 4 => field.payload.boolean?.map .boolean
  | 5 =>
      match field.payload.bytes? with
      | none => none
      | some bytes => (mergeStruct value.entriesSoFar bytes).map .struct
  | _ =>
      match field.payload.bytes? with
      | none => none
      | some bytes => (mergeList value.itemsSoFar bytes).map .list

/-- Puts an entry into a map of values. -/
def absorbEntry (room : Nat)
    (readValue : Value → Payload → Option Value)
    (entries : List (String × Value)) (field : Field) :
    Option (List (String × Value)) :=
  match field.payload.bytes? with
  | none => none
  | some bytes =>
      match readEntry room .absent readValue bytes with
      | none => none
      | some (key, value) => some (Entries.insert key value entries)

/-- Puts an item to a list of values. -/
def absorbItem (readValue : Value → Payload → Option Value)
    (items : List Value) (field : Field) : Option (List Value) :=
  match readValue .absent field.payload with
  | none => none
  | some item => some (items ++ [item])

/-- Reads a value with a way to put its bytes together with what was read
before. -/
def nested (mergeValue : Value → List UInt8 → Option Value) (value : Value)
    (payload : Payload) : Option Value :=
  match payload.bytes? with
  | none => none
  | some bytes => mergeValue value bytes

/-- Nothing can be read where there is no room left. -/
def noRoom {Message : Type} (_ : Message) (_ : List UInt8) : Option Message :=
  none

/-- No value can be read where there is no room left. -/
def noRoomForValue (_ : Value) (_ : Payload) : Option Value :=
  none

mutual

/-- Puts the bytes of a value together with what was read of it before. -/
def mergeValue : Nat → Value → List UInt8 → Option Value
  | 0 => merge schema (absorb noRoom noRoom) 0
  | room + 1 =>
      merge schema (absorb (mergeStruct room) (mergeList room)) (room + 1)

/-- Puts the bytes of a map together with what was read of it before. An entry
takes room as well as its value. -/
def mergeStruct :
    Nat → List (String × Value) → List UInt8 →
      Option (List (String × Value))
  | 0 => merge structSchema (fun _ _ => none) 0
  | 1 => merge structSchema (absorbEntry 0 noRoomForValue) 1
  | room + 2 =>
      merge structSchema (absorbEntry (room + 1) (nested (mergeValue room)))
        (room + 2)

/-- Puts the bytes of a list together with what was read of it before. -/
def mergeList : Nat → List Value → List UInt8 → Option (List Value)
  | 0 => merge listSchema (fun _ _ => none) 0
  | room + 1 =>
      merge listSchema (absorbItem (nested (mergeValue room))) (room + 1)

end

end Value

/-- Reads a nested message with a way to put its bytes together with what was
read before, if there is room for it. -/
def readNested {Message : Type}
    (mergeMessage : Nat → Message → List UInt8 → Option Message) :
    Nat → Message → Payload → Option Message
  | 0, _, _ => none
  | room + 1, message, payload =>
      match payload.bytes? with
      | none => none
      | some bytes => mergeMessage room message bytes

end TraceArchive.Protobuf
