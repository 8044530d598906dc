import TraceArchive.Text.Utf8

/-!
# Fields on the wire

A message is a row of fields, each with a number and a payload whose form is
told by a wire type. Reading a message takes the row apart; fields that the
message does not know are passed over. Messages inside each other are limited
to a depth, their room.
-/

namespace TraceArchive.Protobuf

/-- What a field carries. -/
inductive Payload where
  | varint (value : UInt64)
  | fixed64 (value : UInt64)
  | delimited (bytes : List UInt8)
  | fixed32 (value : UInt32)
deriving DecidableEq, Repr

/-- A field of a message. -/
structure Field where
  number : Nat
  payload : Payload
deriving DecidableEq, Repr

/-- How many messages may be inside each other. -/
def depthLimit : Nat := 100

/-! ## Writing -/

/-- A number in groups of seven bits, the lowest first; every byte but the last
has its high bit set. The first argument bounds the number of further bytes. -/
def varintWithin : Nat → Nat → List UInt8
  | 0, value => [UInt8.ofNat value]
  | bound + 1, value =>
      if value < 128 then [UInt8.ofNat value]
      else UInt8.ofNat (value % 128 + 128) :: varintWithin bound (value / 128)

/-- A number of at most 64 bits in groups of seven bits. -/
def encodeVarint (value : Nat) : List UInt8 :=
  varintWithin 9 value

/-- The lowest bytes of a number, the lowest first. -/
def littleEndian : Nat → Nat → List UInt8
  | 0, _ => []
  | count + 1, value =>
      UInt8.ofNat (value % 256) :: littleEndian count (value / 256)

/-- The wire type of a payload. -/
def Payload.wireType : Payload → Nat
  | .varint _ => 0
  | .fixed64 _ => 1
  | .delimited _ => 2
  | .fixed32 _ => 5

/-- The bytes of a payload. -/
def Payload.encode : Payload → List UInt8
  | .varint value => encodeVarint value.toNat
  | .fixed64 value => littleEndian 8 value.toNat
  | .delimited bytes => encodeVarint bytes.length ++ bytes
  | .fixed32 value => littleEndian 4 value.toNat

/-- The bytes of a field. -/
def Field.encode (field : Field) : List UInt8 :=
  encodeVarint (8 * field.number + field.payload.wireType) ++ field.payload.encode

/-- The bytes of a message with the given fields. -/
def encodeFields (fields : List Field) : List UInt8 :=
  fields.flatMap Field.encode

/-! ## Reading -/

/-- Reads a number in groups of seven bits after some groups with a value. The
tenth group holds one bit and is the last. -/
def readVarintFrom (position value : Nat) :
    List UInt8 → Option (Nat × List UInt8)
  | [] => none
  | byte :: rest =>
      let total := value + byte.toNat % 128 * Nat.pow 128 position
      if byte < 128 then
        if position = 9 ∧ 2 ≤ byte then none else some (total, rest)
      else if 9 ≤ position then none
      else readVarintFrom (position + 1) total rest

/-- Reads a number in groups of seven bits. -/
def readVarint (bytes : List UInt8) : Option (Nat × List UInt8) :=
  readVarintFrom 0 0 bytes

/-- Reads a number of so many bytes, the lowest first. -/
def readLittleEndian : Nat → List UInt8 → Option (Nat × List UInt8)
  | 0, bytes => some (0, bytes)
  | _ + 1, [] => none
  | count + 1, byte :: rest =>
      match readLittleEndian count rest with
      | none => none
      | some (value, remaining) =>
          some (byte.toNat + 256 * value, remaining)

/-- Reads so many bytes as they are. -/
def readBytes (count : Nat) (bytes : List UInt8) :
    Option (List UInt8 × List UInt8) :=
  if count ≤ bytes.length then some (bytes.take count, bytes.drop count)
  else none

/-- Reads bytes with their number in front. -/
def readDelimited (bytes : List UInt8) : Option (List UInt8 × List UInt8) :=
  match readVarint bytes with
  | none => none
  | some (count, rest) => readBytes count rest

/-- A field number, a wire type, and what follows them. -/
structure Key where
  number : Nat
  wireType : Nat
  rest : List UInt8

/-- Reads the key of a field: it has 32 bits, and no field has number zero. -/
def readKey (bytes : List UInt8) : Option Key :=
  match readVarint bytes with
  | none => none
  | some (value, rest) =>
      if value < UInt32.size ∧ 8 ≤ value ∧ value % 8 < 6 then
        some ⟨value / 8, value % 8, rest⟩
      else none

/-- Reads the payload of a wire type. -/
def readPayload (wireType : Nat) (bytes : List UInt8) :
    Option (Payload × List UInt8) :=
  match wireType with
  | 0 =>
      (readVarint bytes).map
        (fun (value, rest) => (.varint (UInt64.ofNat value), rest))
  | 1 =>
      (readLittleEndian 8 bytes).map
        (fun (value, rest) => (.fixed64 (UInt64.ofNat value), rest))
  | 2 =>
      (readDelimited bytes).map
        (fun (content, rest) => (.delimited content, rest))
  | 5 =>
      (readLittleEndian 4 bytes).map
        (fun (value, rest) => (.fixed32 (UInt32.ofNat value), rest))
  | _ => none

/-- Passes over the fields of a group up to the end mark with its number. The
first argument bounds the number of fields. -/
def skipGroup : Nat → Nat → Nat → List UInt8 → Option (List UInt8)
  | 0, _, _, _ => none
  | bound + 1, room, number, bytes =>
      match readKey bytes with
      | none => none
      | some key =>
          if key.wireType = 4 then
            if key.number = number then some key.rest else none
          else if room = 0 then none
          else
            let following :=
              if key.wireType = 3 then
                skipGroup bound (room - 1) key.number key.rest
              else (readPayload key.wireType key.rest).map Prod.snd
            match following with
            | none => none
            | some rest => skipGroup bound room number rest

/-- Passes over a field that a message does not know; that takes room, too. -/
def skipUnknown (room : Nat) (key : Key) : Option (List UInt8) :=
  if room = 0 then none
  else if key.wireType = 3 then
    skipGroup (key.rest.length + 1) (room - 1) key.number key.rest
  else (readPayload key.wireType key.rest).map Prod.snd

/-- The fields that a message knows. -/
structure Schema where
  /-- The numbers of all fields but the maps. -/
  plain : List Nat
  /-- The numbers of the fields that are maps. An entry of a map has its length
  in front, whatever its wire type says. -/
  maps : List Nat

/-- Takes a row of fields apart. The first argument bounds their number. -/
def readFieldsWithin (schema : Schema) (room : Nat) :
    Nat → List UInt8 → Option (List Field)
  | _, [] => some []
  | 0, _ :: _ => none
  | bound + 1, bytes =>
      match readKey bytes with
      | none => none
      | some key =>
          if schema.plain.contains key.number ||
              schema.maps.contains key.number then
            let wireType :=
              if schema.maps.contains key.number then 2 else key.wireType
            match readPayload wireType key.rest with
            | none => none
            | some (payload, rest) =>
                match readFieldsWithin schema room bound rest with
                | none => none
                | some fields => some (⟨key.number, payload⟩ :: fields)
          else
            match skipUnknown room key with
            | none => none
            | some rest => readFieldsWithin schema room bound rest

/-- The known fields of a message in their order. -/
def readFields (schema : Schema) (room : Nat) (bytes : List UInt8) :
    Option (List Field) :=
  readFieldsWithin schema room bytes.length bytes

/-- Puts one field after another into a message. -/
def absorbAll {Message : Type} (absorb : Message → Field → Option Message) :
    Message → List Field → Option Message
  | message, [] => some message
  | message, field :: rest =>
      match absorb message field with
      | none => none
      | some changed => absorbAll absorb changed rest

/-- Puts the fields of a message into what was read of it before. -/
def merge {Message : Type} (schema : Schema)
    (absorb : Message → Field → Option Message) (room : Nat)
    (message : Message) (bytes : List UInt8) : Option Message :=
  match readFields schema room bytes with
  | none => none
  | some fields => absorbAll absorb message fields

/-! ## Payloads as values -/

namespace Payload

/-- The bytes of a payload. -/
def bytes? : Payload → Option (List UInt8)
  | .delimited bytes => some bytes
  | _ => none

/-- The text of a payload. -/
def text? : Payload → Option String
  | .delimited bytes => Text.Utf8.decode? bytes
  | _ => none

/-- The signed number of 32 bits in the low bits of a payload. -/
def int32? : Payload → Option Int
  | .varint value => some (Int.bmod value.toNat UInt32.size)
  | _ => none

/-- The signed number of 64 bits of a payload. -/
def int64? : Payload → Option Int
  | .varint value => some (Int.bmod value.toNat UInt64.size)
  | _ => none

/-- The unsigned number in the low 32 bits of a payload. -/
def uint32? : Payload → Option UInt32
  | .varint value => some (UInt32.ofNat value.toNat)
  | _ => none

/-- Whether the number of a payload is not zero. -/
def boolean? : Payload → Option Bool
  | .varint value => some (value != 0)
  | _ => none

/-- The 64 bits of a payload. -/
def fixed64? : Payload → Option UInt64
  | .fixed64 value => some value
  | _ => none

/-- The 32 bits of a payload. -/
def fixed32? : Payload → Option UInt32
  | .fixed32 value => some value
  | _ => none

/-- A text as a payload. -/
def ofText (text : String) : Payload :=
  .delimited (Text.Utf8.encode text.toList)

/-- A signed number as a payload of 64 bits. -/
def ofInt (value : Int) : Payload :=
  .varint (UInt64.ofNat (value % UInt64.size).toNat)

/-- An unsigned number as a payload. -/
def ofHalfWord (value : UInt32) : Payload :=
  .varint (UInt64.ofNat value.toNat)

end Payload

/-! ## Maps -/

/-- The known fields of an entry of a map. -/
def entrySchema : Schema := ⟨[1, 2], []⟩

/-- Puts a field into an entry of a map. -/
def absorbEntry {Value : Type} (readValue : Value → Payload → Option Value)
    (entry : String × Value) (field : Field) : Option (String × Value) :=
  if field.number = 1 then
    field.payload.text?.map (fun key => (key, entry.2))
  else (readValue entry.2 field.payload).map (fun value => (entry.1, value))

/-- Reads an entry of a map. A key or value that is left out has its initial
value. -/
def readEntry {Value : Type} (room : Nat) (initial : Value)
    (readValue : Value → Payload → Option Value) (bytes : List UInt8) :
    Option (String × Value) :=
  merge entrySchema (absorbEntry readValue) room ("", initial) bytes

end TraceArchive.Protobuf
