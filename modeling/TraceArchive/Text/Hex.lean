/-!
# Hexadecimal text

Byte strings written as two digits a byte. Writing uses lower case; reading
takes either case and refuses a text with the first of its faults, a wrong
length before a wrong character.
-/

namespace TraceArchive.Text.Hex

/-- Why a text is not the hexadecimal form of a byte string. -/
inductive Fault where
  /-- The text has an odd number of bytes. -/
  | oddLength
  /-- A byte of the text is no digit; the position counts bytes from zero. -/
  | invalidByte (byte : UInt8) (position : Nat)
deriving DecidableEq, Repr

/-- The value of a hexadecimal digit of either case. -/
def digit? (character : Char) : Option Nat :=
  if '0' ≤ character ∧ character ≤ '9' then
    some (character.toNat - '0'.toNat)
  else if 'a' ≤ character ∧ character ≤ 'f' then
    some (character.toNat - 'a'.toNat + 10)
  else if 'A' ≤ character ∧ character ≤ 'F' then
    some (character.toNat - 'A'.toNat + 10)
  else none

/-- The lower-case digit of a value below sixteen. -/
def digit (value : Nat) : Char :=
  if value < 10 then Char.ofNat ('0'.toNat + value)
  else Char.ofNat ('a'.toNat + value - 10)

/-- The two digits of a byte. -/
def encodeByte (byte : UInt8) : List Char :=
  [digit (byte.toNat / 16), digit (byte.toNat % 16)]

/-- The digits of a byte string. -/
def encode (bytes : List UInt8) : List Char :=
  bytes.flatMap encodeByte

/-- The number of bytes that the characters take in UTF-8. -/
def byteLength (characters : List Char) : Nat :=
  characters.foldr (fun character bytes => character.utf8Size + bytes) 0

/-- The fault of a character that is no digit: its first byte in UTF-8. -/
def invalidAt (position : Nat) (character : Char) : Fault :=
  .invalidByte ((String.utf8EncodeChar character).headD 0) position

/-- Reads the digits two at a time, `position` bytes into the text. -/
def decodeFrom (position : Nat) :
    List Char → Except Fault (List UInt8)
  | [] => .ok []
  | [character] => .error (invalidAt position character)
  | high :: low :: rest =>
      match digit? high with
      | none => .error (invalidAt position high)
      | some highValue =>
          match digit? low with
          | none => .error (invalidAt (position + 1) low)
          | some lowValue =>
              match decodeFrom (position + 2) rest with
              | .error fault => .error fault
              | .ok bytes =>
                  .ok (UInt8.ofNat (16 * highValue + lowValue) :: bytes)

/-- Reads the hexadecimal form of a byte string. -/
def decode (characters : List Char) : Except Fault (List UInt8) :=
  if byteLength characters % 2 = 1 then .error .oddLength
  else decodeFrom 0 characters

/-! ## Wording of the faults -/

/-- A number in lower-case hexadecimal digits without leading zeros. -/
def numeral (value : Nat) : List Char :=
  Nat.toDigits 16 value

/-- A byte as a quoted character: read as the code point of the same number,
with an escape for controls, blanks other than the space, the soft hyphen, the
quote and the backslash. -/
def quotedByte (byte : UInt8) : String :=
  let code := byte.toNat
  let body : List Char :=
    if code = 0x00 then ['\\', '0']
    else if code = 0x09 then ['\\', 't']
    else if code = 0x0A then ['\\', 'n']
    else if code = 0x0D then ['\\', 'r']
    else if code = 0x27 then ['\\', '\x27']
    else if code = 0x5C then ['\\', '\\']
    else if code < 0x20 ∨ (0x7F ≤ code ∧ code ≤ 0xA0) ∨ code = 0xAD then
      ['\\', 'u', '\x7b'] ++ numeral code ++ ['\x7d']
    else [Char.ofNat code]
  String.ofList (['\x27'] ++ body ++ ['\x27'])

/-- The wording of each fault. -/
def Fault.message : Fault → String
  | .oddLength => "Odd number of digits"
  | .invalidByte byte position =>
      "Invalid character " ++ quotedByte byte ++ " at position " ++
        toString position

end TraceArchive.Text.Hex
