/-!
# UTF-8

A byte string as the sequence of characters that it encodes. A byte that
belongs to no character stands for itself, as `none`, so that text with damage
in places that do not matter can still be read.
-/

namespace TraceArchive.Text.Utf8

/-- A character, or a byte that belongs to none. -/
abbrev Symbol := Option Char

/-- The bytes of a text. -/
def encode (characters : List Char) : List UInt8 :=
  characters.flatMap String.utf8EncodeChar

/-- Whether a byte can follow the first byte of a character. -/
def isContinuation (byte : UInt8) : Bool :=
  0x80 ≤ byte && byte ≤ 0xBF

/-- The six low bits of a byte, as a number. -/
def lowBits (byte : UInt8) : Nat :=
  byte.toNat % 0x40

/-- Whether a second byte can follow a first byte of three: no longer form of
a shorter character, and no half of a surrogate pair. -/
def fitsThree (first second : UInt8) : Bool :=
  if first == 0xE0 then 0xA0 ≤ second && second ≤ 0xBF
  else if first == 0xED then 0x80 ≤ second && second ≤ 0x9F
  else isContinuation second

/-- Whether a second byte can follow a first byte of four: no longer form of a
shorter character, and nothing beyond the last code point. -/
def fitsFour (first second : UInt8) : Bool :=
  if first == 0xF0 then 0x90 ≤ second && second ≤ 0xBF
  else if first == 0xF4 then 0x80 ≤ second && second ≤ 0x8F
  else isContinuation second

/-- The character of one byte. -/
def one (first : UInt8) : Char :=
  Char.ofNat first.toNat

/-- The character of two bytes. -/
def two (first second : UInt8) : Char :=
  Char.ofNat ((first.toNat - 0xC0) * 0x40 + lowBits second)

/-- The character of three bytes. -/
def three (first second third : UInt8) : Char :=
  Char.ofNat
    ((first.toNat - 0xE0) * 0x1000 + lowBits second * 0x40 + lowBits third)

/-- The character of four bytes. -/
def four (first second third fourth : UInt8) : Char :=
  Char.ofNat
    ((first.toNat - 0xF0) * 0x40000 + lowBits second * 0x1000 +
      lowBits third * 0x40 + lowBits fourth)

/-- The character at the front and the number of bytes after its first, if the
front is the form of a character. -/
def leading? : List UInt8 → Option (Char × Nat)
  | [] => none
  | first :: rest =>
      if first < 0x80 then some (one first, 0)
      else
        match rest with
        | [] => none
        | second :: others =>
            if 0xC2 ≤ first && first ≤ 0xDF then
              if isContinuation second then some (two first second, 1)
              else none
            else
              match others with
              | [] => none
              | third :: remaining =>
                  if 0xE0 ≤ first && first ≤ 0xEF then
                    if fitsThree first second && isContinuation third then
                      some (three first second third, 2)
                    else none
                  else
                    match remaining with
                    | [] => none
                    | fourth :: _ =>
                        if 0xF0 ≤ first && first ≤ 0xF4 &&
                            fitsFour first second && isContinuation third &&
                            isContinuation fourth then
                          some (four first second third fourth, 3)
                        else none

/-- Reads one character after another, after passing over the bytes that the
last one still takes; a byte that starts no character is `none`. -/
def symbolsAfter : Nat → List UInt8 → List Symbol
  | _, [] => []
  | taken + 1, _ :: rest => symbolsAfter taken rest
  | 0, first :: rest =>
      match leading? (first :: rest) with
      | some (character, more) => some character :: symbolsAfter more rest
      | none => none :: symbolsAfter 0 rest

/-- Reads one character after another; a byte that starts none is `none`. -/
def symbols (bytes : List UInt8) : List Symbol :=
  symbolsAfter 0 bytes

/-- All the characters, or nothing when a byte belongs to none. -/
def characters? : List Symbol → Option (List Char)
  | [] => some []
  | none :: _ => none
  | some character :: rest =>
      match characters? rest with
      | none => none
      | some characters => some (character :: characters)

/-- The text that a byte string encodes, if it encodes one. -/
def decode? (bytes : List UInt8) : Option String :=
  (characters? (symbols bytes)).map String.ofList

end TraceArchive.Text.Utf8
