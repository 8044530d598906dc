import TraceArchive.Double.Shortest
import TraceArchive.KeyMap
import TraceArchive.Text.Hex

/-!
# JSON values and their text

A number is a whole number of 64 bits where it was written or computed as one,
and a double otherwise. The entries of an object are a list: a value that was
read has them in ascending order of the keys, a value that is composed for
writing has them in the order in which they are to be written.
-/

namespace TraceArchive

/-- A JSON number. -/
inductive Json.Number where
  /-- A whole number in the signed or the unsigned range of 64 bits. -/
  | integer (value : Int)
      (inRange :
        -9223372036854775808 ≤ value ∧ value < 18446744073709551616)
  /-- Any other number. -/
  | double (value : Double)
deriving DecidableEq

/-- A JSON value. -/
inductive Json where
  | null
  | boolean (value : Bool)
  | number (value : Json.Number)
  | string (value : String)
  | list (items : List Json)
  | object (entries : List (String × Json))
deriving Inhabited

namespace Json

/-- The double nearest to a number. -/
def Number.toDouble : Number → Double
  | .integer value _ => Double.ofInt value
  | .double value => value

/-- A natural number of 64 bits. -/
def ofWord (word : UInt64) : Json :=
  .number (.integer word.toNat (by have := word.toNat_lt; omega))

/-- A natural number of 32 bits. -/
def ofHalfWord (word : UInt32) : Json :=
  .number (.integer word.toNat (by have := word.toNat_lt; omega))

/-- A natural number, as a double when it is beyond 64 bits. -/
def ofNat (number : Nat) : Json :=
  if isWord : number < 18446744073709551616 then
    .number (.integer number (by omega))
  else .number (.double (Double.ofInt number))

/-- A whole number, as a double when it is beyond 64 bits. -/
def ofInt (value : Int) : Json :=
  if inRange : -9223372036854775808 ≤ value ∧ value < 18446744073709551616 then
    .number (.integer value inRange)
  else .number (.double (Double.ofInt value))

/-- Text, or `null` without one. -/
def ofText? : Option String → Json
  | none => .null
  | some text => .string text

/-- The word for the kind of a value. -/
def kindName : Json → String
  | .null => "null"
  | .boolean _ => "bool"
  | .number _ => "number"
  | .string _ => "string"
  | .list _ => "list"
  | .object _ => "map"

/-! ## Writing -/

/-- Numbers from `0.00001` up to sixteen digits before the point are written
positionally, all others with an exponent. -/
def layout : Double.Layout where
  leastPositional := -5
  positionalLimit := 16

/-- The text of a number; what is not finite has none and is written as
`null`. -/
def Number.characters : Number → List Char
  | .integer value _ => (toString value).toList
  | .double value =>
      if value.isFinite then layout.text value else ['n', 'u', 'l', 'l']

/-- A character inside a quoted text: the quote, the backslash and the control
characters below the space are escaped, all others stand for themselves. -/
def escaped (character : Char) : List Char :=
  if character = '"' then ['\\', '"']
  else if character = '\\' then ['\\', '\\']
  else if character = '\n' then ['\\', 'n']
  else if character = '\r' then ['\\', 'r']
  else if character = '\t' then ['\\', 't']
  else if character.toNat = 0x08 then ['\\', 'b']
  else if character.toNat = 0x0C then ['\\', 'f']
  else if character.toNat < 0x20 then
    ['\\', 'u', '0', '0'] ++ Text.Hex.encodeByte (UInt8.ofNat character.toNat)
  else [character]

/-- A text in quotes. -/
def quoted (text : String) : List Char :=
  '"' :: text.toList.flatMap escaped ++ ['"']

mutual

/-- The text of a value, without blanks. -/
def characters : Json → List Char
  | .null => ['n', 'u', 'l', 'l']
  | .boolean true => ['t', 'r', 'u', 'e']
  | .boolean false => ['f', 'a', 'l', 's', 'e']
  | .number value => value.characters
  | .string value => quoted value
  | .list items => '[' :: itemCharacters items ++ [']']
  | .object entries => '\x7b' :: entryCharacters entries ++ ['\x7d']

/-- The items of a list with commas between them. -/
def itemCharacters : List Json → List Char
  | [] => []
  | [item] => characters item
  | item :: next :: rest =>
      characters item ++ ',' :: itemCharacters (next :: rest)

/-- The entries of an object with commas between them. -/
def entryCharacters : List (String × Json) → List Char
  | [] => []
  | [(key, value)] => quoted key ++ ':' :: characters value
  | (key, value) :: next :: rest =>
      quoted key ++ ':' :: characters value ++
        ',' :: entryCharacters (next :: rest)

end

/-- The text of a value, without blanks. -/
def render (value : Json) : String :=
  String.ofList value.characters

end Json

end TraceArchive
