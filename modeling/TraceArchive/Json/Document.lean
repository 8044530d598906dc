import TraceArchive.Json.Basic
import TraceArchive.Text.Integer
import TraceArchive.Text.Utf8

/-!
# JSON text as far as it can be read

A document is the tree of a text up to the first place where the text breaks
the grammar, which is marked as broken. Numbers keep their digits and a quoted
text that stands for no characters is kept as such, because whether that
matters depends on what the reader of the document wants there.

A numeral is rounded to a double once. A JSON library may round twice, first the
digits and then their product with the power of ten, and so give a neighbour of
the nearest double for some numerals. That every double is read back from the
numeral that is written for it is therefore an assumption on the library.
-/

namespace TraceArchive.Json

open Text.Utf8 (Symbol)

/-- A number as it is written. -/
structure Numeral where
  negative : Bool
  /-- The digits before the point. -/
  whole : List Char
  /-- The digits after the point; none when there is no point. -/
  fraction : List Char
  /-- The power of ten, if one is given. -/
  exponent : Option Int
deriving DecidableEq, Repr

/-- The tree of a text, up to the place where it is broken. -/
inductive Document where
  | null
  | boolean (value : Bool)
  | number (numeral : Numeral)
  /-- A quoted text, or `none` when it stands for no characters. -/
  | string (content : Option String)
  | list (items : List Document)
  | object (entries : List (Option String × Document))
  /-- Here the text breaks the grammar. -/
  | broken
deriving Inhabited

/-! ## Words, quoted texts and numbers -/

/-- The blanks between the parts of a text. -/
def isSeparator (symbol : Symbol) : Bool :=
  symbol == some ' ' || symbol == some '\n' || symbol == some '\t' ||
    symbol == some '\r'

/-- Passes over the blanks in front. -/
def skipBlanks (symbols : List Symbol) : List Symbol :=
  symbols.dropWhile isSeparator

/-- What follows a word, if the word is in front. -/
def after? : List Char → List Symbol → Option (List Symbol)
  | [], symbols => some symbols
  | expected :: word, some character :: symbols =>
      if character = expected then after? word symbols else none
  | _ :: _, _ => none

/-- A unit of the text between two quotes. -/
inductive Piece where
  | character (value : Char)
  /-- The number of a `\u` escape, which may be half of a surrogate pair. -/
  | unit (value : Nat)
  /-- A byte that belongs to no character. -/
  | stray
deriving DecidableEq, Repr

/-- The character of an escape with one letter. -/
def escape? (letter : Char) : Option Char :=
  match letter with
  | '"' => some '"'
  | '\\' => some '\\'
  | '/' => some '/'
  | 'b' => some (Char.ofNat 0x08)
  | 'f' => some (Char.ofNat 0x0C)
  | 'n' => some '\n'
  | 'r' => some '\r'
  | 't' => some '\t'
  | _ => none

/-- The number of four hexadecimal digits. -/
def unit? (first second third fourth : Char) : Option Nat :=
  match Text.Hex.digit? first, Text.Hex.digit? second,
      Text.Hex.digit? third, Text.Hex.digit? fourth with
  | some a, some b, some c, some d =>
      some (a * 0x1000 + b * 0x100 + c * 0x10 + d)
  | _, _, _, _ => none

/-- The pieces up to the closing quote and what follows it, or `none` when the
text ends before the quote, an escape is unknown or a control character stands
in it. -/
def pieces? : List Symbol → Option (List Piece × List Symbol)
  | [] => none
  | none :: rest =>
      match pieces? rest with
      | none => none
      | some (pieces, remaining) => some (.stray :: pieces, remaining)
  | some '"' :: rest => some ([], rest)
  | some '\\' :: some 'u' :: some first :: some second :: some third ::
      some fourth :: rest =>
      match unit? first second third fourth, pieces? rest with
      | some value, some (pieces, remaining) =>
          some (.unit value :: pieces, remaining)
      | _, _ => none
  | some '\\' :: some letter :: rest =>
      match escape? letter, pieces? rest with
      | some character, some (pieces, remaining) =>
          some (.character character :: pieces, remaining)
      | _, _ => none
  | some character :: rest =>
      if character = '\\' ∨ character.toNat < 0x20 then none
      else
        match pieces? rest with
        | none => none
        | some (pieces, remaining) =>
            some (.character character :: pieces, remaining)

/-- Whether a unit is the first half of a surrogate pair. -/
def isHighSurrogate (value : Nat) : Bool :=
  0xD800 ≤ value && value ≤ 0xDBFF

/-- Whether a unit is the second half of a surrogate pair. -/
def isLowSurrogate (value : Nat) : Bool :=
  0xDC00 ≤ value && value ≤ 0xDFFF

/-- The character of the two halves of a surrogate pair. -/
def ofSurrogates (high low : Nat) : Char :=
  Char.ofNat (0x10000 + (high - 0xD800) * 0x400 + (low - 0xDC00))

/-- The characters that the pieces stand for: none when a surrogate lacks its
other half or a byte is stray. -/
def charactersOf? : List Piece → Option (List Char)
  | [] => some []
  | .stray :: _ => none
  | .character value :: rest =>
      match charactersOf? rest with
      | none => none
      | some characters => some (value :: characters)
  | .unit high :: .unit low :: rest =>
      if isHighSurrogate high then
        if isLowSurrogate low then
          match charactersOf? rest with
          | none => none
          | some characters => some (ofSurrogates high low :: characters)
        else none
      else if isLowSurrogate high then none
      else
        match charactersOf? (.unit low :: rest) with
        | none => none
        | some characters => some (Char.ofNat high :: characters)
  | .unit value :: rest =>
      if isHighSurrogate value || isLowSurrogate value then none
      else
        match charactersOf? rest with
        | none => none
        | some characters => some (Char.ofNat value :: characters)

/-- The digits in front and what follows them. -/
def digitsThen : List Symbol → List Char × List Symbol
  | some character :: rest =>
      if character.isDigit then
        let (digits, remaining) := digitsThen rest
        (character :: digits, remaining)
      else ([], some character :: rest)
  | symbols => ([], symbols)

/-- The fraction in front, if a point starts one; a point without a digit is
refused. -/
def fraction? : List Symbol → Option (List Char × List Symbol)
  | some '.' :: rest =>
      match digitsThen rest with
      | ([], _) => none
      | (digits, remaining) => some (digits, remaining)
  | symbols => some ([], symbols)

/-- The digits of an exponent as its value. -/
def signedExponent? (negative : Bool) (symbols : List Symbol) :
    Option (Option Int × List Symbol) :=
  match digitsThen symbols with
  | ([], _) => none
  | (digits, remaining) =>
      let magnitude : Int := Text.numberOf digits
      some (some (if negative then -magnitude else magnitude), remaining)

/-- The exponent in front, if a letter `e` starts one; a letter without a digit
is refused. -/
def exponent? : List Symbol → Option (Option Int × List Symbol)
  | some letter :: rest =>
      if letter = 'e' ∨ letter = 'E' then
        match rest with
        | some '-' :: digits => signedExponent? true digits
        | some '+' :: digits => signedExponent? false digits
        | digits => signedExponent? false digits
      else some (none, some letter :: rest)
  | symbols => some (none, symbols)

/-- The digits before the point: a zero stands alone. -/
def whole? (symbols : List Symbol) : Option (List Char × List Symbol) :=
  match digitsThen symbols with
  | ([], _) => none
  | ('0' :: _ :: _, _) => none
  | (digits, remaining) => some (digits, remaining)

/-- The number in front, after its sign. -/
def unsignedNumeral? (negative : Bool) (symbols : List Symbol) :
    Option (Numeral × List Symbol) := do
  let (whole, afterWhole) ← whole? symbols
  let (fraction, afterFraction) ← fraction? afterWhole
  let (exponent, remaining) ← exponent? afterFraction
  return (⟨negative, whole, fraction, exponent⟩, remaining)

/-- The number in front. -/
def numeral? : List Symbol → Option (Numeral × List Symbol)
  | some '-' :: rest => unsignedNumeral? true rest
  | symbols => unsignedNumeral? false symbols

/-- The value of a number as it is written: whole numbers of 64 bits are kept
exactly, negative zero and all others are rounded to the nearest double, in one
step, and there is none beyond the finite doubles. -/
def Numeral.value? (numeral : Numeral) : Option Number :=
  let magnitude := Text.numberOf (numeral.whole ++ numeral.fraction)
  let asDouble : Option Number :=
    (Double.ofDecimal? numeral.negative magnitude
      (numeral.exponent.getD 0 - numeral.fraction.length)).map .double
  if numeral.fraction.isEmpty ∧ numeral.exponent.isNone then
    if numeral.negative then
      if isSmall : 0 < magnitude ∧ magnitude ≤ 9223372036854775808 then
        some (.integer (-magnitude) (by omega))
      else asDouble
    else if isSmall : magnitude < 18446744073709551616 then
      some (.integer magnitude (by omega))
    else asDouble
  else asDouble

/-! ## Trees -/

/-- Reads a quoted text after its opening quote. -/
def readQuoted (symbols : List Symbol) : Option (Option String × List Symbol) :=
  match pieces? symbols with
  | none => none
  | some (pieces, remaining) =>
      some ((charactersOf? pieces).map String.ofList, remaining)

/-- A document that is broken, after which nothing can be read. -/
def nothingMore : Document × List Symbol :=
  (.broken, [])

mutual

/-- Reads a value and what follows it. The first argument bounds the number of
values and separators in a row or inside each other. -/
def readValue : Nat → List Symbol → Document × List Symbol
  | 0, _ => nothingMore
  | bound + 1, symbols =>
      match skipBlanks symbols with
      | some '"' :: rest =>
          match readQuoted rest with
          | none => nothingMore
          | some (content, remaining) => (.string content, remaining)
      | some '[' :: rest =>
          match skipBlanks rest with
          | some ']' :: remaining => (.list [], remaining)
          | _ =>
              let (items, remaining) := readItems bound rest
              (.list items, remaining)
      | some '\x7b' :: rest =>
          match skipBlanks rest with
          | some '\x7d' :: remaining => (.object [], remaining)
          | _ =>
              let (entries, remaining) := readEntries bound rest
              (.object entries, remaining)
      | some 'n' :: rest =>
          match after? ['u', 'l', 'l'] rest with
          | none => nothingMore
          | some remaining => (.null, remaining)
      | some 't' :: rest =>
          match after? ['r', 'u', 'e'] rest with
          | none => nothingMore
          | some remaining => (.boolean true, remaining)
      | some 'f' :: rest =>
          match after? ['a', 'l', 's', 'e'] rest with
          | none => nothingMore
          | some remaining => (.boolean false, remaining)
      | other =>
          match numeral? other with
          | none => nothingMore
          | some (numeral, remaining) => (.number numeral, remaining)

/-- Reads the items of a list, at least one, up to the closing bracket. -/
def readItems : Nat → List Symbol → List Document × List Symbol
  | 0, _ => ([.broken], [])
  | bound + 1, symbols =>
      let (item, following) := readValue bound symbols
      match skipBlanks following with
      | some ']' :: remaining => ([item], remaining)
      | some ',' :: rest =>
          let (items, remaining) := readItems bound rest
          (item :: items, remaining)
      | _ => ([item, .broken], [])

/-- Reads the entries of an object, at least one, up to the closing brace. -/
def readEntries :
    Nat → List Symbol → List (Option String × Document) × List Symbol
  | 0, _ => ([(none, .broken)], [])
  | bound + 1, symbols =>
      match skipBlanks symbols with
      | some '"' :: afterQuote =>
          match readQuoted afterQuote with
          | none => ([(none, .broken)], [])
          | some (key, afterKey) =>
              match skipBlanks afterKey with
              | some ':' :: afterColon =>
                  let (value, following) := readValue bound afterColon
                  match skipBlanks following with
                  | some '\x7d' :: remaining => ([(key, value)], remaining)
                  | some ',' :: rest =>
                      let (entries, remaining) := readEntries bound rest
                      ((key, value) :: entries, remaining)
                  | _ => ([(key, value), (none, .broken)], [])
              | _ => ([(key, .broken)], [])
      | _ => ([(none, .broken)], [])

end

/-- The document of a text, and whether nothing but blanks follows it. -/
def Document.ofSymbols (symbols : List Symbol) : Document × Bool :=
  let (document, remaining) := readValue (2 * symbols.length + 1) symbols
  (document, (skipBlanks remaining).isEmpty)

/-! ## Whole documents -/

mutual

/-- Whether no place in the document is broken. -/
def Document.isWhole : Document → Bool
  | .broken => false
  | .list items => areWhole items
  | .object entries => haveWholeValues entries
  | _ => true

/-- Whether no place in the documents is broken. -/
def Document.areWhole : List Document → Bool
  | [] => true
  | item :: rest => item.isWhole && areWhole rest

/-- Whether no place in the values is broken. -/
def Document.haveWholeValues : List (Option String × Document) → Bool
  | [] => true
  | (_, value) :: rest => value.isWhole && haveWholeValues rest

end

end TraceArchive.Json
