/-!
# Blanks, letter case and separators

The characters that count as white space around identifiers, names and numbers,
the functions that strip them from either end of a text, the two cases of the
letters `A` to `Z`, and the parts of a text between separators.
-/

namespace TraceArchive.Text

/-- The characters of the Unicode property `White_Space`. -/
def isBlank (character : Char) : Bool :=
  let code := character.toNat
  (0x09 ≤ code && code ≤ 0x0D) || code == 0x20 || code == 0x85 ||
    code == 0xA0 || code == 0x1680 || (0x2000 ≤ code && code ≤ 0x200A) ||
    code == 0x2028 || code == 0x2029 || code == 0x202F || code == 0x205F ||
    code == 0x3000

/-- Leaves out the blanks in front. -/
def trimStart (characters : List Char) : List Char :=
  characters.dropWhile isBlank

/-- Leaves out the blanks at the end. -/
def trimEnd (characters : List Char) : List Char :=
  (characters.reverse.dropWhile isBlank).reverse

/-- Leaves out the blanks at both ends. -/
def trim (characters : List Char) : List Char :=
  trimEnd (trimStart characters)

/-- The text without the blanks at its ends. -/
def trimmed (text : String) : String :=
  String.ofList (trim text.toList)

/-- The text with the letters `A` to `Z` in lower case and all else kept. -/
def lowered (text : String) : String :=
  String.ofList (text.toList.map Char.toLower)

/-- The text with the letters `a` to `z` in upper case and all else kept. -/
def raised (text : String) : String :=
  String.ofList (text.toList.map Char.toUpper)

/-- The parts before, between and after the occurrences of a separator. -/
def partsAt (separator : Char) : List Char → List (List Char)
  | [] => [[]]
  | character :: rest =>
      if character = separator then [] :: partsAt separator rest
      else
        match partsAt separator rest with
        | [] => [[character]]
        | part :: parts => (character :: part) :: parts

end TraceArchive.Text
