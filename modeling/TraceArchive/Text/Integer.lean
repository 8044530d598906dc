/-!
# Unsigned integers in text

Decimal digits with an optional plus sign in front, read below a limit. A text
that is no such integer is refused with the first of its faults from the left.
-/

namespace TraceArchive.Text

/-- Why a text is not an unsigned integer below the limit. -/
inductive IntegerFault where
  /-- There is nothing to read. -/
  | empty
  /-- A character is no decimal digit, or no digit follows the sign. -/
  | invalidDigit
  /-- The digits read so far reach the limit. -/
  | tooLarge
deriving DecidableEq, Repr

/-- The wording of each fault. -/
def IntegerFault.message : IntegerFault → String
  | .empty => "cannot parse integer from empty string"
  | .invalidDigit => "invalid digit found in string"
  | .tooLarge => "number too large to fit in target type"

/-- The value of a decimal digit. -/
def digitValue (character : Char) : Nat :=
  character.toNat - '0'.toNat

/-- The number that a run of digits stands for, after the digits of `value`. -/
def numberFrom (value : Nat) (digits : List Char) : Nat :=
  digits.foldl (fun total digit => 10 * total + digitValue digit) value

/-- The number that a run of digits stands for. -/
def numberOf (digits : List Char) : Nat :=
  numberFrom 0 digits

/-- Reads digits after those of `value`; the result stays below the limit. -/
def readDigits (limit value : Nat) :
    List Char → Except IntegerFault Nat
  | [] => .ok value
  | character :: rest =>
      if character.isDigit then
        let next := 10 * value + digitValue character
        if next < limit then readDigits limit next rest else .error .tooLarge
      else .error .invalidDigit

/-- Reads an unsigned integer below the limit, with an optional plus sign. -/
def readInteger (limit : Nat) :
    List Char → Except IntegerFault Nat
  | [] => .error .empty
  | ['+'] => .error .invalidDigit
  | '+' :: digits => readDigits limit 0 digits
  | digits => readDigits limit 0 digits

/-- The decimal digits of a number, filled up with zeros in front. -/
def padded (width number : Nat) : List Char :=
  let digits := Nat.toDigits 10 number
  List.replicate (width - digits.length) '0' ++ digits

/-! ## The result stays below the limit -/

theorem readDigits_lt
    {limit value result : Nat} {digits : List Char}
    (valueLt : value < limit)
    (read : readDigits limit value digits = .ok result) :
    result < limit := by
  induction digits generalizing value with
  | nil =>
      simp only [readDigits, Except.ok.injEq] at read
      omega
  | cons character rest inductionHypothesis =>
      simp only [readDigits] at read
      split at read
      · split at read
        · rename_i nextLt
          exact inductionHypothesis nextLt read
        · simp at read
      · simp at read

theorem readInteger_lt
    {limit result : Nat} {characters : List Char}
    (positive : 0 < limit)
    (read : readInteger limit characters = .ok result) :
    result < limit := by
  unfold readInteger at read
  split at read
  · simp at read
  · simp at read
  · exact readDigits_lt positive read
  · exact readDigits_lt positive read

end TraceArchive.Text
