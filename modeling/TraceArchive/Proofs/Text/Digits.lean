import TraceArchive.Proofs.Text.Blank
import TraceArchive.Text.Integer

/-!
# Decimal digits

The digits of a number stand for the number again, with zeros in front or
without.
-/

namespace TraceArchive.Text

/-! ## What digits stand for -/

theorem numberFrom_eq (value : Nat) (digits : List Char) :
    numberFrom value digits = Nat.ofDigitChars 10 digits value :=
  Nat.ofDigitChars_eq_foldl.symm

@[simp]
theorem numberOf_toDigits (number : Nat) :
    numberOf (Nat.toDigits 10 number) = number := by
  rw [numberOf, numberFrom_eq, Nat.ofDigitChars_ten_toDigits]

theorem numberFrom_append (value : Nat) (front back : List Char) :
    numberFrom value (front ++ back) = numberFrom (numberFrom value front) back :=
  List.foldl_append

theorem numberFrom_eq_add (value : Nat) (digits : List Char) :
    numberFrom value digits =
      Nat.pow 10 digits.length * value + numberOf digits := by
  rw [numberOf, numberFrom_eq, numberFrom_eq,
    Nat.ofDigitChars_eq_ofDigitChars_zero, Nat.pow_eq]

theorem numberOf_append (front back : List Char) :
    numberOf (front ++ back) =
      Nat.pow 10 back.length * numberOf front + numberOf back := by
  rw [numberOf, numberFrom_append, numberFrom_eq_add]
  rfl

@[simp]
theorem numberOf_zeros (count : Nat) :
    numberOf (List.replicate count '0') = 0 := by
  rw [numberOf, numberFrom_eq, Nat.ofDigitChars_replicate_zero, Nat.mul_zero]

theorem le_numberFrom (value : Nat) (digits : List Char) :
    value ≤ numberFrom value digits := by
  rw [numberFrom_eq_add]
  have positive : 0 < Nat.pow 10 digits.length := Nat.pow_pos (by decide)
  exact Nat.le_trans (Nat.le_mul_of_pos_left value positive)
    (Nat.le_add_right _ _)

theorem numberOf_lt
    {digits : List Char} (areDigits : ∀ digit ∈ digits, digit.isDigit = true) :
    numberOf digits < Nat.pow 10 digits.length := by
  induction digits with
  | nil => exact Nat.one_pos
  | cons digit rest inductionHypothesis =>
      have below := inductionHypothesis fun other member =>
        areDigits other (List.mem_cons_of_mem _ member)
      have isDigit := areDigits digit List.mem_cons_self
      simp only [Char.isDigit, Bool.and_eq_true, decide_eq_true_eq,
        ge_iff_le, UInt32.le_iff_toNat_le] at isDigit
      have small : digitValue digit ≤ 9 := by
        have atMost : digit.toNat ≤ 57 := isDigit.2
        have isValue : digitValue digit = digit.toNat - 48 := rfl
        omega
      have single : numberOf [digit] = digitValue digit := by
        simp [numberOf, numberFrom]
      have scaled := Nat.mul_le_mul_left (Nat.pow 10 rest.length) small
      have whole := numberOf_append [digit] rest
      have power :
          Nat.pow 10 (rest.length + 1) = 10 * Nat.pow 10 rest.length := by
        rw [Nat.pow_eq, Nat.pow_eq, Nat.pow_succ, Nat.mul_comm]
      rw [single] at whole
      rw [List.length_cons, power]
      simp only [List.singleton_append] at whole
      omega

/-! ## The digits of a number -/

theorem isDigit_of_mem_toDigits
    {number : Nat} {character : Char}
    (member : character ∈ Nat.toDigits 10 number) :
    character.isDigit = true :=
  Nat.isDigit_of_mem_toDigits (by decide) (by decide) member

theorem isBlank_of_isDigit
    {character : Char} (digit : character.isDigit = true) :
    isBlank character = false := by
  simp only [Char.isDigit, Bool.and_eq_true, decide_eq_true_eq, ge_iff_le,
    UInt32.le_iff_toNat_le] at digit
  have range : 48 ≤ character.toNat ∧ character.toNat ≤ 57 := digit
  simp only [isBlank, Bool.or_eq_false_iff, Bool.and_eq_false_iff,
    decide_eq_false_iff_not, beq_eq_false_iff_ne]
  omega

/-- A digit is no other character. -/
theorem ne_of_isDigit
    {character other : Char} (digit : character.isDigit = true)
    (different : other.isDigit = false) : character ≠ other := by
  rintro rfl
  rw [digit] at different
  cases different

theorem length_toDigits_le
    {number width : Nat} (positive : 0 < width)
    (small : number < Nat.pow 10 width) :
    (Nat.toDigits 10 number).length ≤ width :=
  (Nat.length_toDigits_le_iff (by decide) positive).mpr small

@[simp]
theorem numberOf_padded (width number : Nat) :
    numberOf (padded width number) = number := by
  rw [padded, numberOf_append, numberOf_zeros, numberOf_toDigits]
  omega

theorem isDigit_of_mem_padded
    {width number : Nat} {character : Char}
    (member : character ∈ padded width number) :
    character.isDigit = true := by
  rcases List.mem_append.mp member with isZero | isOther
  · rw [(List.mem_replicate.mp isZero).2]
    rfl
  · exact isDigit_of_mem_toDigits isOther

theorem length_padded
    {width number : Nat} (positive : 0 < width)
    (small : number < Nat.pow 10 width) :
    (padded width number).length = width := by
  have short := length_toDigits_le positive small
  rw [padded, List.length_append, List.length_replicate]
  omega

theorem lt_pow_length (number : Nat) :
    number < Nat.pow 10 (Nat.toDigits 10 number).length :=
  (Nat.length_toDigits_le_iff (by decide) Nat.length_toDigits_pos).mp
    (Nat.le_refl _)

theorem pow_length_le
    {number : Nat} (positive : 0 < number) :
    Nat.pow 10 ((Nat.toDigits 10 number).length - 1) ≤ number := by
  refine Nat.le_of_not_lt fun small => ?_
  have some : 0 < (Nat.toDigits 10 number).length :=
    Nat.length_toDigits_pos
  by_cases single : (Nat.toDigits 10 number).length - 1 = 0
  · rw [single] at small
    have isOne : Nat.pow 10 0 = 1 := rfl
    omega
  · have short :=
      length_toDigits_le (Nat.pos_of_ne_zero single) small
    omega

/-- The first digit of a positive number is not zero. -/
theorem head_toDigits
    {number : Nat} (positive : 0 < number) {first : Char} {rest : List Char}
    (digits : Nat.toDigits 10 number = first :: rest) :
    first ≠ '0' := by
  rintro rfl
  have long := pow_length_le positive
  have isNumber := numberOf_toDigits number
  rw [digits] at long isNumber
  have small : numberOf rest < Nat.pow 10 rest.length :=
    numberOf_lt fun digit member =>
      isDigit_of_mem_toDigits (digits ▸ List.mem_cons_of_mem _ member)
  have same : numberOf ('0' :: rest) = numberOf rest := by
    simp [numberOf, numberFrom, digitValue]
  rw [List.length_cons, Nat.add_sub_cancel] at long
  omega

/-! ## Reading digits -/

theorem readDigits_of_digits
    {limit value : Nat} {digits : List Char}
    (areDigits : ∀ digit ∈ digits, digit.isDigit = true)
    (small : numberFrom value digits < limit) :
    readDigits limit value digits = .ok (numberFrom value digits) := by
  induction digits generalizing value with
  | nil => rfl
  | cons digit rest inductionHypothesis =>
      have isDigit := areDigits digit List.mem_cons_self
      have smallNext :
          numberFrom (10 * value + digitValue digit) rest < limit := small
      have nextSmall : 10 * value + digitValue digit < limit :=
        Nat.lt_of_le_of_lt (le_numberFrom _ rest) smallNext
      rw [readDigits, if_pos isDigit]
      dsimp only
      rw [if_pos nextSmall]
      exact inductionHypothesis
        (fun other member => areDigits other (List.mem_cons_of_mem _ member))
        smallNext

/-- What is read without a fault is digits alone. -/
theorem digits_of_readDigits
    {limit value result : Nat} {digits : List Char}
    (read : readDigits limit value digits = .ok result) :
    (∀ digit ∈ digits, digit.isDigit = true) ∧
      numberFrom value digits = result := by
  induction digits generalizing value with
  | nil =>
      cases read
      exact ⟨by simp, rfl⟩
  | cons digit rest inductionHypothesis =>
      rw [readDigits] at read
      split at read
      · rename_i isDigit
        dsimp only at read
        split at read
        · obtain ⟨areDigits, isNumber⟩ := inductionHypothesis read
          exact ⟨List.forall_mem_cons.mpr ⟨isDigit, areDigits⟩, isNumber⟩
        · cases read
      · cases read

/-- An integer is one digit at least, with a plus sign in front if wanted, that
stand for a number below the limit. -/
theorem readInteger_eq_ok_iff
    {limit result : Nat} (positive : 0 < limit) {characters : List Char} :
    readInteger limit characters = .ok result ↔
      ∃ digits, (characters = digits ∨ characters = '+' :: digits) ∧
        digits ≠ [] ∧ (∀ digit ∈ digits, digit.isDigit = true) ∧
          numberOf digits = result ∧ result < limit := by
  constructor
  · intro read
    have small := readInteger_lt positive read
    unfold readInteger at read
    split at read
    · cases read
    · cases read
    · rename_i digits notSingle
      obtain ⟨areDigits, isNumber⟩ := digits_of_readDigits read
      refine ⟨digits, .inr rfl, ?_, areDigits, isNumber, small⟩
      rintro rfl
      exact notSingle rfl
    · rename_i notEmpty _ _
      obtain ⟨areDigits, isNumber⟩ := digits_of_readDigits read
      exact ⟨characters, .inl rfl, notEmpty, areDigits, isNumber, small⟩
  · rintro ⟨digits, isText, notEmpty, areDigits, rfl, small⟩
    have read : readDigits limit 0 digits = .ok (numberOf digits) :=
      readDigits_of_digits areDigits small
    obtain ⟨first, rest, rfl⟩ := List.exists_cons_of_ne_nil notEmpty
    rcases isText with rfl | rfl
    · have notSign : first ≠ '+' :=
        ne_of_isDigit (areDigits first List.mem_cons_self) rfl
      unfold readInteger
      split
      · contradiction
      · simp_all
      · simp_all
      · exact read
    · exact read

/-- The digits of a number below the limit are read as this number. -/
theorem readInteger_toDigits
    {limit number : Nat} (small : number < limit) :
    readInteger limit (Nat.toDigits 10 number) = .ok number := by
  have positive : 0 < limit := Nat.zero_lt_of_lt small
  refine
    (readInteger_eq_ok_iff positive).mpr
      ⟨Nat.toDigits 10 number, .inl rfl, Nat.toDigits_ne_nil,
        fun _ => isDigit_of_mem_toDigits, numberOf_toDigits number, small⟩

end TraceArchive.Text
