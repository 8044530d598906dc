import Mathlib.Data.List.TakeWhile
import TraceArchive.Json.Document
import TraceArchive.Proofs.Double.Decimal

/-!
# Numbers and their text

Every number has a numeral, which is laid out as the text that is written for
it. The numeral is read off that text again, and its value is the number:
`Json.numeral?_text` and `Json.Number.value?_numeral`. The latter is what is
assumed of a JSON library, since it rests on numerals being rounded once.
-/

namespace TraceArchive

/-! ## Significant digits -/

namespace Double

/-- The zeros at the end of a number are all that is left out. -/
theorem toDigits_eq_significantDigits (number : Nat) :
    ∃ zeros,
      Nat.toDigits 10 number =
        significantDigits number ++ List.replicate zeros '0' := by
  have parts :=
    List.takeWhile_append_dropWhile
      (p := (· == '0')) (l := (Nat.toDigits 10 number).reverse)
  have areZeros :
      (Nat.toDigits 10 number).reverse.takeWhile (· == '0') =
        List.replicate
          ((Nat.toDigits 10 number).reverse.takeWhile (· == '0')).length '0' :=
    List.eq_replicate_of_mem fun character member => by
      simpa using List.mem_takeWhile_imp member
  refine ⟨((Nat.toDigits 10 number).reverse.takeWhile (· == '0')).length, ?_⟩
  have back := congrArg List.reverse parts
  rw [List.reverse_append, List.reverse_reverse, areZeros,
    List.reverse_replicate] at back
  exact back.symm

theorem isDigit_of_mem_significantDigits
    {number : Nat} {character : Char}
    (member : character ∈ significantDigits number) :
    character.isDigit = true := by
  obtain ⟨zeros, digits⟩ := toDigits_eq_significantDigits number
  have inDigits : character ∈ Nat.toDigits 10 number := by
    rw [digits]
    exact List.mem_append_left _ member
  exact Text.isDigit_of_mem_toDigits inDigits

/-- A positive number starts with a significant digit other than zero. -/
theorem significantDigits_of_pos
    {number : Nat} (positive : 0 < number) :
    ∃ first rest, significantDigits number = first :: rest ∧ first ≠ '0' := by
  obtain ⟨zeros, digits⟩ := toDigits_eq_significantDigits number
  cases significant : significantDigits number with
  | nil =>
      have isZero := Text.numberOf_toDigits number
      rw [digits, significant, List.nil_append, Text.numberOf_zeros] at isZero
      omega
  | cons first rest =>
      rw [significant, List.cons_append] at digits
      exact ⟨first, rest, rfl, Text.head_toDigits positive digits⟩

end Double

namespace Json

/-! ## The numeral of a number -/

/-- The digits of a decimal as they are laid out; `leading` is the exponent of
the first digit. -/
def Numeral.ofDigits
    (layout : Double.Layout) (negative : Bool) (digits : List Char)
    (leading : Int) : Numeral :=
  if layout.leastPositional ≤ leading ∧ leading < layout.positionalLimit then
    if leading < 0 then
      ⟨negative, ['0'],
        List.replicate (leading.natAbs - 1) '0' ++ digits, none⟩
    else
      let wholeLength := leading.toNat + 1
      let fraction := digits.drop wholeLength
      ⟨negative,
        digits.take wholeLength ++
          List.replicate (wholeLength - digits.length) '0',
        if fraction.isEmpty then ['0'] else fraction, none⟩
  else ⟨negative, digits.take 1, digits.drop 1, some leading⟩

/-- The numeral of a finite double. -/
def Numeral.ofDouble (number : Double) : Numeral :=
  if number.rank = 0 then ⟨number.negative, ['0'], ['0'], none⟩
  else
    let decimal := Double.shortest number.rank
    .ofDigits layout number.negative (Double.significantDigits decimal.digits)
      (decimal.exponent + (Nat.toDigits 10 decimal.digits).length - 1)

/-- The numeral of a number. -/
def Number.numeral : Number → Numeral
  | .integer value _ => ⟨value < 0, Nat.toDigits 10 value.natAbs, [], none⟩
  | .double value => .ofDouble value

/-- Whether a number is one of the finite ones. -/
def Number.isFinite : Number → Bool
  | .integer _ _ => true
  | .double value => value.isFinite

/-! ## The text of a numeral -/

/-- The text of a numeral. -/
def Numeral.text (numeral : Numeral) : List Char :=
  (if numeral.negative then ['-'] else []) ++
    (numeral.whole ++
      ((if numeral.fraction.isEmpty then [] else '.' :: numeral.fraction) ++
        (numeral.exponent.map Double.exponentText).getD []))

theorem text_ofDigits
    (layout : Double.Layout) (negative : Bool) {digits : List Char}
    (leading : Int) (some : digits ≠ []) :
    (Numeral.ofDigits layout negative digits leading).text =
      (if negative then ['-'] else []) ++ layout.place digits leading := by
  unfold Numeral.ofDigits Double.Layout.place
  split
  · split
    · simp [Numeral.text, some]
    · cases isEmpty : (digits.drop (leading.toNat + 1)).isEmpty <;>
        simp [Numeral.text, isEmpty]
  · simp [Numeral.text]

/-- The shortest decimal of a positive finite magnitude has digits. -/
theorem digits_shortest_pos {rank : Nat} (nonZero : 0 < rank) :
    0 < (Double.shortest rank).digits :=
  Double.digits_pos_of_rounds nonZero (Double.rounds_shortest nonZero)

theorem significantDigits_shortest_ne_nil {rank : Nat} (nonZero : 0 < rank) :
    Double.significantDigits (Double.shortest rank).digits ≠ [] := by
  obtain ⟨first, rest, digits, -⟩ :=
    Double.significantDigits_of_pos (digits_shortest_pos nonZero)
  rw [digits]
  exact List.cons_ne_nil first rest

theorem text_ofDouble (number : Double) :
    (Numeral.ofDouble number).text = layout.text number := by
  unfold Numeral.ofDouble Double.Layout.text
  split
  · simp [Numeral.text]
  · rename_i nonZero
    exact text_ofDigits layout number.negative _
      (significantDigits_shortest_ne_nil (Nat.pos_of_ne_zero nonZero))

theorem characters_toString (value : Int) :
    (toString value).toList =
      (if value < 0 then ['-'] else []) ++ Nat.toDigits 10 value.natAbs := by
  cases value with
  | ofNat magnitude =>
      have notNegative : ¬ (Int.ofNat magnitude < 0) := by
        simp
      rw [if_neg notNegative]
      simp [toString, Int.repr, Nat.repr]
  | negSucc magnitude =>
      rw [if_pos (Int.negSucc_lt_zero magnitude)]
      simp [toString, Int.repr, Nat.repr]

/-- What is written for a finite number is the text of its numeral. -/
theorem text_numeral {number : Number} (finite : number.isFinite = true) :
    number.numeral.text = number.characters := by
  cases number with
  | integer value inRange =>
      rw [Number.characters, characters_toString]
      simp [Number.numeral, Numeral.text]
  | double value =>
      have isFinite : value.isFinite = true := finite
      rw [Number.characters, if_pos isFinite]
      exact text_ofDouble value

/-! ## Reading the text of a numeral -/

/-- Whether a text does not go on with a number. -/
def EndsNumber (following : List Text.Utf8.Symbol) : Prop :=
  ∀ character, following.head? = some (some character) →
    character.isDigit = false ∧ character ≠ '.' ∧ character ≠ 'e' ∧
      character ≠ 'E'

/-- A numeral of the grammar: digits before the point, where a zero stands
alone, and digits after it. -/
structure Numeral.IsRegular (numeral : Numeral) : Prop where
  whole_some : numeral.whole ≠ []
  whole_digits : ∀ digit ∈ numeral.whole, digit.isDigit = true
  zero_alone : ∀ rest, numeral.whole = '0' :: rest → rest = []
  fraction_digits : ∀ digit ∈ numeral.fraction, digit.isDigit = true

/-- Whether no digit is in front. -/
def StartsWithoutDigit (following : List Text.Utf8.Symbol) : Prop :=
  ∀ character, following.head? = some (some character) →
    character.isDigit = false

theorem digitsThen_append
    {digits : List Char} {following : List Text.Utf8.Symbol}
    (areDigits : ∀ digit ∈ digits, digit.isDigit = true)
    (ends : StartsWithoutDigit following) :
    digitsThen (digits.map some ++ following) = (digits, following) := by
  induction digits with
  | nil =>
      cases following with
      | nil => rfl
      | cons first rest =>
          cases first with
          | none => rfl
          | some character =>
              have notDigit := ends character rfl
              simp [digitsThen, notDigit]
  | cons digit rest inductionHypothesis =>
      have isDigit := areDigits digit List.mem_cons_self
      have others := inductionHypothesis fun other member =>
        areDigits other (List.mem_cons_of_mem _ member)
      simp [digitsThen, isDigit, others]

theorem whole?_append
    {numeral : Numeral} (regular : numeral.IsRegular)
    {following : List Text.Utf8.Symbol} (ends : StartsWithoutDigit following) :
    whole? (numeral.whole.map some ++ following) =
      some (numeral.whole, following) := by
  have read := digitsThen_append regular.whole_digits ends
  unfold whole?
  rw [read]
  split
  · rename_i isNothing
    simp only [Prod.mk.injEq] at isNothing
    exact absurd isNothing.1 regular.whole_some
  · rename_i second rest others isZero
    simp only [Prod.mk.injEq] at isZero
    exact absurd (regular.zero_alone _ isZero.1) (List.cons_ne_nil _ _)
  · rename_i digits remaining _ _ isPair
    simp only [Prod.mk.injEq] at isPair
    rw [isPair.1, isPair.2]

theorem fraction?_append
    {fraction : List Char} (areDigits : ∀ digit ∈ fraction, digit.isDigit = true)
    {following : List Text.Utf8.Symbol} (ends : StartsWithoutDigit following)
    (noPoint : following.head? ≠ some (some '.')) :
    fraction?
        ((if fraction.isEmpty then [] else '.' :: fraction).map some ++
          following) =
      some (fraction, following) := by
  cases fraction with
  | nil =>
      simp only [List.isEmpty_nil, if_true, List.map_nil, List.nil_append]
      unfold fraction?
      split
      · simp at noPoint
      · rfl
  | cons digit rest =>
      have read := digitsThen_append areDigits ends
      simp only [List.map_cons, List.cons_append] at read
      simp [fraction?, read]

theorem signedExponent?_append
    (negative : Bool) (magnitude : Nat)
    {following : List Text.Utf8.Symbol} (ends : StartsWithoutDigit following) :
    signedExponent? negative
        ((Nat.toDigits 10 magnitude).map some ++ following) =
      some (some (if negative then -(magnitude : Int) else magnitude),
        following) := by
  have read :
      digitsThen ((Nat.toDigits 10 magnitude).map some ++ following) =
        (Nat.toDigits 10 magnitude, following) :=
    digitsThen_append (fun _ => Text.isDigit_of_mem_toDigits) ends
  unfold signedExponent?
  rw [read]
  split
  · rename_i isNothing
    simp only [Prod.mk.injEq] at isNothing
    exact absurd isNothing.1 Nat.toDigits_ne_nil
  · rename_i digits remaining _ isPair
    simp only [Prod.mk.injEq] at isPair
    rw [← isPair.1, ← isPair.2, Text.numberOf_toDigits]

theorem exponent?_append
    (exponent : Option Int) {following : List Text.Utf8.Symbol}
    (ends : EndsNumber following) :
    exponent?
        (((exponent.map Double.exponentText).getD []).map some ++ following) =
      some (exponent, following) := by
  have noDigit : StartsWithoutDigit following :=
    fun character isHead => (ends character isHead).1
  cases exponent with
  | none =>
      simp only [Option.map_none, Option.getD_none, List.map_nil,
        List.nil_append]
      unfold exponent?
      split
      · rename_i letter rest
        have noLetter := (ends letter rfl).2.2
        rw [if_neg (by simp [noLetter])]
      · rfl
  | some value =>
      by_cases isNegative : value < 0
      · have read :=
          signedExponent?_append true value.natAbs noDigit
        have isValue : -(value.natAbs : Int) = value := by omega
        simp only [if_true, isValue] at read
        simp [Double.exponentText, isNegative, exponent?, read]
      · have read :=
          signedExponent?_append false value.natAbs noDigit
        have isValue : (value.natAbs : Int) = value := by omega
        simp only [Bool.false_eq_true, if_false, isValue] at read
        simp [Double.exponentText, isNegative, exponent?, read]

/-- What stands between the digits of a numeral is no digit. -/
theorem startsWithoutDigit_exponent
    (exponent : Option Int) {following : List Text.Utf8.Symbol}
    (ends : StartsWithoutDigit following) :
    StartsWithoutDigit
      (((exponent.map Double.exponentText).getD []).map some ++
        following) := by
  cases exponent with
  | none => exact ends
  | some value =>
      intro character isHead
      by_cases isNegative : value < 0 <;>
        simp [Double.exponentText, isNegative] at isHead <;>
        exact isHead ▸ rfl

theorem unsignedNumeral?_text
    {numeral : Numeral} (regular : numeral.IsRegular)
    {following : List Text.Utf8.Symbol} (ends : EndsNumber following) :
    unsignedNumeral? numeral.negative
        ((numeral.whole ++
          ((if numeral.fraction.isEmpty then [] else '.' :: numeral.fraction) ++
            (numeral.exponent.map Double.exponentText).getD [])).map some ++
          following) =
      some (numeral, following) := by
  have noDigit : StartsWithoutDigit following :=
    fun character isHead => (ends character isHead).1
  have noDigitInExponent :=
    startsWithoutDigit_exponent numeral.exponent noDigit
  have noPoint :
      (((numeral.exponent.map Double.exponentText).getD []).map some ++
        following).head? ≠ some (some '.') := by
    intro isHead
    cases isExponent : numeral.exponent with
    | none =>
        rw [isExponent] at isHead
        exact absurd rfl (ends '.' isHead).2.1
    | some value =>
        rw [isExponent] at isHead
        by_cases isNegative : value < 0 <;>
          simp [Double.exponentText, isNegative] at isHead
  have noDigitInFraction :
      StartsWithoutDigit
        ((if numeral.fraction.isEmpty then [] else '.' :: numeral.fraction).map
            some ++
          (((numeral.exponent.map Double.exponentText).getD []).map some ++
            following)) := by
    cases numeral.fraction with
    | nil => exact noDigitInExponent
    | cons digit rest =>
        intro character isHead
        simp at isHead
        exact isHead ▸ rfl
  rw [List.map_append, List.map_append, List.append_assoc, List.append_assoc,
    unsignedNumeral?, whole?_append regular noDigitInFraction]
  simp only [Option.bind_eq_bind, Option.bind_some]
  rw [fraction?_append regular.fraction_digits noDigitInExponent noPoint]
  simp only [Option.bind_some]
  rw [exponent?_append numeral.exponent ends]
  rfl

/-- A numeral is read off its text. -/
theorem numeral?_text
    {numeral : Numeral} (regular : numeral.IsRegular)
    {following : List Text.Utf8.Symbol} (ends : EndsNumber following) :
    numeral? (numeral.text.map some ++ following) =
      some (numeral, following) := by
  have read := unsignedNumeral?_text regular ends
  cases isNegative : numeral.negative with
  | true =>
      rw [isNegative] at read
      simp only [Numeral.text, isNegative, if_true, List.cons_append,
        List.nil_append, List.map_cons, numeral?]
      exact read
  | false =>
      rw [isNegative] at read
      simp only [Numeral.text, isNegative, Bool.false_eq_true, if_false,
        List.nil_append]
      cases whole : numeral.whole with
      | nil => exact absurd whole regular.whole_some
      | cons first rest =>
          have isDigit : first.isDigit = true :=
            regular.whole_digits first (whole ▸ List.mem_cons_self)
          have notSign : first ≠ '-' := Text.ne_of_isDigit isDigit rfl
          rw [whole] at read
          simp only [List.cons_append, List.map_cons] at read ⊢
          unfold numeral?
          split
          · rename_i isHead
            simp only [List.cons.injEq, Option.some.injEq] at isHead
            exact absurd isHead.1 notSign
          · exact read

/-! ## The numeral of a number is regular and has its value -/

theorem isRegular_ofDigits
    (layout : Double.Layout) (negative : Bool) (leading : Int)
    {first : Char} {rest : List Char} (notZero : first ≠ '0')
    (areDigits : ∀ digit ∈ first :: rest, digit.isDigit = true) :
    (Numeral.ofDigits layout negative (first :: rest) leading).IsRegular := by
  have areZeros : ∀ count, ∀ digit ∈ List.replicate count '0',
      digit.isDigit = true := fun count digit member =>
    (List.mem_replicate.mp member).2 ▸ rfl
  unfold Numeral.ofDigits
  split
  · split
    · refine ⟨List.cons_ne_nil _ _, by simp, by simp, ?_⟩
      intro digit member
      rcases List.mem_append.mp member with isZero | isOther
      · exact areZeros _ digit isZero
      · exact areDigits digit isOther
    · refine ⟨by simp, ?_, ?_, ?_⟩
      · intro digit member
        rcases List.mem_append.mp member with isTaken | isZero
        · exact areDigits digit (List.mem_of_mem_take isTaken)
        · exact areZeros _ digit isZero
      · intro others isZero
        simp only [List.take_succ_cons, List.cons_append,
          List.cons.injEq] at isZero
        exact absurd isZero.1 notZero
      · intro digit member
        dsimp only at member
        split at member
        · exact areZeros 1 digit member
        · exact areDigits digit (List.mem_of_mem_drop member)
  · refine ⟨by simp, ?_, ?_, ?_⟩
    · intro digit member
      exact areDigits digit (List.mem_of_mem_take member)
    · intro others isZero
      simp only [List.take_succ_cons, List.take_zero, List.cons.injEq] at isZero
      exact absurd isZero.1 notZero
    · intro digit member
      exact areDigits digit (List.mem_of_mem_drop member)

theorem isRegular_numeral (number : Number) : number.numeral.IsRegular := by
  cases number with
  | integer value inRange =>
      refine ⟨Nat.toDigits_ne_nil, fun _ => Text.isDigit_of_mem_toDigits, ?_,
        by simp [Number.numeral]⟩
      intro rest isZero
      simp only [Number.numeral] at isZero
      by_cases nothing : value.natAbs = 0
      · rw [nothing, Nat.toDigits_zero] at isZero
        simpa using isZero.symm
      · exact absurd rfl
          (Text.head_toDigits (Nat.pos_of_ne_zero nothing) isZero)
  | double value =>
      simp only [Number.numeral, Numeral.ofDouble]
      split
      · exact ⟨by simp, by simp, by simp, by simp⟩
      · rename_i nonZero
        obtain ⟨first, rest, digits, notZero⟩ :=
          Double.significantDigits_of_pos
            (digits_shortest_pos (Nat.pos_of_ne_zero nonZero))
        rw [digits]
        refine isRegular_ofDigits layout value.negative _ notZero ?_
        rw [← digits]
        exact fun _ => Double.isDigit_of_mem_significantDigits

/-- The digits of a numeral with those after the point. -/
def Numeral.magnitude (numeral : Numeral) : Nat :=
  Text.numberOf (numeral.whole ++ numeral.fraction)

/-- The exponent of the last digit of a numeral. -/
def Numeral.lastExponent (numeral : Numeral) : Int :=
  numeral.exponent.getD 0 - numeral.fraction.length

theorem numberOf_zeros_append (count : Nat) (digits : List Char) :
    Text.numberOf (List.replicate count '0' ++ digits) =
      Text.numberOf digits := by
  rw [Text.numberOf_append, Text.numberOf_zeros, Nat.mul_zero, Nat.zero_add]

theorem numberOf_append_zeros (digits : List Char) (count : Nat) :
    Text.numberOf (digits ++ List.replicate count '0') =
      Nat.pow 10 count * Text.numberOf digits := by
  rw [Text.numberOf_append, Text.numberOf_zeros, List.length_replicate,
    Nat.add_zero]

/-- Laying digits out leaves their value, up to zeros at the end. -/
theorem magnitude_ofDigits
    (layout : Double.Layout) (negative : Bool) {digits : List Char}
    (leading : Int) (some : digits ≠ []) :
    ∃ others : Nat,
      (Numeral.ofDigits layout negative digits leading).magnitude =
          Nat.pow 10 others * Text.numberOf digits ∧
        (Numeral.ofDigits layout negative digits leading).lastExponent =
          leading + 1 - digits.length - others := by
  have length : 0 < digits.length := List.length_pos_iff.mpr some
  have one : Nat.pow 10 0 = 1 := rfl
  unfold Numeral.ofDigits
  split
  · split
    · refine ⟨0, ?_, ?_⟩
      · have zeros :=
          numberOf_zeros_append (leading.natAbs - 1 + 1) digits
        rw [List.replicate_succ] at zeros
        simpa [Numeral.magnitude] using zeros
      · simp only [Numeral.lastExponent, Option.getD_none, List.length_append,
          List.length_replicate]
        omega
    · by_cases short : digits.length ≤ leading.toNat + 1
      · refine ⟨leading.toNat + 1 - digits.length + 1, ?_, ?_⟩
        · have zeros :=
            numberOf_append_zeros digits
              (leading.toNat + 1 - digits.length + 1)
          rw [List.replicate_succ', ← List.append_assoc] at zeros
          simpa [Numeral.magnitude, List.drop_eq_nil_of_le short,
            List.take_of_length_le short] using zeros
        · simp only [Numeral.lastExponent, Option.getD_none,
            List.drop_eq_nil_of_le short, List.isEmpty_nil, if_true,
            List.length_singleton]
          omega
      · have isLong : ¬ (digits.drop (leading.toNat + 1)).isEmpty := by
          simpa using short
        have noZeros : leading.toNat + 1 - digits.length = 0 := by omega
        refine ⟨0, ?_, ?_⟩
        · simp [Numeral.magnitude, short, noZeros]
        · simp only [Numeral.lastExponent, Option.getD_none, if_neg isLong,
            List.length_drop]
          omega
  · refine ⟨0, ?_, ?_⟩
    · simp [Numeral.magnitude, -List.drop_one]
    · simp only [Numeral.lastExponent, Option.getD_some, List.length_drop]
      omega

/-- A numeral with a point or an exponent is read as a double. -/
theorem Numeral.value?_of_double
    {numeral : Numeral} {number : Double}
    (notWhole : numeral.fraction ≠ [] ∨ numeral.exponent ≠ none)
    (read :
      Double.ofDecimal? numeral.negative numeral.magnitude
        numeral.lastExponent = some number) :
    numeral.value? = some (.double number) := by
  have noInteger :
      ¬ (numeral.fraction.isEmpty = true ∧ numeral.exponent.isNone = true) := by
    simpa [Classical.or_iff_not_imp_left] using notWhole
  rw [Numeral.magnitude, Numeral.lastExponent] at read
  rw [Numeral.value?, if_neg noInteger, read]
  rfl

theorem notWhole_ofDigits
    (layout : Double.Layout) (negative : Bool) {digits : List Char}
    (leading : Int) (some : digits ≠ []) :
    (Numeral.ofDigits layout negative digits leading).fraction ≠ [] ∨
      (Numeral.ofDigits layout negative digits leading).exponent ≠ none := by
  unfold Numeral.ofDigits
  split
  · left
    split
    · simp [some]
    · dsimp only
      split
      · exact List.cons_ne_nil _ _
      · rename_i notEmpty
        exact fun nothing => notEmpty (List.isEmpty_iff.mpr nothing)
  · exact .inr (Option.some_ne_none _)

theorem negative_ofDigits
    (layout : Double.Layout) (negative : Bool) (digits : List Char)
    (leading : Int) :
    (Numeral.ofDigits layout negative digits leading).negative = negative := by
  unfold Numeral.ofDigits
  split
  · split <;> rfl
  · rfl

theorem value?_ofDouble {number : Double} (finite : number.isFinite = true) :
    (Numeral.ofDouble number).value? = some (.double number) := by
  by_cases nothing : number.rank = 0
  · refine Numeral.value?_of_double ?_ ?_
    · exact .inl (by simp [Numeral.ofDouble, nothing])
    · have isZero := Double.ofRank_rank finite
      rw [nothing] at isZero
      have read := Double.ofDecimal?_zero number.negative (-1)
      rw [isZero] at read
      rw [Numeral.ofDouble, if_pos nothing]
      exact read
  · have nonZero := Nat.pos_of_ne_zero nothing
    have some := significantDigits_shortest_ne_nil nonZero
    have rounds := Double.rounds_shortest nonZero
    rw [Numeral.ofDouble, if_neg nothing]
    refine Numeral.value?_of_double (notWhole_ofDigits _ _ _ some) ?_
    rw [negative_ofDigits]
    obtain ⟨others, isMagnitude, isExponent⟩ :=
      magnitude_ofDigits layout number.negative
        ((Double.shortest number.rank).exponent +
          (Nat.toDigits 10 (Double.shortest number.rank).digits).length - 1)
        some
    obtain ⟨zeros, digits⟩ :=
      Double.toDigits_eq_significantDigits (Double.shortest number.rank).digits
    have isNumber := Text.numberOf_toDigits (Double.shortest number.rank).digits
    rw [digits, numberOf_append_zeros] at isNumber
    rw [isMagnitude, isExponent]
    have place :
        (Double.shortest number.rank).exponent =
          (Double.shortest number.rank).exponent +
              (Nat.toDigits 10 (Double.shortest number.rank).digits).length -
            1 + 1 -
            (Double.significantDigits
              (Double.shortest number.rank).digits).length - zeros := by
      rw [digits, List.length_append, List.length_replicate]
      omega
    rw [Double.Decimal.numerator, Double.Decimal.denominator, ← isNumber,
      place] at rounds
    have finiteRank : number.rank < Double.infinityRank :=
      of_decide_eq_true finite
    rw [Double.ofDecimal?_of_rounds number.negative nonZero finiteRank
      (rounds.of_zeros zeros others), Double.ofRank_rank finite]

/-- The numeral of a number has the number as its value. -/
theorem Number.value?_numeral
    {number : Number} (finite : number.isFinite = true) :
    number.numeral.value? = some number := by
  cases number with
  | integer value inRange =>
      by_cases isNegative : value < 0
      · have small :
            0 < value.natAbs ∧ value.natAbs ≤ 9223372036854775808 := by omega
        have isValue : -(value.natAbs : Int) = value := by omega
        simp only [numeral, Numeral.value?, isNegative, decide_true,
          List.isEmpty_nil, Option.isNone_none, and_self, if_true,
          List.append_nil, Text.numberOf_toDigits, small, dif_pos, isValue]
      · have small : value.natAbs < 18446744073709551616 := by omega
        have isValue : (value.natAbs : Int) = value := by omega
        simp only [numeral, Numeral.value?, isNegative, decide_false,
          List.isEmpty_nil, Option.isNone_none, and_self, if_true,
          Bool.false_eq_true, if_false, List.append_nil,
          Text.numberOf_toDigits, small, dif_pos, isValue]
  | double value => exact value?_ofDouble finite

end Json

end TraceArchive
