import TraceArchive.Proofs.Json.Text
import TraceArchive.Proofs.Text.Digits
import TraceArchive.Time.Duration

/-!
# The text of a duration is read as the duration

The main statement is `Duration.ofCharacters?_characters`.
-/

namespace TraceArchive.Duration

/-! ## Fractions of a second -/

theorem fraction_of_padded
    {nanos width unit : Nat} (small : nanos < nanosPerSecond)
    (positive : 0 < width)
    (isUnit : Nat.pow 10 (9 - width) = unit)
    (isScale : Nat.pow 10 width * unit = nanosPerSecond)
    (whole : nanos % unit = 0) :
    (∀ digit ∈ Text.padded width (nanos / unit), digit.isDigit = true) ∧
      (Text.padded width (nanos / unit)).length = width ∧
        Text.numberOf (Text.padded width (nanos / unit)) *
          Nat.pow 10 (9 - (Text.padded width (nanos / unit)).length) =
            nanos := by
  have fits : nanos / unit < Nat.pow 10 width := by
    apply Nat.div_lt_of_lt_mul
    rw [Nat.mul_comm, isScale]
    exact small
  have length := Text.length_padded positive fits
  refine ⟨fun _ => Text.isDigit_of_mem_padded, length, ?_⟩
  rw [length, isUnit, Text.numberOf_padded]
  exact Nat.div_mul_cancel (Nat.dvd_of_mod_eq_zero whole)

/-- The digits of a fraction, none without nanoseconds, stand for the
nanoseconds. -/
theorem fractionCharacters_eq
    {nanos : Nat} (small : nanos < nanosPerSecond) :
    ∃ digits : List Char,
      fractionCharacters nanos =
          (if digits.isEmpty then [] else '.' :: digits) ∧
        (∀ digit ∈ digits, digit.isDigit = true) ∧ digits.length ≤ 9 ∧
          Text.numberOf digits * Nat.pow 10 (9 - digits.length) = nanos := by
  have ofWidth : ∀ width unit : Nat, 0 < width → width ≤ 9 →
      Nat.pow 10 (9 - width) = unit →
      Nat.pow 10 width * unit = nanosPerSecond → nanos % unit = 0 →
      fractionCharacters nanos = '.' :: Text.padded width (nanos / unit) →
      ∃ digits : List Char,
        fractionCharacters nanos =
            (if digits.isEmpty then [] else '.' :: digits) ∧
          (∀ digit ∈ digits, digit.isDigit = true) ∧ digits.length ≤ 9 ∧
            Text.numberOf digits * Nat.pow 10 (9 - digits.length) = nanos := by
    intro width unit positive atMost isUnit isScale whole isText
    obtain ⟨areDigits, length, isNumber⟩ :=
      fraction_of_padded small positive isUnit isScale whole
    refine ⟨Text.padded width (nanos / unit), ?_, areDigits,
      length.symm ▸ atMost, isNumber⟩
    have notEmpty : (Text.padded width (nanos / unit)).isEmpty = false := by
      cases isPadded : Text.padded width (nanos / unit) with
      | nil =>
          rw [isPadded, List.length_nil] at length
          omega
      | cons first rest => rfl
    rw [isText, notEmpty]
    rfl
  by_cases nothing : nanos = 0
  · refine ⟨[], ?_, by simp, by simp, ?_⟩
    · simp [fractionCharacters, nothing]
    · simp [Text.numberOf, Text.numberFrom, nothing]
  by_cases millis : nanos % 1000000 = 0
  · exact ofWidth 3 1000000 (by decide) (by decide) rfl rfl millis
      (by rw [fractionCharacters, if_neg nothing, if_pos millis])
  by_cases micros : nanos % 1000 = 0
  · exact ofWidth 6 1000 (by decide) (by decide) rfl rfl micros
      (by rw [fractionCharacters, if_neg nothing, if_neg millis,
        if_pos micros])
  · exact ofWidth 9 1 (by decide) (by decide) rfl rfl
      (Nat.mod_one nanos)
      (by rw [fractionCharacters, if_neg nothing, if_neg millis,
        if_neg micros, Nat.div_one])

/-! ## Taking the text apart -/

theorem beforeUnit?_append (body : List Char) :
    beforeUnit? (body ++ ['s']) = some body := by
  simp [beforeUnit?]

theorem beforeUnit?_eq_some_iff {characters body : List Char} :
    beforeUnit? characters = some body ↔ characters = body ++ ['s'] := by
  constructor
  · intro before
    unfold beforeUnit? at before
    split at before
    · rename_i rest isReverse
      cases before
      rw [← List.reverse_reverse characters, isReverse, List.reverse_cons]
    · cases before
  · rintro rfl
    exact beforeUnit?_append body

theorem splitAtPoint_cons {first : Char} (notPoint : first ≠ '.')
    (rest : List Char) :
    splitAtPoint (first :: rest) =
      (first :: (splitAtPoint rest).1, (splitAtPoint rest).2) := by
  conv_lhs => unfold splitAtPoint
  split
  · rename_i isEmpty
    cases isEmpty
  · rename_i isPoint
    cases isPoint
    exact absurd rfl notPoint
  · rename_i isCons
    cases isCons
    rfl

theorem splitAtPoint_of_not_mem
    {front : List Char} (noPoint : '.' ∉ front) :
    splitAtPoint front = (front, []) := by
  induction front with
  | nil => rfl
  | cons first rest inductionHypothesis =>
      rw [List.mem_cons, not_or] at noPoint
      rw [splitAtPoint_cons (Ne.symm noPoint.1), inductionHypothesis noPoint.2]

theorem splitAtPoint_append
    {front : List Char} (noPoint : '.' ∉ front) (back : List Char) :
    splitAtPoint (front ++ '.' :: back) = (front, back) := by
  induction front with
  | nil => rfl
  | cons first rest inductionHypothesis =>
      rw [List.mem_cons, not_or] at noPoint
      rw [List.cons_append, splitAtPoint_cons (Ne.symm noPoint.1),
        inductionHypothesis noPoint.2]

/-- A text is what stands before its first point if there is none, and else the
two parts with the point between them. -/
theorem eq_of_splitAtPoint {body front back : List Char}
    (parts : splitAtPoint body = (front, back)) :
    back = [] ∧ body = front ∨ body = front ++ '.' :: back := by
  induction body generalizing front with
  | nil =>
      cases parts
      exact .inl ⟨rfl, rfl⟩
  | cons first rest inductionHypothesis =>
      by_cases isPoint : first = '.'
      · subst isPoint
        cases parts
        exact .inr rfl
      · rw [splitAtPoint_cons isPoint] at parts
        cases parts
        rcases inductionHypothesis rfl with ⟨nothing, isFront⟩ | isBoth
        · exact .inl ⟨nothing, congrArg (first :: ·) isFront⟩
        · exact .inr (congrArg (first :: ·) isBoth)

theorem splitAtPoint_fraction
    {front digits : List Char} (noPoint : '.' ∉ front) :
    splitAtPoint
        (front ++ (if digits.isEmpty then [] else '.' :: digits)) =
      (front, digits) := by
  cases digits with
  | nil =>
      simp only [List.isEmpty_nil, if_true, List.append_nil]
      exact splitAtPoint_of_not_mem noPoint
  | cons first rest => exact splitAtPoint_append noPoint (first :: rest)

/-! ## Reading -/

/-- Where the parts are within their bounds, nothing is carried over. -/
theorem ofParts?_of_lt {seconds nanos : Nat} (fits : seconds < UInt64.size)
    (small : nanos < nanosPerSecond) :
    ofParts? seconds nanos = some ⟨UInt64.ofNat seconds, nanos, small⟩ := by
  have noCarry : nanos / nanosPerSecond = 0 := Nat.div_eq_of_lt small
  have sameNanos : nanos % nanosPerSecond = nanos := Nat.mod_eq_of_lt small
  simp only [ofParts?, noCarry, sameNanos, Nat.add_zero, if_pos fits]

theorem ofParts?_self (duration : Duration) :
    ofParts? duration.seconds.toNat duration.nanos = some duration := by
  rw [ofParts?_of_lt duration.seconds.toNat_lt duration.nanos_lt,
    UInt64.ofNat_toNat]

/-- The fractions that are read further. -/
theorem not_refused_iff {fraction : List Char} :
    ¬(9 < fraction.length ∨ (!fraction.all Char.isDigit) = true) ↔
      (∀ digit ∈ fraction, digit.isDigit = true) ∧ fraction.length ≤ 9 := by
  rw [not_or, Nat.not_lt, Bool.not_eq_true', Bool.not_eq_false,
    List.all_eq_true, and_comm]

theorem not_isBlank_of_mem_characters
    {duration : Duration} {character : Char}
    (member : character ∈ duration.characters) :
    Text.isBlank character = false := by
  obtain ⟨digits, isFraction, areDigits, -, -⟩ :=
    fractionCharacters_eq duration.nanos_lt
  rw [characters, isFraction, List.append_assoc, List.mem_append,
    List.mem_append] at member
  rcases member with inSeconds | inFraction | isUnit
  · exact Text.isBlank_of_isDigit (Text.isDigit_of_mem_toDigits inSeconds)
  · split at inFraction
    · cases inFraction
    · rcases List.mem_cons.mp inFraction with rfl | inDigits
      · rfl
      · exact Text.isBlank_of_isDigit (areDigits character inDigits)
  · rw [List.mem_singleton.mp isUnit]
    rfl

/-- The text of a duration is read as the duration. -/
theorem ofCharacters?_characters (duration : Duration) :
    ofCharacters? duration.characters = some duration := by
  have plain : Text.trim duration.characters = duration.characters :=
    Text.trim_of_no_blank fun _ => not_isBlank_of_mem_characters
  obtain ⟨digits, isFraction, areDigits, short, isNumber⟩ :=
    fractionCharacters_eq duration.nanos_lt
  have noPoint : '.' ∉ Nat.toDigits 10 duration.seconds.toNat := fun member =>
    absurd (Text.isDigit_of_mem_toDigits member) (by decide)
  have fits := not_refused_iff.mpr ⟨areDigits, short⟩
  rw [ofCharacters?, plain, characters, isFraction, beforeUnit?_append]
  simp only [splitAtPoint_fraction noPoint, if_neg fits,
    Text.readInteger_toDigits duration.seconds.toNat_lt, isNumber]
  exact ofParts?_self duration

theorem reader_toText (room : Nat) (duration : Duration) :
    reader room (Json.document (.string duration.toText)) = .ok duration := by
  simp only [Json.document, reader, Json.Reader.text, toText,
    String.toList_ofList, ofCharacters?_characters]

end TraceArchive.Duration
