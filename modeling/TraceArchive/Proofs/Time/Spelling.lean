import TraceArchive.Proofs.Time.Duration

/-!
# Spellings of durations

A duration is written in one way and read in many: with a plus sign or without,
with zeros in front, and with a fraction of any length up to nine digits. What is
read is exactly the number that is written: `Duration.ofCharacters?_exact`.
-/

namespace TraceArchive.Duration

/-! ## Numbers of seconds -/

/-- The length in seconds. -/
def inSeconds (duration : Duration) : Rat :=
  mkRat duration.totalNanos nanosPerSecond

/-- Durations of the same length are the same. -/
theorem eq_of_totalNanos_eq {left right : Duration}
    (same : left.totalNanos = right.totalNanos) : left = right := by
  obtain ⟨leftSeconds, leftNanos, leftSmall⟩ := left
  obtain ⟨rightSeconds, rightNanos, rightSmall⟩ := right
  simp only [totalNanos, nanosPerSecond] at same leftSmall rightSmall
  have sameSeconds : leftSeconds = rightSeconds :=
    UInt64.toNat_inj.mp (by omega)
  have sameNanos : leftNanos = rightNanos := by
    rw [sameSeconds] at same
    omega
  subst sameSeconds sameNanos
  rfl

theorem inSeconds_eq_iff {duration : Duration} {number : Int} {unit : Nat}
    (positive : unit ≠ 0) :
    duration.inSeconds = mkRat number unit ↔
      (duration.totalNanos : Int) * unit = number * nanosPerSecond :=
  Rat.mkRat_eq_iff (by decide) positive

theorem inSeconds_inj {left right : Duration} :
    left.inSeconds = right.inSeconds ↔ left = right := by
  constructor
  · intro same
    have scaled := (inSeconds_eq_iff (by decide)).mp same
    refine eq_of_totalNanos_eq ?_
    simp only [nanosPerSecond] at scaled
    omega
  · rintro rfl
    rfl

/-! ## Fractions of any length -/

/-- The nanoseconds that the digits after the point stand for. -/
def nanosOf (fraction : List Char) : Nat :=
  Text.numberOf fraction * Nat.pow 10 (9 - fraction.length)

section Fraction

variable {fraction : List Char}
  (areDigits : ∀ digit ∈ fraction, digit.isDigit = true)
  (short : fraction.length ≤ 9)

/-- The digits of a fraction, filled up with zeros to those of the nanoseconds. -/
def filledUp (fraction : List Char) : List Char :=
  fraction ++ List.replicate (9 - fraction.length) '0'

theorem numberOf_filledUp (fraction : List Char) :
    Text.numberOf (filledUp fraction) = nanosOf fraction := by
  rw [filledUp, Text.numberOf_append, Text.numberOf_zeros,
    List.length_replicate, Nat.add_zero, Nat.mul_comm, nanosOf]

include areDigits

theorem isDigit_of_mem_filledUp :
    ∀ digit ∈ filledUp fraction, digit.isDigit = true := by
  intro digit member
  rcases List.mem_append.mp member with given | isZero
  · exact areDigits digit given
  · rw [(List.mem_replicate.mp isZero).2]
    rfl

include short

theorem nanosOf_lt : nanosOf fraction < nanosPerSecond := by
  have below := Text.numberOf_lt (isDigit_of_mem_filledUp areDigits)
  have length : (filledUp fraction).length = 9 := by
    rw [filledUp, List.length_append, List.length_replicate]
    omega
  rw [numberOf_filledUp, length] at below
  exact below

/-- The nine digits are a number of 32 bits. -/
theorem readInteger_filledUp :
    Text.readInteger UInt32.size (filledUp fraction) =
      .ok (nanosOf fraction) := by
  have small : nanosOf fraction < UInt32.size :=
    Nat.lt_trans (nanosOf_lt areDigits short) (by decide)
  have notEmpty : filledUp fraction ≠ [] := by
    intro isEmpty
    obtain ⟨nothing, noZeros⟩ := List.append_eq_nil_iff.mp isEmpty
    rw [nothing] at noZeros
    cases noZeros
  exact
    (Text.readInteger_eq_ok_iff (by decide)).mpr
      ⟨filledUp fraction, .inl rfl, notEmpty,
        isDigit_of_mem_filledUp areDigits, numberOf_filledUp fraction, small⟩

end Fraction

/-! ## Spellings -/

/-- A way to write a duration: one or more digits, a plus sign in front and a
point with at most nine digits behind if wanted, and the unit. -/
structure Spelling where
  hasPlus : Bool
  whole : List Char
  /-- The digits after the point, if there is one. -/
  afterPoint : Option (List Char)
  whole_ne_nil : whole ≠ []
  whole_isDigit : ∀ digit ∈ whole, digit.isDigit = true
  whole_lt : Text.numberOf whole < UInt64.size
  fraction_isDigit : ∀ digit ∈ afterPoint.getD [], digit.isDigit = true
  fraction_short : (afterPoint.getD []).length ≤ 9

namespace Spelling

variable (spelling : Spelling)

/-- The digits of the fraction, none without a point. -/
def fraction : List Char :=
  spelling.afterPoint.getD []

/-- What stands before the point. -/
def front : List Char :=
  if spelling.hasPlus then '+' :: spelling.whole else spelling.whole

/-- What stands before the unit. -/
def body : List Char :=
  spelling.front ++
    match spelling.afterPoint with
    | none => []
    | some digits => '.' :: digits

/-- The characters of a spelling. -/
def characters : List Char :=
  spelling.body ++ ['s']

/-- The number that is written: all its digits, with the point as many places
from the end as there are digits behind it. -/
def number : Rat :=
  mkRat (Text.numberOf (spelling.whole ++ spelling.fraction))
    (Nat.pow 10 spelling.fraction.length)

/-- The duration that is written. -/
def duration : Duration where
  seconds := UInt64.ofNat (Text.numberOf spelling.whole)
  nanos := nanosOf spelling.fraction
  nanos_lt := nanosOf_lt spelling.fraction_isDigit spelling.fraction_short

/-- Nothing is rounded. -/
theorem inSeconds_duration :
    spelling.duration.inSeconds = spelling.number := by
  have positive : 0 < Nat.pow 10 spelling.fraction.length :=
    Nat.pow_pos (by decide)
  have short : spelling.fraction.length ≤ 9 := spelling.fraction_short
  have isScale :
      Nat.pow 10 spelling.fraction.length *
          Nat.pow 10 (9 - spelling.fraction.length) =
        nanosPerSecond := by
    rw [Nat.pow_eq, Nat.pow_eq, ← Nat.pow_add, Nat.add_sub_cancel' short]
    rfl
  have isSeconds :
      spelling.duration.seconds.toNat = Text.numberOf spelling.whole :=
    UInt64.toNat_ofNat_of_lt' spelling.whole_lt
  have isNanos :
      spelling.duration.nanos =
        Text.numberOf spelling.fraction *
          Nat.pow 10 (9 - spelling.fraction.length) :=
    rfl
  refine (inSeconds_eq_iff (Nat.ne_of_gt positive)).mpr ?_
  rw [totalNanos, isSeconds, isNanos, Text.numberOf_append, ← isScale]
  norm_cast
  grind

theorem splitAtPoint_body :
    splitAtPoint spelling.body = (spelling.front, spelling.fraction) := by
  have noPoint : '.' ∉ spelling.whole := fun member =>
    absurd (spelling.whole_isDigit '.' member) (by decide)
  have noPointBefore : '.' ∉ spelling.front := by
    unfold front
    split
    · simpa using noPoint
    · exact noPoint
  unfold body fraction
  cases spelling.afterPoint with
  | none => simpa using splitAtPoint_of_not_mem noPointBefore
  | some digits => exact splitAtPoint_append noPointBefore digits

theorem readInteger_front :
    Text.readInteger UInt64.size spelling.front =
      .ok (Text.numberOf spelling.whole) := by
  refine
    (Text.readInteger_eq_ok_iff (by decide)).mpr
      ⟨spelling.whole, ?_, spelling.whole_ne_nil, spelling.whole_isDigit, rfl,
        spelling.whole_lt⟩
  unfold front
  split
  · exact .inr rfl
  · exact .inl rfl

/-- A text that is taken apart at its point is a spelling if both parts are what
they have to be. -/
theorem exists_of_parts {body front fraction : List Char} {seconds : Nat}
    (parts : splitAtPoint body = (front, fraction))
    (isInteger : Text.readInteger UInt64.size front = .ok seconds)
    (areDigits : ∀ digit ∈ fraction, digit.isDigit = true)
    (short : fraction.length ≤ 9) :
    ∃ spelling : Spelling,
      spelling.body = body ∧ Text.numberOf spelling.whole = seconds ∧
        spelling.fraction = fraction := by
  obtain ⟨whole, isFront, someWhole, wholeDigits, rfl, small⟩ :=
    (Text.readInteger_eq_ok_iff (by decide)).mp isInteger
  obtain ⟨hasPlus, rfl⟩ :
      ∃ hasPlus, front = if hasPlus = true then '+' :: whole else whole := by
    rcases isFront with isPlain | isSigned
    · exact ⟨false, isPlain⟩
    · exact ⟨true, isSigned⟩
  rcases eq_of_splitAtPoint parts with ⟨rfl, isWhole⟩ | isBoth
  · refine
      ⟨⟨hasPlus, whole, none, someWhole, wholeDigits, small, areDigits, short⟩,
        ?_, rfl, rfl⟩
    rw [isWhole]
    exact List.append_nil _
  · exact
      ⟨⟨hasPlus, whole, some fraction, someWhole, wholeDigits, small,
        areDigits, short⟩, isBoth.symm, rfl, rfl⟩

end Spelling

/-! ## Reading a spelling -/

theorem ofParts?_spelling (spelling : Spelling) :
    ofParts? (Text.numberOf spelling.whole) (nanosOf spelling.fraction) =
      some spelling.duration :=
  ofParts?_of_lt spelling.whole_lt spelling.duration.nanos_lt

/-- A text is read as a duration exactly if a spelling of the duration is left of
it without the blanks around it. -/
theorem ofCharacters?_eq_some_iff {given : List Char} {duration : Duration} :
    ofCharacters? given = some duration ↔
      ∃ spelling : Spelling,
        Text.IsTrimmed spelling.characters given ∧
          spelling.duration = duration := by
  constructor
  · intro read
    unfold ofCharacters? at read
    split at read
    · cases read
    rename_i body isBody
    cases parts : splitAtPoint body with
    | mk front fraction =>
        simp only [parts] at read
        split at read
        · cases read
        rename_i fits
        split at read
        · cases read
        rename_i seconds isInteger
        obtain ⟨areDigits, short⟩ := not_refused_iff.mp fits
        obtain ⟨spelling, rfl, rfl, rfl⟩ :=
          Spelling.exists_of_parts parts isInteger areDigits short
        refine ⟨spelling, ?_, ?_⟩
        · exact Text.trim_eq_iff.mp (beforeUnit?_eq_some_iff.mp isBody)
        · exact Option.some.inj ((ofParts?_spelling spelling).symm.trans read)
  · rintro ⟨spelling, isTrimmed, rfl⟩
    have isText := Text.trim_eq_iff.mpr isTrimmed
    have fits :=
      (@not_refused_iff spelling.fraction).mpr
        ⟨spelling.fraction_isDigit, spelling.fraction_short⟩
    rw [ofCharacters?, isText, Spelling.characters, beforeUnit?_append]
    simp only [spelling.splitAtPoint_body, if_neg fits,
      spelling.readInteger_front]
    exact ofParts?_spelling spelling

/-- Every duration is read back from its text. A text is read as a duration
exactly if it is a spelling, up to blanks around it, of exactly this number of
seconds. On the way the digits behind the point, filled up to nine, are a number
of 32 bits, and the two parts are a duration. -/
theorem ofCharacters?_exact :
    (∀ duration : Duration,
        ofCharacters? duration.toText.toList = some duration) ∧
      (∀ (given : String) (duration : Duration),
          ofCharacters? given.toList = some duration ↔
            ∃ spelling : Spelling,
              Text.IsTrimmed spelling.characters given.toList ∧
                duration.inSeconds = spelling.number) ∧
        ∀ spelling : Spelling,
          Text.readInteger UInt32.size (filledUp spelling.fraction) =
              .ok (nanosOf spelling.fraction) ∧
            ofParts? (Text.numberOf spelling.whole)
                (nanosOf spelling.fraction) =
              some spelling.duration := by
  refine ⟨?_, ?_, ?_⟩
  · intro duration
    rw [toText, String.toList_ofList]
    exact ofCharacters?_characters duration
  · intro given duration
    have isNumber : ∀ spelling : Spelling,
        spelling.duration = duration ↔
          duration.inSeconds = spelling.number := by
      intro spelling
      rw [← spelling.inSeconds_duration, inSeconds_inj, eq_comm]
    simp only [ofCharacters?_eq_some_iff, isNumber]
  · intro spelling
    exact
      ⟨readInteger_filledUp spelling.fraction_isDigit spelling.fraction_short,
        ofParts?_spelling spelling⟩

example :
    ofCharacters? " +007.50s\n".toList = some ⟨7, 500000000, by decide⟩ := by
  decide +kernel

end TraceArchive.Duration
