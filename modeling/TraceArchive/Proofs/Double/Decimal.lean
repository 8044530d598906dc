import TraceArchive.Double.Shortest
import TraceArchive.Proofs.Double.Rounding
import TraceArchive.Proofs.Text.Digits

/-!
# Decimals that stand for a double

The shortest decimal of a double rounds to this double, because a grid of
seventeen digits is finer than the steps between doubles. So it is read as the
double that it was made from. The main statements are `rounds_shortest` and
`ofDecimal?_of_rounds`.
-/

namespace TraceArchive.Double

/-! ## Steps between magnitudes -/

theorem multiple_lt_succ (rank : Nat) : multiple rank < multiple (rank + 1) := by
  have split := split_rank rank
  have positive := pow_pos (scale rank)
  rw [split.multiple_eq, split.multiple_succ, Nat.add_mul, Nat.one_mul]
  omega

theorem multiple_le {earlier later : Nat} (before : earlier ≤ later) :
    multiple earlier ≤ multiple later := by
  induction before with
  | refl => exact Nat.le_refl _
  | step _ inductionHypothesis =>
      exact Nat.le_trans inductionHypothesis (Nat.le_of_lt (multiple_lt_succ _))

theorem multiple_pos {rank : Nat} (nonZero : 0 < rank) : 0 < multiple rank := by
  have above := multiple_lt_succ (rank - 1)
  rw [Nat.sub_add_cancel nonZero] at above
  omega

/-- A step that is not longer than those to the two neighbours; a magnitude has
at most two to the power 53 of them. -/
theorem exists_step {rank : Nat} (nonZero : 0 < rank) :
    ∃ step, 0 < step ∧ multiple (rank - 1) + step = multiple rank ∧
      multiple rank + step ≤ multiple (rank + 1) ∧
        multiple rank ≤ 2 * binade * step := by
  have split := split_rank rank
  generalize scale rank = shift at split
  generalize rank - shift * binade = digits at split
  have isBinade := binade_eq
  have inner : 0 < digits → shift = 0 ∨ binade < digits →
      ∃ step, 0 < step ∧ multiple (rank - 1) + step = multiple rank ∧
        multiple rank + step ≤ multiple (rank + 1) ∧
          multiple rank ≤ 2 * binade * step := by
    intro filled within
    refine ⟨Nat.pow 2 shift, pow_pos shift, ?_, ?_, ?_⟩
    · rw [split.multiple_pred filled within, split.multiple_eq]
    · rw [split.multiple_eq, split.multiple_succ, Nat.add_mul, Nat.one_mul]
    · rw [split.multiple_eq]
      exact Nat.mul_le_mul_right _ (Nat.le_of_lt split.digits_lt)
  rcases split.normal with rfl | normal
  · have isRank := split.rank_eq
    exact inner (by omega) (Or.inl rfl)
  · rcases Nat.lt_or_eq_of_le normal with beyond | rfl
    · exact inner (by omega) (Or.inr beyond)
    · cases shift with
      | zero => exact inner (by omega) (Or.inl rfl)
      | succ shift =>
          have center :
              multiple rank = 2 * binade * Nat.pow 2 shift := by
            rw [split.multiple_eq, pow_succ]
            ring
          refine ⟨Nat.pow 2 shift, pow_pos shift, ?_, ?_, ?_⟩
          · rw [split.multiple_pred_of_start, center]
          · rw [center, split.multiple_succ, pow_succ, Nat.add_mul,
              Nat.one_mul, Nat.mul_left_comm, ← Nat.mul_assoc]
            omega
          · rw [center]

/-! ## Decimals as quotients -/

namespace Decimal

/-- The number above the line of a decimal as a quotient. -/
def numerator (decimal : Decimal) : Nat :=
  decimal.digits * Nat.pow 10 decimal.exponent.toNat

/-- The number below the line of a decimal as a quotient. -/
def denominator (decimal : Decimal) : Nat :=
  Nat.pow 10 (-decimal.exponent).toNat

end Decimal

theorem rounds_of_roundsTo
    {rank : Nat} {decimal : Decimal} (fits : roundsTo rank decimal = true) :
    Rounds rank decimal.numerator decimal.denominator := by
  have twice :
      decimal.digits * Nat.pow 10 decimal.exponent.toNat *
          Nat.pow 2 (leastExponent + 1) =
        2 * (decimal.numerator * Nat.pow 2 leastExponent) := by
    rw [pow_succ, Decimal.numerator]
    ring
  unfold roundsTo at fits
  dsimp only at fits
  rw [twice] at fits
  split at fits
  · rename_i even
    rw [Bool.and_eq_true, decide_eq_true_eq, decide_eq_true_eq] at fits
    exact ⟨fits.1, fits.2, fun _ => even⟩
  · rw [Bool.and_eq_true, decide_eq_true_eq, decide_eq_true_eq] at fits
    refine ⟨Nat.le_of_lt fits.1, Nat.le_of_lt fits.2, ?_⟩
    rintro (atLower | atUpper)
    · exact absurd atLower (Nat.ne_of_lt fits.1)
    · exact absurd atUpper (Nat.ne_of_lt fits.2)

/-! ## Seventeen digits are enough -/

/-- A grid whose unit is shorter than the steps of the doubles has a decimal
next to each of them. -/
theorem rounds_neighbours
    {rank : Nat} (nonZero : 0 < rank) {exponent : Int}
    (fine :
      Nat.pow 10 16 * (Nat.pow 2 leastExponent * Nat.pow 10 exponent.toNat) ≤
        multiple rank * Nat.pow 10 (-exponent).toNat) :
    Rounds rank (neighbours rank exponent).1.numerator
      (neighbours rank exponent).1.denominator := by
  obtain ⟨step, stepPositive, below, above, long⟩ := exists_step nonZero
  have isBinade := binade_eq
  have powerPositive : 0 < Nat.pow 10 (-exponent).toNat :=
    Nat.pow_pos (by decide)
  have unitPositive :
      0 < Nat.pow 2 leastExponent * Nat.pow 10 exponent.toNat :=
    Nat.mul_pos (pow_pos _) (Nat.pow_pos (by decide))
  have near := divideNearest_bounds
    (multiple rank * Nat.pow 10 (-exponent).toNat) unitPositive
  unfold Rounds
  simp only [Decimal.numerator, Decimal.denominator, neighbours]
  generalize isNearest :
    divideNearest (multiple rank * Nat.pow 10 (-exponent).toNat)
      (Nat.pow 2 leastExponent * Nat.pow 10 exponent.toNat) = nearest
    at near ⊢
  have value :
      2 * (nearest * Nat.pow 10 exponent.toNat * Nat.pow 2 leastExponent) =
        2 * nearest *
          (Nat.pow 2 leastExponent * Nat.pow 10 exponent.toNat) := by
    ring
  rw [value]
  generalize Nat.pow 2 leastExponent * Nat.pow 10 exponent.toNat = unit
    at near fine unitPositive ⊢
  generalize Nat.pow 10 (-exponent).toNat = power
    at near fine powerPositive ⊢
  have finer : unit < step * power := by
    have stepsPositive : 0 < step * power :=
      Nat.mul_pos stepPositive powerPositive
    have scaled := Nat.mul_le_mul_right power long
    rw [Nat.mul_assoc, isBinade] at scaled
    have isSixteen : Nat.pow 10 16 = 10000000000000000 := by decide
    rw [isSixteen] at fine
    omega
  have lower :
      (multiple (rank - 1) + multiple rank) * power + step * power =
        2 * (multiple rank * power) := by
    rw [← Nat.add_mul, Nat.add_right_comm, below]
    ring
  have upper :
      2 * (multiple rank * power) + step * power ≤
        (multiple rank + multiple (rank + 1)) * power := by
    have scaled := Nat.mul_le_mul_right power above
    rw [Nat.add_mul] at scaled ⊢
    omega
  refine ⟨by omega, by omega, ?_⟩
  omega

theorem pow_add (first second : Nat) :
    Nat.pow 10 (first + second) = Nat.pow 10 first * Nat.pow 10 second := by
  rw [Nat.pow_eq, Nat.pow_eq, Nat.pow_eq, Nat.pow_add]

/-- The grid of seventeen digits is fine enough. -/
theorem fine_of_leadingExponent
    {rank : Nat} (nonZero : 0 < rank) :
    Nat.pow 10 16 *
        (Nat.pow 2 leastExponent *
          Nat.pow 10 (leadingExponent rank - 16).toNat) ≤
      multiple rank * Nat.pow 10 (-(leadingExponent rank - 16)).toNat := by
  have enough : Nat.pow 2 leastExponent ≤ Nat.pow 10 reach := by decide +kernel
  have scaledPositive :
      0 < multiple rank * Nat.pow 10 reach / Nat.pow 2 leastExponent := by
    refine Nat.div_pos ?_ (pow_pos _)
    exact Nat.le_trans enough
      (Nat.le_mul_of_pos_left _ (multiple_pos nonZero))
  have first := Text.pow_length_le scaledPositive
  rw [Nat.le_div_iff_mul_le (pow_pos _)] at first
  have some :
      0 < (Nat.toDigits 10 (multiple rank * Nat.pow 10 reach /
        Nat.pow 2 leastExponent)).length :=
    Nat.length_toDigits_pos
  unfold leadingExponent
  dsimp only
  generalize (Nat.toDigits 10 (multiple rank * Nat.pow 10 reach /
    Nat.pow 2 leastExponent)).length = places at first some ⊢
  generalize reach = offset at first ⊢
  -- the first digit has the same place on both sides of the point
  have balanced :
      Nat.pow 10 (16 + offset) *
          Nat.pow 10 ((places : Int) - 1 - offset - 16).toNat =
        Nat.pow 10 (places - 1) *
          Nat.pow 10 (-((places : Int) - 1 - offset - 16)).toNat := by
    rw [← pow_add, ← pow_add]
    congr 1
    omega
  have isTotal :
      Nat.pow 10 (16 + offset) = Nat.pow 10 16 * Nat.pow 10 offset :=
    pow_add 16 offset
  generalize Nat.pow 10 ((places : Int) - 1 - offset - 16).toNat = above
    at balanced ⊢
  generalize Nat.pow 10 (-((places : Int) - 1 - offset - 16)).toNat = below
    at balanced ⊢
  have positive : 0 < Nat.pow 10 offset := Nat.pow_pos (by decide)
  rw [isTotal] at balanced
  generalize Nat.pow 10 offset = scaling at first balanced positive
  generalize Nat.pow 2 leastExponent = grain at first ⊢
  refine Nat.le_of_mul_le_mul_right ?_ positive
  calc Nat.pow 10 16 * (grain * above) * scaling
      = Nat.pow 10 16 * scaling * above * grain := by
        ring
    _ = Nat.pow 10 (places - 1) * grain * below := by
        rw [balanced]
        ring
    _ ≤ multiple rank * scaling * below :=
        Nat.mul_le_mul_right _ first
    _ = multiple rank * below * scaling := by
        ring

theorem rounds_shortestFrom
    {rank : Nat} (leading : Int)
    (last :
      Rounds rank (neighbours rank (leading - 16)).1.numerator
        (neighbours rank (leading - 16)).1.denominator)
    (attempts places : Nat) (isLast : places + attempts = 17) :
    Rounds rank (shortestFrom rank leading attempts places).numerator
      (shortestFrom rank leading attempts places).denominator := by
  induction attempts generalizing places with
  | zero =>
      have isEnd : leading - places + 1 = leading - 16 := by omega
      rw [shortestFrom, isEnd]
      exact last
  | succ attempts inductionHypothesis =>
      unfold shortestFrom
      dsimp only
      split
      · rename_i fits
        exact rounds_of_roundsTo fits
      · split
        · rename_i fits
          exact rounds_of_roundsTo fits
        · exact inductionHypothesis (places + 1) (by omega)

/-- The shortest decimal rounds to the magnitude that it was made from. -/
theorem rounds_shortest {rank : Nat} (nonZero : 0 < rank) :
    Rounds rank (shortest rank).numerator (shortest rank).denominator :=
  rounds_shortestFrom (leadingExponent rank)
    (rounds_neighbours nonZero (fine_of_leadingExponent nonZero)) 16 1 rfl

/-! ## Reading a decimal -/

theorem multiple_infinityRank :
    multiple infinityRank = binade * Nat.pow 2 2046 := by
  decide +kernel

section Places

variable {rank digits : Nat} {exponent : Int}

theorem digits_pos_of_rounds
    (nonZero : 0 < rank)
    (rounds :
      Rounds rank (digits * Nat.pow 10 exponent.toNat)
        (Nat.pow 10 (-exponent).toNat)) :
    0 < digits := by
  by_contra nothing
  have isZero : digits = 0 := by omega
  have lower := rounds.1
  rw [isZero, Nat.zero_mul, Nat.zero_mul, Nat.mul_zero] at lower
  have positive : 0 < (multiple (rank - 1) + multiple rank) *
      Nat.pow 10 (-exponent).toNat :=
    Nat.mul_pos (Nat.add_pos_right _ (multiple_pos nonZero))
      (Nat.pow_pos (by decide))
  omega

/-- What rounds to a positive rank is not far too small. -/
theorem le_places_of_rounds
    (nonZero : 0 < rank)
    (rounds :
      Rounds rank (digits * Nat.pow 10 exponent.toNat)
        (Nat.pow 10 (-exponent).toNat)) :
    -330 ≤ ((Nat.toDigits 10 digits).length : Int) + exponent := by
  by_contra tooSmall
  have lower := rounds.1
  have isNegative : exponent.toNat = 0 := by omega
  have one : Nat.pow 10 0 = 1 := rfl
  rw [isNegative, one, Nat.mul_one] at lower
  have least : 1 ≤ multiple (rank - 1) + multiple rank :=
    Nat.add_pos_right _ (multiple_pos nonZero)
  have low := Nat.le_trans (Nat.mul_le_mul_right _ least) lower
  rw [Nat.one_mul] at low
  have far :
      Nat.pow 10 330 * Nat.pow 10 (Nat.toDigits 10 digits).length ≤
        Nat.pow 10 (-exponent).toNat :=
    (pow_add _ _).symm.trans_le
      (Nat.pow_le_pow_right (by decide) (by omega))
  have tiny : 2 * Nat.pow 2 leastExponent < Nat.pow 10 330 := by
    decide +kernel
  generalize Nat.pow 2 leastExponent = grain at low tiny
  have short := Text.lt_pow_length digits
  generalize Nat.pow 10 330 = limit at far tiny
  generalize Nat.pow 10 (Nat.toDigits 10 digits).length = bound at far short
  have contrary : 2 * (digits * grain) < limit * bound := by
    calc 2 * (digits * grain) = 2 * grain * digits := by ring
      _ ≤ limit * digits := Nat.mul_le_mul_right _ (Nat.le_of_lt tiny)
      _ < limit * bound := Nat.mul_lt_mul_of_pos_left short (by omega)
  omega

/-- What rounds to a finite rank is not far too big. -/
theorem places_le_of_rounds
    (nonZero : 0 < rank) (finite : rank < infinityRank)
    (rounds :
      Rounds rank (digits * Nat.pow 10 exponent.toNat)
        (Nat.pow 10 (-exponent).toNat)) :
    ((Nat.toDigits 10 digits).length : Int) + exponent ≤ 310 := by
  by_contra tooBig
  have digitsPositive := digits_pos_of_rounds nonZero rounds
  have upper := rounds.2.1
  have most :
      multiple rank + multiple (rank + 1) ≤ 2 * multiple infinityRank := by
    have center := multiple_le (Nat.le_of_lt finite)
    have next : multiple (rank + 1) ≤ multiple infinityRank :=
      multiple_le finite
    omega
  have high := Nat.le_trans upper (Nat.mul_le_mul_right _ most)
  have long := Text.pow_length_le digitsPositive
  have isSum :
      Nat.pow 10 310 * Nat.pow 10 (-exponent).toNat ≤
        Nat.pow 10 ((Nat.toDigits 10 digits).length - 1) *
          Nat.pow 10 exponent.toNat :=
    ((pow_add _ _).symm.trans_le
      (Nat.pow_le_pow_right (by decide) (by omega))).trans_eq (pow_add _ _)
  have huge :
      2 * multiple infinityRank <
        Nat.pow 10 310 * (2 * Nat.pow 2 leastExponent) := by
    rw [multiple_infinityRank]
    decide +kernel
  have powerPositive : 0 < Nat.pow 10 (-exponent).toNat :=
    Nat.pow_pos (by decide)
  generalize 2 * multiple infinityRank = most at high huge
  generalize Nat.pow 2 leastExponent = grain at high huge
  generalize Nat.pow 10 310 = limit at isSum huge
  generalize Nat.pow 10 (-exponent).toNat = below at high isSum powerPositive
  generalize Nat.pow 10 exponent.toNat = above at high isSum
  have contrary : most * below < 2 * (digits * above * grain) := by
    calc most * below
        < limit * (2 * grain) * below :=
          Nat.mul_lt_mul_of_pos_right huge powerPositive
      _ = 2 * grain * (limit * below) := by ring
      _ ≤ 2 * grain * (Nat.pow 10 ((Nat.toDigits 10 digits).length - 1) *
            above) := Nat.mul_le_mul_left _ isSum
      _ ≤ 2 * grain * (digits * above) :=
          Nat.mul_le_mul_left _ (Nat.mul_le_mul_right _ long)
      _ = 2 * (digits * above * grain) := by ring
  omega

/-- A decimal that rounds to a positive finite rank is read as the double of
this rank. -/
theorem ofDecimal?_of_rounds
    (negative : Bool) (nonZero : 0 < rank) (finite : rank < infinityRank)
    (rounds :
      Rounds rank (digits * Nat.pow 10 exponent.toNat)
        (Nat.pow 10 (-exponent).toNat)) :
    ofDecimal? negative digits exponent = some (ofRank negative rank) := by
  have digitsPositive := digits_pos_of_rounds nonZero rounds
  have notSmall := le_places_of_rounds nonZero rounds
  have notBig := places_le_of_rounds nonZero finite rounds
  have positive : 0 < Nat.pow 10 (-exponent).toNat :=
    Nat.pow_pos (by decide)
  have isRank := nearestRank_of_rounds nonZero positive rounds
  unfold ofDecimal?
  dsimp only
  rw [if_neg (by omega), if_neg (by omega)]
  have isNearest :
      (if exponent < 0 then nearestRank digits (Nat.pow 10 exponent.natAbs)
        else nearestRank (digits * Nat.pow 10 exponent.natAbs) 1) = rank := by
    split
    · have isZero : exponent.toNat = 0 := by omega
      have isAbs : (-exponent).toNat = exponent.natAbs := by omega
      rwa [isZero, isAbs, show Nat.pow 10 0 = 1 from rfl,
        Nat.mul_one] at isRank
    · have isZero : (-exponent).toNat = 0 := by omega
      have isAbs : exponent.toNat = exponent.natAbs := by omega
      rwa [isZero, isAbs, show Nat.pow 10 0 = 1 from rfl] at isRank
  rw [isNearest, if_pos finite]

end Places

/-- Zero is read from any decimal without a digit but zeros. -/
theorem ofDecimal?_zero (negative : Bool) (exponent : Int) :
    ofDecimal? negative 0 exponent = some (ofRank negative 0) := by
  simp [ofDecimal?]

theorem ofRank_rank {number : Double} (finite : number.isFinite = true) :
    ofRank number.negative number.rank = number := by
  have below : number.rank < infinityRank := of_decide_eq_true finite
  rw [ofRank, dif_pos below]

theorem isFinite_ofRank
    {rank : Nat} (below : rank < infinityRank) (negative : Bool) :
    (ofRank negative rank).isFinite = true := by
  rw [ofRank, dif_pos below]
  exact decide_eq_true below

theorem isFinite_of_ofDecimal?
    {negative : Bool} {digits : Nat} {exponent : Int} {number : Double}
    (read : ofDecimal? negative digits exponent = some number) :
    number.isFinite = true := by
  unfold ofDecimal? at read
  dsimp only at read
  split at read
  · cases read
    exact isFinite_ofRank (by decide) negative
  · split at read
    · cases read
    · generalize (if exponent < 0 then _ else _) = rank at read
      split at read
      · rename_i below
        cases read
        exact isFinite_ofRank below negative
      · cases read

/-! ## Zeros at the end -/

/-- A decimal with more or fewer zeros at its end rounds alike. -/
theorem Rounds.of_zeros
    {rank number : Nat} {place : Int} (zeros others : Nat)
    (rounds :
      Rounds rank
        (Nat.pow 10 zeros * number * Nat.pow 10 (place - zeros).toNat)
        (Nat.pow 10 (-(place - zeros)).toNat)) :
    Rounds rank
      (Nat.pow 10 others * number * Nat.pow 10 (place - others).toNat)
      (Nat.pow 10 (-(place - others)).toNat) := by
  refine rounds.of_proportional (Nat.pow_pos (by decide))
    (Nat.pow_pos (by decide)) ?_
  have balanced :
      Nat.pow 10 (zeros + (place - zeros).toNat + (-(place - others)).toNat) =
        Nat.pow 10
          (others + (place - others).toNat + (-(place - zeros)).toNat) := by
    congr 1
    omega
  rw [pow_add, pow_add, pow_add, pow_add] at balanced
  calc Nat.pow 10 zeros * number * Nat.pow 10 (place - zeros).toNat *
        Nat.pow 10 (-(place - others)).toNat
      = number * (Nat.pow 10 zeros * Nat.pow 10 (place - zeros).toNat *
          Nat.pow 10 (-(place - others)).toNat) := by
        ring
    _ = Nat.pow 10 others * number * Nat.pow 10 (place - others).toNat *
          Nat.pow 10 (-(place - zeros)).toNat := by
        rw [balanced]
        ring

end TraceArchive.Double
