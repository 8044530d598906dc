import Mathlib.Data.Nat.Log
import Mathlib.Tactic.Ring
import TraceArchive.Double.Basic

/-!
# Rounding to doubles

A number between the midpoints to the two neighbours of a double is rounded to
this double, and so is a midpoint if the rank of the double is even. The main
statement is `nearestRank_of_rounds`.
-/

namespace TraceArchive.Double

theorem binade_eq : binade = 4503599627370496 := by
  decide

theorem pow_succ (exponent : Nat) :
    Nat.pow 2 (exponent + 1) = 2 * Nat.pow 2 exponent := by
  rw [Nat.pow_eq, Nat.pow_eq, Nat.pow_succ, Nat.mul_comm]

theorem pow_pos (exponent : Nat) : 0 < Nat.pow 2 exponent :=
  Nat.pow_pos (by decide)

/-! ## Magnitudes -/

/-- A rank as a binade and a place in it or, for the first, in both of the first
two. -/
structure Split (rank scale digits : Nat) : Prop where
  rank_eq : rank = scale * binade + digits
  digits_lt : digits < 2 * binade
  normal : scale = 0 ∨ binade ≤ digits

theorem split_rank (rank : Nat) :
    Split rank (scale rank) (rank - scale rank * binade) := by
  refine ⟨?_, ?_, ?_⟩
  · simp only [scale, binade_eq]
    omega
  · simp only [scale, binade_eq]
    omega
  · simp only [scale, binade_eq]
    omega

namespace Split

variable {rank shift digits : Nat}

theorem scale_eq (split : Split rank shift digits) : scale rank = shift := by
  obtain ⟨rfl, digitsLt, normal⟩ := split
  simp only [scale, binade_eq] at digitsLt normal ⊢
  omega

theorem multiple_eq (split : Split rank shift digits) :
    multiple rank = digits * Nat.pow 2 shift := by
  rw [multiple, split.scale_eq, split.rank_eq, Nat.add_sub_cancel_left]

/-- The step to the next magnitude. -/
theorem multiple_succ (split : Split rank shift digits) :
    multiple (rank + 1) = (digits + 1) * Nat.pow 2 shift := by
  obtain ⟨isRank, digitsLt, normal⟩ := split
  by_cases last : digits + 1 = 2 * binade
  · have next : Split (rank + 1) (shift + 1) binade := by
      refine ⟨?_, ?_, Or.inr (Nat.le_refl _)⟩
      · rw [isRank, Nat.add_mul]
        omega
      · rw [binade_eq]
        decide
    rw [next.multiple_eq, last, pow_succ]
    ring
  · have next : Split (rank + 1) shift (digits + 1) :=
      ⟨by omega, by omega, by omega⟩
    exact next.multiple_eq

/-- The step from the magnitude before, within a binade. -/
theorem multiple_pred
    (split : Split rank shift digits) (positive : 0 < digits)
    (within : shift = 0 ∨ binade < digits) :
    multiple (rank - 1) + Nat.pow 2 shift = digits * Nat.pow 2 shift := by
  have before : Split (rank - 1) shift (digits - 1) := by
    obtain ⟨isRank, digitsLt, normal⟩ := split
    exact ⟨by omega, by omega, by omega⟩
  have isDigits : digits = digits - 1 + 1 := by omega
  rw [before.multiple_eq]
  conv_rhs => rw [isDigits, Nat.add_mul, Nat.one_mul]

/-- At the start of a binade the step from the magnitude before is only half as
long. -/
theorem multiple_pred_of_start
    (split : Split rank (shift + 1) binade) :
    multiple (rank - 1) + Nat.pow 2 shift = 2 * binade * Nat.pow 2 shift := by
  have before : Split (rank - 1) shift (2 * binade - 1) := by
    obtain ⟨isRank, digitsLt, normal⟩ := split
    have isBinade := binade_eq
    rw [Nat.add_mul] at isRank
    exact ⟨by omega, by omega, by omega⟩
  have isDigits : 2 * binade = 2 * binade - 1 + 1 := by
    rw [binade_eq]
  rw [before.multiple_eq]
  conv_rhs => rw [isDigits, Nat.add_mul, Nat.one_mul]

end Split

/-! ## Rounding quotients -/

/-- The nearest number to a quotient, if a half belongs to an even number. -/
theorem divideNearest_eq
    {numerator denominator nearest : Nat} (positive : 0 < denominator)
    (lower : 2 * nearest * denominator ≤ 2 * numerator + denominator)
    (upper : 2 * numerator ≤ 2 * nearest * denominator + denominator)
    (half :
      2 * nearest * denominator = 2 * numerator + denominator ∨
          2 * numerator = 2 * nearest * denominator + denominator →
        nearest % 2 = 0) :
    divideNearest numerator denominator = nearest := by
  have whole := Nat.div_add_mod numerator denominator
  have small := Nat.mod_lt numerator positive
  generalize isQuotient : numerator / denominator = quotient at whole
  generalize isRest : numerator % denominator = rest at whole small
  have sides : nearest = quotient ∨ nearest = quotient + 1 := by
    have above : quotient < nearest + 1 := by
      by_contra tooSmall
      have grown := Nat.mul_le_mul_right denominator (Nat.not_lt.mp tooSmall)
      rw [Nat.add_mul] at grown
      have commuted := Nat.mul_comm denominator quotient
      have doubled : 2 * nearest * denominator = 2 * (nearest * denominator) :=
        Nat.mul_assoc 2 nearest denominator
      omega
    have below : nearest < quotient + 2 := by
      by_contra tooBig
      have grown := Nat.mul_le_mul_right denominator (Nat.not_lt.mp tooBig)
      rw [Nat.add_mul] at grown
      have commuted := Nat.mul_comm denominator quotient
      have doubled : 2 * nearest * denominator = 2 * (nearest * denominator) :=
        Nat.mul_assoc 2 nearest denominator
      omega
    omega
  unfold divideNearest
  rw [isQuotient, isRest]
  dsimp only
  have doubled : 2 * nearest * denominator = 2 * (nearest * denominator) :=
    Nat.mul_assoc 2 nearest denominator
  have commuted := Nat.mul_comm denominator quotient
  rcases sides with rfl | rfl
  · split
    · rfl
    · split
      · omega
      · have even := half (by omega)
        omega
  · rw [Nat.add_mul] at doubled
    split
    · omega
    · split
      · rfl
      · have even := half (by omega)
        omega

/-- Between half of a denominator below and above. -/
theorem divideNearest_bounds
    (numerator : Nat) {denominator : Nat} (positive : 0 < denominator) :
    2 * divideNearest numerator denominator * denominator ≤
        2 * numerator + denominator ∧
      2 * numerator ≤
        2 * divideNearest numerator denominator * denominator +
          denominator := by
  have whole := Nat.div_add_mod numerator denominator
  have small := Nat.mod_lt numerator positive
  unfold divideNearest
  generalize numerator / denominator = quotient at whole ⊢
  generalize numerator % denominator = rest at whole small ⊢
  have commuted := Nat.mul_comm denominator quotient
  have doubled : 2 * quotient * denominator = 2 * (quotient * denominator) :=
    Nat.mul_assoc 2 quotient denominator
  have next :
      2 * (quotient + 1) * denominator =
        2 * (quotient * denominator) + 2 * denominator := by
    ring
  dsimp only
  split
  · omega
  · split
    · omega
    · rcases Nat.mod_two_eq_zero_or_one quotient with even | odd
      · rw [even, Nat.add_zero]
        omega
      · rw [odd]
        omega

/-! ## Rounding to a rank -/

/-- Whether a quotient lies between the midpoints to the two neighbours of the
magnitude of a rank; the midpoints count for an even rank. -/
def Rounds (rank numerator denominator : Nat) : Prop :=
  let center := multiple rank
  let lower := multiple (rank - 1) + center
  let upper := center + multiple (rank + 1)
  let twice := 2 * (numerator * Nat.pow 2 leastExponent)
  lower * denominator ≤ twice ∧ twice ≤ upper * denominator ∧
    (lower * denominator = twice ∨ twice = upper * denominator →
      rank % 2 = 0)

/-- Equal quotients round alike. -/
theorem Rounds.of_proportional
    {rank numerator denominator otherNumerator otherDenominator : Nat}
    (rounds : Rounds rank numerator denominator)
    (positive : 0 < denominator) (otherPositive : 0 < otherDenominator)
    (same : numerator * otherDenominator = otherNumerator * denominator) :
    Rounds rank otherNumerator otherDenominator := by
  obtain ⟨lower, upper, half⟩ := rounds
  have scaled : ∀ factor,
      factor * denominator * otherDenominator =
        factor * otherDenominator * denominator := by
    intro factor
    ring
  have twice :
      2 * (numerator * Nat.pow 2 leastExponent) * otherDenominator =
        2 * (otherNumerator * Nat.pow 2 leastExponent) * denominator := by
    calc 2 * (numerator * Nat.pow 2 leastExponent) * otherDenominator
        = 2 * (numerator * otherDenominator * Nat.pow 2 leastExponent) := by
          ring
      _ = 2 * (otherNumerator * Nat.pow 2 leastExponent) * denominator := by
          rw [same]
          ring
  refine ⟨?_, ?_, ?_⟩
  · refine Nat.le_of_mul_le_mul_right ?_ positive
    rw [← scaled, ← twice]
    exact Nat.mul_le_mul_right _ lower
  · refine Nat.le_of_mul_le_mul_right ?_ positive
    rw [← scaled, ← twice]
    exact Nat.mul_le_mul_right _ upper
  · intro atMidpoint
    refine half ?_
    rcases atMidpoint with atLower | atUpper
    · refine Or.inl (Nat.eq_of_mul_eq_mul_right otherPositive ?_)
      rw [scaled, atLower, twice]
    · refine Or.inr (Nat.eq_of_mul_eq_mul_right otherPositive ?_)
      rw [scaled, twice, atUpper]

/-- The binade of a magnitude as it is found from its binary digits. -/
theorem shift_eq
    {magnitude shift : Nat}
    (lower : shift = 0 ∨ binade * Nat.pow 2 shift ≤ magnitude)
    (upper : magnitude < 2 * binade * Nat.pow 2 shift) :
    magnitude.log2 - 52 = shift := by
  have isPower : ∀ exponent,
      binade * Nat.pow 2 exponent = 2 ^ (52 + exponent) := by
    intro exponent
    rw [binade, Nat.pow_eq, Nat.pow_eq, ← Nat.pow_add]
  rw [Nat.mul_assoc, isPower, Nat.mul_comm, ← Nat.pow_succ] at upper
  by_cases nothing : magnitude = 0
  · subst nothing
    rcases lower with rfl | tooLow
    · rfl
    · rw [isPower] at tooLow
      have positive : 0 < 2 ^ (52 + shift) := Nat.two_pow_pos _
      omega
  · have below := (Nat.log2_lt nothing).mpr upper
    rcases lower with rfl | low
    · omega
    · rw [isPower] at low
      have above := (Nat.le_log2 nothing).mpr low
      omega

section NearestRank

variable {rank numerator denominator shift digits : Nat}

/-- The nearest rank to a number of a binade, in steps of this binade. -/
theorem nearestRank_of_within
    (positive : 0 < denominator)
    (low :
      shift = 0 ∨
        binade * (Nat.pow 2 shift * denominator) ≤
          numerator * Nat.pow 2 leastExponent)
    (high :
      numerator * Nat.pow 2 leastExponent <
        2 * binade * (Nat.pow 2 shift * denominator))
    (lower :
      2 * digits * (Nat.pow 2 shift * denominator) ≤
        2 * (numerator * Nat.pow 2 leastExponent) +
          Nat.pow 2 shift * denominator)
    (upper :
      2 * (numerator * Nat.pow 2 leastExponent) ≤
        2 * digits * (Nat.pow 2 shift * denominator) +
          Nat.pow 2 shift * denominator)
    (half :
      2 * digits * (Nat.pow 2 shift * denominator) =
            2 * (numerator * Nat.pow 2 leastExponent) +
              Nat.pow 2 shift * denominator ∨
          2 * (numerator * Nat.pow 2 leastExponent) =
            2 * digits * (Nat.pow 2 shift * denominator) +
              Nat.pow 2 shift * denominator →
        digits % 2 = 0) :
    nearestRank numerator denominator = shift * binade + digits := by
  have unitPositive : 0 < Nat.pow 2 shift * denominator :=
    Nat.mul_pos (pow_pos shift) positive
  have isShift :
      (numerator * Nat.pow 2 leastExponent / denominator).log2 - 52 =
        shift := by
    refine shift_eq ?_ ?_
    · refine low.imp_right fun far => ?_
      rw [Nat.le_div_iff_mul_le positive, Nat.mul_assoc]
      exact far
    · rw [Nat.div_lt_iff_lt_mul positive, Nat.mul_assoc]
      exact high
  have commuted :
      denominator * Nat.pow 2 shift = Nat.pow 2 shift * denominator :=
    Nat.mul_comm _ _
  unfold nearestRank
  dsimp only
  rw [isShift, commuted, divideNearest_eq unitPositive lower upper half]

/-- A rank whose neighbours are equally far. -/
theorem nearestRank_of_inner
    (split : Split rank shift digits) (filled : 0 < digits)
    (inner : shift = 0 ∨ binade < digits) (positive : 0 < denominator)
    (rounds : Rounds rank numerator denominator) :
    nearestRank numerator denominator = rank := by
  obtain ⟨lower, upper, half⟩ := rounds
  have isBinade := binade_eq
  have above :
      (multiple rank + multiple (rank + 1)) * denominator =
        2 * digits * (Nat.pow 2 shift * denominator) +
          Nat.pow 2 shift * denominator := by
    rw [split.multiple_eq, split.multiple_succ]
    ring
  have below :
      (multiple (rank - 1) + multiple rank) * denominator +
          Nat.pow 2 shift * denominator =
        2 * digits * (Nat.pow 2 shift * denominator) := by
    calc (multiple (rank - 1) + multiple rank) * denominator +
          Nat.pow 2 shift * denominator
        = (multiple (rank - 1) + Nat.pow 2 shift + multiple rank) *
            denominator := by ring
      _ = 2 * digits * (Nat.pow 2 shift * denominator) := by
          rw [split.multiple_pred filled inner, split.multiple_eq]
          ring
  rw [above] at upper half
  have sameParity : rank % 2 = digits % 2 := by
    have isRank := split.rank_eq
    rw [isBinade] at isRank
    omega
  rw [split.rank_eq]
  refine nearestRank_of_within positive ?_ ?_ ?_ upper ?_
  · refine inner.imp_right fun beyond => ?_
    have bound := Nat.mul_le_mul_right (Nat.pow 2 shift * denominator)
      (Nat.succ_le_of_lt beyond)
    rw [Nat.succ_mul] at bound
    rw [Nat.mul_assoc 2 digits] at below
    omega
  · have bound := Nat.mul_le_mul_right (Nat.pow 2 shift * denominator)
      (Nat.succ_le_of_lt split.digits_lt)
    rw [Nat.succ_mul] at bound
    rw [Nat.mul_assoc 2 digits] at upper
    have unitPositive : 0 < Nat.pow 2 shift * denominator :=
      Nat.mul_pos (pow_pos shift) positive
    omega
  · omega
  · intro atMidpoint
    rw [← sameParity]
    exact half (by omega)

/-- A rank at the start of a binade; its neighbour below is nearer. -/
theorem nearestRank_of_start
    (split : Split rank (shift + 1) binade) (positive : 0 < denominator)
    (rounds : Rounds rank numerator denominator) :
    nearestRank numerator denominator = rank := by
  obtain ⟨lower, upper, -⟩ := rounds
  have isBinade := binade_eq
  have unitPositive : 0 < Nat.pow 2 shift * denominator :=
    Nat.mul_pos (pow_pos shift) positive
  have doubled :
      Nat.pow 2 (shift + 1) * denominator =
        2 * (Nat.pow 2 shift * denominator) := by
    rw [pow_succ, Nat.mul_assoc]
  have above :
      (multiple rank + multiple (rank + 1)) * denominator =
        2 * binade * (Nat.pow 2 (shift + 1) * denominator) +
          Nat.pow 2 (shift + 1) * denominator := by
    rw [split.multiple_eq, split.multiple_succ]
    ring
  have below :
      (multiple (rank - 1) + multiple rank) * denominator +
          Nat.pow 2 shift * denominator =
        4 * binade * (Nat.pow 2 shift * denominator) := by
    calc (multiple (rank - 1) + multiple rank) * denominator +
          Nat.pow 2 shift * denominator
        = (multiple (rank - 1) + Nat.pow 2 shift + multiple rank) *
            denominator := by ring
      _ = 4 * binade * (Nat.pow 2 shift * denominator) := by
          rw [split.multiple_pred_of_start, split.multiple_eq, pow_succ]
          ring
  rw [above, doubled, isBinade] at upper
  rw [isBinade] at below
  by_cases inBinade :
      binade * (Nat.pow 2 (shift + 1) * denominator) ≤
        numerator * Nat.pow 2 leastExponent
  · rw [split.rank_eq]
    refine nearestRank_of_within positive (Or.inr inBinade) ?_ ?_ ?_ ?_
    · rw [doubled, isBinade]
      omega
    · rw [doubled, isBinade]
      omega
    · rw [doubled, isBinade]
      omega
    · intro _
      rw [isBinade]
  · have isRank : rank = shift * binade + 2 * binade := by
      rw [split.rank_eq]
      ring
    rw [doubled, isBinade] at inBinade
    rw [isRank]
    refine nearestRank_of_within positive (Or.inr ?_) ?_ ?_ ?_ ?_
    · rw [isBinade]
      omega
    · rw [isBinade]
      omega
    · rw [isBinade]
      omega
    · rw [isBinade]
      omega
    · intro _
      rw [isBinade]

/-- What rounds to a rank has this rank as the nearest one. -/
theorem nearestRank_of_rounds
    (nonZero : 0 < rank) (positive : 0 < denominator)
    (rounds : Rounds rank numerator denominator) :
    nearestRank numerator denominator = rank := by
  have split := split_rank rank
  generalize scale rank = shift at split
  generalize rank - shift * binade = digits at split
  have isBinade := binade_eq
  rcases split.normal with rfl | normal
  · have filled : 0 < digits := by
      have isRank := split.rank_eq
      omega
    exact nearestRank_of_inner split filled (Or.inl rfl) positive rounds
  · rcases Nat.lt_or_eq_of_le normal with beyond | rfl
    · exact nearestRank_of_inner split (by omega) (Or.inr beyond) positive
        rounds
    · cases shift with
      | zero =>
          exact nearestRank_of_inner split (by omega) (Or.inl rfl) positive
            rounds
      | succ shift => exact nearestRank_of_start split positive rounds

end NearestRank

end TraceArchive.Double
