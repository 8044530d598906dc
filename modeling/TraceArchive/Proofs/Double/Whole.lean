import TraceArchive.Proofs.Double.Decimal

/-!
# Whole numbers as doubles

Every whole number of 64 bits has a finite double next to it, and up to two to
the power 53 that double is the number itself. The main statements are
`Double.isFinite_ofInt` and `Double.whole_ofInt`.
-/

namespace TraceArchive.Double

/-! ## Sizes -/

theorem divideNearest_le
    {numerator denominator limit : Nat} (positive : 0 < denominator)
    (below : numerator < limit * denominator) :
    divideNearest numerator denominator ≤ limit := by
  have quotient : numerator / denominator < limit :=
    (Nat.div_lt_iff_lt_mul positive).mpr below
  unfold divideNearest
  dsimp only
  split
  · omega
  · split
    · omega
    · omega

/-- A number below two to some power is rounded to a rank in the binade of that
power or at its end. -/
theorem nearestRank_lt
    {number bits : Nat} (below : number < Nat.pow 2 bits) :
    nearestRank number 1 ≤ (leastExponent + bits) * binade + 2 * binade := by
  let magnitude := number * Nat.pow 2 leastExponent
  have small : magnitude < 2 ^ (leastExponent + bits) := by
    have product := Nat.mul_lt_mul_of_pos_right below (pow_pos leastExponent)
    refine Nat.lt_of_lt_of_eq product ?_
    generalize leastExponent = exponent
    rw [Nat.add_comm, Nat.pow_add]
    rfl
  have within : magnitude.log2 - 52 ≤ leastExponent + bits := by
    by_cases nothing : magnitude = 0
    · rw [nothing]
      exact Nat.zero_le _
    · have exponent := (Nat.log2_lt nothing).mpr small
      omega
  have digits :
      divideNearest magnitude (Nat.pow 2 (magnitude.log2 - 52)) ≤
        2 * binade := by
    apply divideNearest_le (pow_pos _)
    have ended : magnitude < 2 ^ (magnitude.log2 + 1) := Nat.lt_log2_self
    have isBinade : 2 * binade = 2 ^ 53 := by decide
    rw [isBinade, Nat.pow_eq, ← Nat.pow_add]
    refine Nat.lt_of_lt_of_le ended ?_
    exact Nat.pow_le_pow_right (by decide) (by omega)
  have shifted := Nat.mul_le_mul_right binade within
  unfold nearestRank
  dsimp only
  rw [Nat.div_one, Nat.one_mul]
  exact Nat.add_le_add shifted digits

/-- The double next to a whole number of 64 bits is finite. -/
theorem isFinite_ofInt
    {number : Int}
    (inRange :
      -9223372036854775808 ≤ number ∧ number < 18446744073709551616) :
    (ofInt number).isFinite = true := by
  have small : number.natAbs < Nat.pow 2 64 := by
    have isPower : Nat.pow 2 64 = 18446744073709551616 := by decide
    omega
  have bounded := nearestRank_lt small
  have limit : (leastExponent + 64) * binade + 2 * binade < infinityRank := by
    decide
  exact isFinite_ofRank (Nat.lt_of_le_of_lt bounded limit) _

/-! ## Exact whole numbers -/

/-- A positive number of at most 53 digits in base two, or the power after
them, is the magnitude of a rank. -/
theorem exists_rank_of_whole
    {number : Nat} (positive : 0 < number) (small : number ≤ 2 * binade) :
    ∃ rank, 0 < rank ∧ rank < infinityRank ∧
      multiple rank = number * Nat.pow 2 leastExponent := by
  have isBinade := binade_eq
  have isInfinity : infinityRank = 2047 * binade := rfl
  by_cases last : number = 2 * binade
  · have split : Split (1075 * binade + binade) 1075 binade :=
      ⟨rfl, by omega, Or.inr (Nat.le_refl _)⟩
    refine ⟨1075 * binade + binade, by omega, by omega, ?_⟩
    rw [split.multiple_eq, last]
    decide +kernel
  · have notZero : number ≠ 0 := Nat.ne_of_gt positive
    have lower : 2 ^ number.log2 ≤ number := Nat.log2_self_le notZero
    have upper : number < 2 ^ (number.log2 + 1) := Nat.lt_log2_self
    have exponent : number.log2 ≤ 52 := by
      have below : number < 2 ^ 53 := by omega
      have := (Nat.log2_lt notZero).mpr below
      omega
    let digits := number * 2 ^ (52 - number.log2)
    have above : binade ≤ digits := by
      have product := Nat.mul_le_mul_right (2 ^ (52 - number.log2)) lower
      rw [← Nat.pow_add, Nat.add_sub_cancel' exponent] at product
      omega
    have below : digits < 2 * binade := by
      have product :=
        Nat.mul_lt_mul_of_pos_right upper
          (Nat.two_pow_pos (52 - number.log2))
      rw [← Nat.pow_add,
        show number.log2 + 1 + (52 - number.log2) = 53 by omega] at product
      omega
    have split :
        Split ((1022 + number.log2) * binade + digits) (1022 + number.log2)
          digits :=
      ⟨rfl, below, Or.inr above⟩
    refine ⟨(1022 + number.log2) * binade + digits, by omega, ?_, ?_⟩
    · have shifted : (1022 + number.log2) * binade ≤ 1074 * binade :=
        Nat.mul_le_mul_right _ (by omega)
      omega
    · have total :
          52 - number.log2 + (1022 + number.log2) = leastExponent := by
        unfold leastExponent
        omega
      rw [split.multiple_eq, ← total, Nat.mul_assoc, Nat.pow_eq, Nat.pow_eq,
        ← Nat.pow_add]

/-- A magnitude is the nearest one to itself. -/
theorem nearestRank_of_multiple
    {rank number : Nat} (nonZero : 0 < rank)
    (isMultiple : multiple rank = number * Nat.pow 2 leastExponent) :
    nearestRank number 1 = rank := by
  have below := multiple_lt_succ (rank - 1)
  have above := multiple_lt_succ rank
  rw [Nat.sub_add_cancel nonZero] at below
  apply nearestRank_of_rounds nonZero Nat.one_pos
  unfold Rounds
  dsimp only
  rw [← isMultiple]
  clear isMultiple
  omega

/-- A whole number of at most two to the power 53 is a double. -/
theorem whole_ofInt
    {number : Int} (small : number.natAbs ≤ 2 * binade) :
    (ofInt number).isWhole = true ∧ (ofInt number).wholePart = number := by
  by_cases nothing : number = 0
  · subst nothing
    decide +kernel
  · have positive : 0 < number.natAbs := by omega
    obtain ⟨rank, nonZero, finite, isMultiple⟩ :=
      exists_rank_of_whole positive small
    have isDouble :
        ofInt number =
          ⟨decide (number < 0), rank, Nat.lt_trans finite (by decide)⟩ := by
      rw [ofInt, nearestRank_of_multiple nonZero isMultiple, ofRank,
        dif_pos finite]
    have isQuotient :
        multiple rank / Nat.pow 2 leastExponent = number.natAbs := by
      rw [isMultiple, Nat.mul_div_cancel _ (pow_pos leastExponent)]
    rw [isDouble]
    constructor
    · rw [isWhole, isMultiple, Nat.mul_mod_left]
      rfl
    · rw [wholePart]
      dsimp only
      rw [isQuotient]
      clear isMultiple isQuotient isDouble
      by_cases isNegative : number < 0
      · rw [if_pos (decide_eq_true isNegative)]
        omega
      · rw [if_neg (by simpa using isNegative)]
        omega

end TraceArchive.Double
