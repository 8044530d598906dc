/-!
# Double precision numbers

A double is a sign and a rank. The rank counts the magnitudes from zero
upwards: zero has rank 0, the least positive double rank 1, infinity the rank
`infinityRank`, and all ranks beyond it are no number. Every finite magnitude
is a whole multiple of the least one, its `multiple`, so that comparing and
rounding are exact arithmetic on natural numbers.
-/

namespace TraceArchive

/-- A number in the IEEE 754 format of 64 bits. -/
structure Double where
  /-- Whether the sign bit is set. -/
  negative : Bool
  /-- The place of the magnitude in ascending order, or a pattern beyond
  infinity that is no number. -/
  rank : Nat
  rank_lt : rank < 9223372036854775808
deriving DecidableEq

namespace Double

/-- The number of magnitudes between two powers of two. -/
def binade : Nat := Nat.pow 2 52

/-- The rank of infinity. -/
def infinityRank : Nat := 2047 * binade

/-- The least positive magnitude is one divided by two to this power. -/
def leastExponent : Nat := 1074

/-- Positive zero. -/
def zero : Double := ⟨false, 0, by decide⟩

instance : Inhabited Double := ⟨zero⟩

/-- Infinity with a sign. -/
def infinity (negative : Bool) : Double := ⟨negative, infinityRank, by decide⟩

/-- A pattern that is no number. -/
def notANumber : Double := ⟨false, infinityRank + binade / 2, by decide⟩

/-- Whether the double is a finite number. -/
def isFinite (number : Double) : Bool :=
  number.rank < infinityRank

/-- Whether the double is no number at all. -/
def isNotANumber (number : Double) : Bool :=
  infinityRank < number.rank

/-- Equality of numbers: both zeros are equal, and what is no number differs
from everything. -/
def sameNumber (left right : Double) : Bool :=
  !left.isNotANumber && !right.isNotANumber &&
    left.rank == right.rank &&
    (left.negative == right.negative || left.rank == 0)

/-- The number as a sign and an ordinary magnitude. -/
def ofRank (negative : Bool) (rank : Nat) : Double :=
  if isBelow : rank < infinityRank then
    ⟨negative, rank, Nat.lt_trans isBelow (by decide)⟩
  else infinity negative

/-! ## Patterns of 64 bits -/

/-- The pattern of a double as an unsigned integer: the sign bit is the highest
of the 64 bits, and the others hold the rank. -/
def toBits (number : Double) : UInt64 :=
  UInt64.ofNat ((if number.negative then 9223372036854775808 else 0) + number.rank)

/-- The double of a pattern. -/
def ofBits (bits : UInt64) : Double :=
  ⟨9223372036854775808 ≤ bits.toNat, bits.toNat % 9223372036854775808,
    Nat.mod_lt _ (by decide)⟩

theorem ofBits_toBits
    (number : Double) :
    ofBits number.toBits = number := by
  obtain ⟨negative, rank, rankLt⟩ := number
  have whole :
      (UInt64.ofNat ((if negative then 9223372036854775808 else 0) + rank)).toNat =
        (if negative then 9223372036854775808 else 0) + rank := by
    rw [UInt64.toNat_ofNat']
    apply Nat.mod_eq_of_lt
    split <;> omega
  cases negative <;> simp_all [ofBits, toBits] <;> omega

theorem toBits_ofBits
    (bits : UInt64) :
    (ofBits bits).toBits = bits := by
  apply UInt64.toNat_inj.mp
  have bound := bits.toNat_lt
  rw [toBits, UInt64.toNat_ofNat']
  change
    ((if decide (9223372036854775808 ≤ bits.toNat) = true
          then 9223372036854775808 else 0) +
      bits.toNat % 9223372036854775808) % 18446744073709551616 =
        bits.toNat
  split
  case isTrue high =>
    have high := of_decide_eq_true high
    omega
  case isFalse low =>
    have low : ¬9223372036854775808 ≤ bits.toNat :=
      fun high => low (decide_eq_true high)
    omega

/-! ## Exact values -/

/-- The binade of a rank, counted from the one that holds the least normal
magnitude and all smaller ones. -/
def scale (rank : Nat) : Nat :=
  rank / binade - 1

/-- The finite magnitude of a rank as a multiple of the least magnitude. -/
def multiple (rank : Nat) : Nat :=
  (rank - scale rank * binade) * Nat.pow 2 (scale rank)

/-- Whether a finite double is a whole number. -/
def isWhole (number : Double) : Bool :=
  multiple number.rank % Nat.pow 2 leastExponent == 0

/-- The whole part of a finite double. -/
def wholePart (number : Double) : Int :=
  let magnitude : Nat := multiple number.rank / Nat.pow 2 leastExponent
  if number.negative then -(magnitude : Int) else magnitude

/-! ## Rounding to the nearest double -/

/-- The quotient of two natural numbers rounded to the nearest natural number;
a half goes to the even neighbour. -/
def divideNearest (numerator denominator : Nat) : Nat :=
  let quotient := numerator / denominator
  let twice := 2 * (numerator % denominator)
  if twice < denominator then quotient
  else if denominator < twice then quotient + 1
  else quotient + quotient % 2

/-- The rank of the magnitude nearest to a quotient; a half goes to the even
rank. The result may lie at or beyond infinity. -/
def nearestRank (numerator denominator : Nat) : Nat :=
  let multiples := numerator * Nat.pow 2 leastExponent
  let shift := (multiples / denominator).log2 - 52
  shift * binade + divideNearest multiples (denominator * Nat.pow 2 shift)

/-- The double nearest to a whole number. -/
def ofInt (number : Int) : Double :=
  ofRank (number < 0) (nearestRank number.natAbs 1)

/-- The double nearest to `digits` times ten to the power `exponent`, or
nothing when that lies beyond the finite doubles. The decimal places of the
magnitude decide the extreme cases, so that no huge power is computed. -/
def ofDecimal? (negative : Bool) (digits : Nat) (exponent : Int) :
    Option Double :=
  let places : Int := (Nat.toDigits 10 digits).length + exponent
  if digits = 0 ∨ places < -330 then some (ofRank negative 0)
  else if 310 < places then none
  else
    let rank :=
      if exponent < 0 then nearestRank digits (Nat.pow 10 exponent.natAbs)
      else nearestRank (digits * Nat.pow 10 exponent.natAbs) 1
    if rank < infinityRank then some (ofRank negative rank) else none

end Double

end TraceArchive
