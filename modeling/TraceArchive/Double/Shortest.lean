import TraceArchive.Double.Basic

/-!
# The shortest decimal text of a double

Among the decimals that round to a double, the ones with the fewest digits are
candidates, and the nearest of them is written. The grid of decimals with a
given number of digits has two neighbours of the exact value; if any point of
the grid rounds to the double, one of these two does.
-/

namespace TraceArchive.Double

/-- A positive decimal: digits `d` and an exponent `e` stand for the number
`d` times ten to the power `e`. -/
structure Decimal where
  digits : Nat
  exponent : Int
deriving DecidableEq, Repr

/-- More decimal places than any finite double needs to reach its first
digit. -/
def reach : Nat := 400

/-- The exponent of the first digit of a positive magnitude. -/
def leadingExponent (rank : Nat) : Int :=
  let scaled := multiple rank * Nat.pow 10 reach / Nat.pow 2 leastExponent
  (Nat.toDigits 10 scaled).length - 1 - reach

/-- Whether a decimal rounds to the magnitude of a rank. It lies between the
midpoints to the two neighbours; the midpoints count for an even rank. -/
def roundsTo (rank : Nat) (decimal : Decimal) : Bool :=
  let center := multiple rank
  let lower := multiple (rank - 1) + center
  let upper := center + multiple (rank + 1)
  let value := decimal.digits * Nat.pow 10 decimal.exponent.toNat *
    Nat.pow 2 (leastExponent + 1)
  let unit := Nat.pow 10 (-decimal.exponent).toNat
  if rank % 2 = 0 then lower * unit ≤ value && value ≤ upper * unit
  else lower * unit < value && value < upper * unit

/-- The neighbours of a magnitude among the decimals with the exponent
`exponent`: the nearest one, which is the even one of two that are equally near,
and the one on the other side. -/
def neighbours (rank : Nat) (exponent : Int) : Decimal × Decimal :=
  let numerator := multiple rank * Nat.pow 10 (-exponent).toNat
  let denominator := Nat.pow 2 leastExponent * Nat.pow 10 exponent.toNat
  let floor := numerator / denominator
  let nearest := divideNearest numerator denominator
  let other := if nearest = floor then floor + 1 else floor
  (⟨nearest, exponent⟩, ⟨other, exponent⟩)

/-- The shortest decimal from `places` digits upwards; seventeen digits are
always enough. -/
def shortestFrom (rank : Nat) (leading : Int) : Nat → Nat → Decimal
  | 0, places => (neighbours rank (leading - places + 1)).1
  | attempts + 1, places =>
      let pair := neighbours rank (leading - places + 1)
      if roundsTo rank pair.1 then pair.1
      else if roundsTo rank pair.2 then pair.2
      else shortestFrom rank leading attempts (places + 1)

/-- The shortest decimal that rounds to a positive finite magnitude. -/
def shortest (rank : Nat) : Decimal :=
  shortestFrom rank (leadingExponent rank) 16 1

/-- How a decimal is laid out as text. -/
structure Layout where
  /-- The least exponent of the first digit that is written positionally. -/
  leastPositional : Int
  /-- The first exponent of the first digit that is no longer written
  positionally. -/
  positionalLimit : Int
deriving DecidableEq, Repr

/-- The exponent of a text in scientific form, with its sign. -/
def exponentText (exponent : Int) : List Char :=
  (if exponent < 0 then ['e', '-'] else ['e', '+']) ++
    Nat.toDigits 10 exponent.natAbs

/-- The digits of a decimal with the point and the exponent put in; `leading`
is the exponent of the first digit. -/
def Layout.place (layout : Layout) (digits : List Char) (leading : Int) :
    List Char :=
  if layout.leastPositional ≤ leading ∧ leading < layout.positionalLimit then
    if leading < 0 then
      ['0', '.'] ++ List.replicate (leading.natAbs - 1) '0' ++ digits
    else
      let wholeLength := leading.toNat + 1
      let whole := digits.take wholeLength ++
        List.replicate (wholeLength - digits.length) '0'
      let fraction := digits.drop wholeLength
      whole ++ ['.'] ++ (if fraction.isEmpty then ['0'] else fraction)
  else
    let fraction := digits.drop 1
    digits.take 1 ++ (if fraction.isEmpty then [] else '.' :: fraction) ++
      exponentText leading

/-- The digits of a number without the zeros at its end. -/
def significantDigits (number : Nat) : List Char :=
  ((Nat.toDigits 10 number).reverse.dropWhile (· == '0')).reverse

/-- The text of a finite double in a layout. -/
def Layout.text (layout : Layout) (number : Double) : List Char :=
  let sign : List Char := if number.negative then ['-'] else []
  if number.rank = 0 then sign ++ ['0', '.', '0']
  else
    let decimal := shortest number.rank
    let all := Nat.toDigits 10 decimal.digits
    sign ++ layout.place (significantDigits decimal.digits)
      (decimal.exponent + all.length - 1)

end TraceArchive.Double
