import SymbolicAlgebra.Number.Binary

/-!
# Shortest decimals

The shortest decimal of a binary value is the decimal with the fewest digits among those that round
to the value, and of those the one nearest to it; an exact tie goes away from zero.

On the grid of decimals with a fixed last place only the two neighbours of the value have to be
looked at, so the search goes through the grids from coarse to fine and stops at the first hit.
-/

namespace SymbolicAlgebra

/-- The decimal `digits · 10 ^ exponent`. -/
structure Decimal where
  digits : Nat
  exponent : Int
deriving DecidableEq, Repr

/-- A positive rational interval around a value; all four numbers share the denominator. -/
structure RoundingInterval where
  value : Nat
  low : Nat
  high : Nat
  denominator : Nat
  /-- Whether the ends round to the value as well. -/
  closed : Bool

namespace RoundingInterval

/-- The numbers that round to a positive binary value, scaled by `10 ^ -place`.

Half a unit reaches to each side, and a quarter downward at a power of two, where the values below
lie twice as close.  A tie is rounded to the even mantissa. -/
def of
    (binary : Binary)
    (place : Int) : RoundingInterval :=
  let exponent := binary.exponent - 2
  let numerator := 2 ^ exponent.toNat * 10 ^ (-place).toNat
  let below := if binary.mantissa = 2 ^ 52 ∧ -1074 < binary.exponent then 1 else 2
  { value := 4 * binary.mantissa * numerator
    low := (4 * binary.mantissa - below) * numerator
    high := (4 * binary.mantissa + 2) * numerator
    denominator := 2 ^ (-exponent).toNat * 10 ^ place.toNat
    closed := binary.mantissa % 2 == 0 }

/-- Whether a whole number lies in the interval. -/
def contains
    (interval : RoundingInterval)
    (candidate : Nat) : Bool :=
  let scaled := candidate * interval.denominator
  if interval.closed then
    decide (interval.low ≤ scaled ∧ scaled ≤ interval.high)
  else
    decide (interval.low < scaled ∧ scaled < interval.high)

/-- The whole number in the interval that is nearest to the value, the larger one at a tie. -/
def nearest?
    (interval : RoundingInterval) : Option Nat :=
  let lower := interval.value / interval.denominator
  let upper := lower + 1
  match interval.contains lower && decide (0 < lower), interval.contains upper with
  | true, true =>
    if interval.value - lower * interval.denominator <
        upper * interval.denominator - interval.value then
      some lower
    else
      some upper
  | true, false => some lower
  | false, true => some upper
  | false, false => none

end RoundingInterval

namespace Decimal

/-- The decimal exponent of the leading digit of a positive binary value. -/
def leadingPlace
    (binary : Binary) : Int :=
  let estimate := (binary.mantissa.log2 + binary.exponent) * 30103 / 100000
  let reaches (place : Int) : Bool :=
    10 ^ place.toNat * 2 ^ (-binary.exponent).toNat ≤
      binary.mantissa * 2 ^ binary.exponent.toNat * 10 ^ (-place).toNat
  if reaches (estimate + 1) then
    estimate + 1
  else if reaches estimate then
    estimate
  else
    estimate - 1

/-- Drops trailing zeros of the digits, at most `steps` of them. -/
def withoutTrailingZeros
    (decimal : Decimal) : (steps : Nat) → Decimal
  | 0 => decimal
  | steps + 1 =>
    if decimal.digits % 10 = 0 ∧ decimal.digits ≠ 0 then
      withoutTrailingZeros ⟨decimal.digits / 10, decimal.exponent + 1⟩ steps
    else
      decimal

/-- The shortest decimal of a positive binary value.  Seventeen digits always suffice. -/
def shortest
    (binary : Binary) : Decimal :=
  let leading := leadingPlace binary
  let attempt (count : Nat) : Option Decimal :=
    let place := leading - count
    ((RoundingInterval.of binary place).nearest?).map (⟨·, place⟩)
  ((((List.range 17).findSome? attempt).getD ⟨0, 0⟩).withoutTrailingZeros 18)

end Decimal

end SymbolicAlgebra
