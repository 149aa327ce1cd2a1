import SymbolicAlgebra.Number.Integral

/-!
# Powers of literals

A power whose exact value is representable is that value; all others are rounded by the platform's
power function.
-/

namespace SymbolicAlgebra

/-- Moves factors of two from the mantissa to the exponent, at most `steps` times. -/
def withoutTwos
    (mantissa : Nat)
    (exponent : Int) : (steps : Nat) → Nat × Int
  | 0 => (mantissa, exponent)
  | steps + 1 =>
    if mantissa % 2 = 0 then
      withoutTwos (mantissa / 2) (exponent + 1) steps
    else
      (mantissa, exponent)

/-- `±mantissa · 2 ^ exponent` as a float, if it is representable, for a mantissa that is odd or zero. -/
def exactFloat?
    (negative : Bool)
    (mantissa : Nat)
    (exponent : Int) : Option Float :=
  if mantissa < 2 ^ 53 ∧ -1074 ≤ exponent ∧ exponent + mantissa.log2 ≤ 1023 then
    let magnitude := floatOfNat mantissa * scale exponent
    some (if negative then -magnitude else magnitude)
  else
    none

/-- An integral power of a finite base, if it has an exact value and this is representable. -/
def exactPower?
    (base : Float)
    (count : Int) : Option Float :=
  match Binary.ofFloat? base with
  | none => none
  | some binary =>
    let (mantissa, exponent) := withoutTwos binary.mantissa binary.exponent 53
    let negative := binary.negative && decide (count % 2 = 1)
    if mantissa = 0 then
      if 0 < count then exactFloat? negative 0 0 else none
    else if mantissa = 1 then
      exactFloat? negative 1 (exponent * count)
    else if 0 < count ∧ count < 53 then
      exactFloat? negative (mantissa ^ count.toNat) (exponent * count)
    else
      none

/-- `base ** exponent`: every zeroth power and every power of one is one, first powers and powers
with a representable exact value are exact, and the platform rounds the rest. -/
def power
    (base exponent : Float) : Float :=
  if exponent == 0 || base == 1 then
    1
  else if exponent == 1 then
    base
  else
    match integer? exponent with
    | some count => (exactPower? base count).getD (Float.pow base exponent)
    | none => Float.pow base exponent

end SymbolicAlgebra
