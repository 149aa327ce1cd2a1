/-!
# Finite binary values

A literal is a 64-bit binary floating-point value.  Every finite one is exactly
`±mantissa · 2 ^ exponent` with a mantissa below `2 ^ 53`, and all exact questions about literals
(is it an integer, what is its integer part, which decimals read back as it) are answered on that
pair of numbers.
-/

namespace SymbolicAlgebra

-- A power of a number is the core library's, also where a monoid offers its own.
attribute [scoped instance (high)] instPowNat
attribute [default_instance 20000] instPowNat

/-- The exact value `±mantissa · 2 ^ exponent`. -/
structure Binary where
  negative : Bool
  mantissa : Nat
  exponent : Int
deriving DecidableEq, Repr

namespace Binary

/-- The sign bit of a float. -/
def signOf
    (value : Float) : Bool :=
  decide (2 ^ 63 ≤ value.toBits.toNat)

/-- Splits a finite float into sign, mantissa and exponent; infinities and NaN have no such form. -/
def ofFloat?
    (value : Float) : Option Binary :=
  let bits := value.toBits.toNat
  let field : Nat := bits / 2 ^ 52 % 2 ^ 11
  let fraction := bits % 2 ^ 52
  if field = 2047 then
    none
  else if field = 0 then
    some ⟨signOf value, fraction, -1074⟩
  else
    some ⟨signOf value, fraction + 2 ^ 52, Int.ofNat field - 1075⟩

/-- The integer part of the magnitude. -/
def wholePart
    (value : Binary) : Nat :=
  if 0 ≤ value.exponent then
    value.mantissa * 2 ^ value.exponent.toNat
  else
    value.mantissa / 2 ^ (-value.exponent).toNat

/-- Whether nothing stands behind the binary point. -/
def isIntegral
    (value : Binary) : Bool :=
  decide (0 ≤ value.exponent) || value.mantissa % 2 ^ (-value.exponent).toNat == 0

/-- The value rounded toward zero. -/
def truncate
    (value : Binary) : Int :=
  if value.negative then
    -(value.wholePart : Int)
  else
    value.wholePart

end Binary

/-- The power of two `2 ^ exponent` as a float, for `-1074 ≤ exponent ≤ 1023`. -/
def scale
    (exponent : Int) : Float :=
  if -1022 ≤ exponent then
    Float.ofBits (UInt64.ofNat ((exponent + 1023).toNat * 2 ^ 52))
  else
    Float.ofBits (UInt64.ofNat (2 ^ (exponent + 1074).toNat))

/-- Positive infinity. -/
def infinity : Float :=
  Float.ofBits 0x7ff0000000000000

/-- The one NaN that literals use. -/
def notANumber : Float :=
  Float.ofBits 0x7ff8000000000000

/-- `number / 2 ^ places`, rounded to nearest, a tie going to the even quotient. -/
def roundedShift
    (number places : Nat) : Nat :=
  let quotient := number / 2 ^ places
  let remainder := number % 2 ^ places
  if 2 ^ places < 2 * remainder ∨ (2 ^ places = 2 * remainder ∧ quotient % 2 = 1) then
    quotient + 1
  else
    quotient

/-- The float nearest to a natural number; infinite where the exponents end.

The significand keeps 53 bits below the leading one.  When rounding carries into a new bit, adding
the significand to the exponent field raises the exponent, which is just right. -/
def floatOfNat
    (number : Nat) : Float :=
  if number = 0 then
    Float.ofBits 0
  else
    let place := number.log2
    let significand :=
      if place ≤ 52 then
        number * 2 ^ (52 - place)
      else
        roundedShift number (place - 52)
    let bits := (place + 1022) * 2 ^ 52 + significand
    if bits < 2047 * 2 ^ 52 then
      Float.ofBits (UInt64.ofNat bits)
    else
      infinity

/-- The float nearest to an integer. -/
def floatOfInt : Int → Float
  | .ofNat number => floatOfNat number
  | .negSucc number => -floatOfNat (number + 1)

end SymbolicAlgebra
