import SymbolicAlgebra.Number.Integral
import SymbolicAlgebra.Number.Shortest

/-!
# The text of a literal

Integral literals below `2 ^ 63` in magnitude are written as integers, all others as decimals.  How
each kind is written is a setting; the canonical text always uses the default.
-/

namespace SymbolicAlgebra

/-- How integral literals are written: `255` or `0xff`. -/
inductive IntegerFormat where
  | decimal
  | hexadecimal
deriving DecidableEq, Repr

/-- How other literals are written: with the fewest digits, with a fixed number of digits behind
the point, or with the fewest digits and a power of ten. -/
inductive FractionFormat where
  | plain
  | places (count : Nat)
  | scientific
deriving DecidableEq, Repr

/-- How literals are written. -/
structure NumberFormat where
  integer : IntegerFormat := .decimal
  fraction : FractionFormat := .plain
deriving DecidableEq, Repr

/-- A run of zeros. -/
def zeros
    (count : Nat) : List Char :=
  List.replicate count '0'

/-- Writes a minus sign before the text of a magnitude. -/
def signed
    (negative : Bool)
    (magnitude : List Char) : List Char :=
  if negative then '-' :: magnitude else magnitude

namespace Decimal

/-- Digits with a point where it belongs and zeros up to it, never an exponent. -/
def positional
    (decimal : Decimal) : List Char :=
  let digits := Nat.toDigits 10 decimal.digits
  if 0 ≤ decimal.exponent then
    digits ++ zeros decimal.exponent.toNat
  else
    let places := (-decimal.exponent).toNat
    if places < digits.length then
      digits.take (digits.length - places) ++ '.' :: digits.drop (digits.length - places)
    else
      '0' :: '.' :: zeros (places - digits.length) ++ digits

/-- One digit, the others behind a point, and the power of ten. -/
def scientific
    (decimal : Decimal) : List Char :=
  let digits := Nat.toDigits 10 decimal.digits
  let exponent := decimal.exponent + (digits.length - 1 : Nat)
  let tail := digits.drop 1
  digits.take 1 ++ (if tail.isEmpty then [] else '.' :: tail) ++
    'e' :: signed (decide (exponent < 0)) (Nat.toDigits 10 exponent.natAbs)

end Decimal

namespace Binary

/-- The magnitude rounded to a number of places, a tie going to the even last digit. -/
def rounded
    (binary : Binary)
    (places : Nat) : Nat :=
  let numerator := binary.mantissa * 2 ^ binary.exponent.toNat * 10 ^ places
  let denominator := 2 ^ (-binary.exponent).toNat
  let quotient := numerator / denominator
  let remainder := numerator % denominator
  if denominator < 2 * remainder ∨ (denominator = 2 * remainder ∧ quotient % 2 = 1) then
    quotient + 1
  else
    quotient

/-- The magnitude with a fixed number of digits behind the point. -/
def fixed
    (binary : Binary)
    (places : Nat) : List Char :=
  let digits := Nat.toDigits 10 (binary.rounded places)
  if places = 0 then
    digits
  else
    let padded := zeros (places + 1 - digits.length) ++ digits
    padded.take (padded.length - places) ++ '.' :: padded.drop (padded.length - places)

end Binary

namespace FractionFormat

/-- The text of the magnitude of a finite value. -/
def magnitudeChars
    (format : FractionFormat)
    (binary : Binary) : List Char :=
  let decimal := if binary.mantissa = 0 then ⟨0, 0⟩ else Decimal.shortest binary
  match format with
  | .plain => decimal.positional
  | .places count => binary.fixed count
  | .scientific => decimal.scientific

/-- The text of any float; infinities and NaN look the same in every format. -/
def chars
    (format : FractionFormat)
    (value : Float) : List Char :=
  match Binary.ofFloat? value with
  | some binary => signed binary.negative (format.magnitudeChars binary)
  | none =>
    if value.isNaN then
      ['N', 'a', 'N']
    else
      signed (Binary.signOf value) ['i', 'n', 'f']

end FractionFormat

namespace IntegerFormat

/-- The text of an integer. -/
def chars
    (format : IntegerFormat)
    (whole : Int) : List Char :=
  signed (decide (whole < 0)) <|
    match format with
    | .decimal => Nat.toDigits 10 whole.natAbs
    | .hexadecimal => '0' :: 'x' :: Nat.toDigits 16 whole.natAbs

end IntegerFormat

namespace NumberFormat

/-- The text of a literal. -/
def chars
    (format : NumberFormat)
    (value : Float) : List Char :=
  match word? value with
  | some whole => format.integer.chars whole
  | none => format.fraction.chars value

end NumberFormat

/-- A float in a message: always the fewest digits, also for large integers. -/
def plainText
    (value : Float) : String :=
  String.ofList (FractionFormat.plain.chars value)

end SymbolicAlgebra
