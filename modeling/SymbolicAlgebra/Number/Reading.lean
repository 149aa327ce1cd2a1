import SymbolicAlgebra.Number.Binary

/-!
# Reading numbers

Texts of integers and decimals, read with correct rounding: to 64-bit floats, or to 32-bit floats
first, which are then widened without loss.
-/

namespace SymbolicAlgebra

/-- A written decimal: `±digits · 10 ^ exponent`. -/
structure WrittenDecimal where
  negative : Bool
  digits : Nat
  exponent : Int
deriving DecidableEq, Repr

/-- What a text of a float denotes. -/
inductive WrittenFloat where
  | finite (decimal : WrittenDecimal)
  | infinite (negative : Bool)
  | notANumber
deriving DecidableEq, Repr

/-- Takes a sign off: whether it is negative, and the rest. -/
def takeSign : List Char → Bool × List Char
  | '-' :: rest => (true, rest)
  | '+' :: rest => (false, rest)
  | chars => (false, chars)

/-- The number that digits denote, the first one being the most significant. -/
def digitsValue
    (digits : List Char) : Nat :=
  digits.foldl (fun value digit => 10 * value + (digit.toNat - '0'.toNat)) 0

/-- The number that a non-empty list of digits denotes. -/
def readDigits?
    (chars : List Char) : Option Nat :=
  if chars.isEmpty || !chars.all Char.isDigit then
    none
  else
    some (digitsValue chars)

/-- Reads an integer with an optional sign. -/
def readInteger?
    (text : String) : Option Int :=
  let (negative, digits) := takeSign text.toList
  (readDigits? digits).map fun value => if negative then -(value : Int) else value

/-- Reads the part of a decimal behind its digits: nothing, or a power of ten. -/
def readExponent? : List Char → Option Int
  | [] => some 0
  | mark :: rest =>
    if mark = 'e' ∨ mark = 'E' then
      let (negative, digits) := takeSign rest
      (readDigits? digits).map fun value => if negative then -(value : Int) else value
    else
      none

/-- Reads a decimal: digits, optionally a point and more digits, optionally a power of ten. -/
def readDecimal?
    (negative : Bool)
    (chars : List Char) : Option WrittenDecimal := do
  let whole := chars.takeWhile Char.isDigit
  let afterWhole := chars.dropWhile Char.isDigit
  let (fraction, rest) :=
    match afterWhole with
    | '.' :: tail => (tail.takeWhile Char.isDigit, tail.dropWhile Char.isDigit)
    | _ => ([], afterWhole)
  if whole.isEmpty && fraction.isEmpty then
    none
  else
    let exponent ← readExponent? rest
    some ⟨negative, digitsValue (whole ++ fraction), exponent - fraction.length⟩

/-- Reads the text of a float. -/
def readFloat?
    (text : String) : Option WrittenFloat :=
  let (negative, chars) := takeSign text.toList
  let lower := chars.map Char.toLower
  if lower = ['i', 'n', 'f'] ∨ lower = ['i', 'n', 'f', 'i', 'n', 'i', 't', 'y'] then
    some (.infinite negative)
  else if lower = ['n', 'a', 'n'] then
    some .notANumber
  else
    (readDecimal? negative chars).map .finite

/-- Widens a 32-bit float. -/
def widen
    (value : Float32) : Float :=
  let bits := value.toBits.toNat
  let field : Nat := bits / 2 ^ 23 % 2 ^ 8
  let fraction := bits % 2 ^ 23
  let magnitude :=
    if field = 255 then
      if fraction = 0 then infinity else notANumber
    else if field = 0 then
      floatOfNat fraction * scale (-149)
    else
      floatOfNat (fraction + 2 ^ 23) * scale (Int.ofNat field - 150)
  if 2 ^ 31 ≤ bits then -magnitude else magnitude

namespace WrittenFloat

/-- The 64-bit float nearest to a written one. -/
def toFloat : WrittenFloat → Float
  | finite decimal =>
    let magnitude :=
      Float.ofScientific decimal.digits (decide (decimal.exponent < 0)) decimal.exponent.natAbs
    if decimal.negative then -magnitude else magnitude
  | infinite negative => if negative then -infinity else infinity
  | notANumber => SymbolicAlgebra.notANumber

/-- The 32-bit float nearest to a written one, widened. -/
def toSingle : WrittenFloat → Float
  | finite decimal =>
    let magnitude := widen <|
      Float32.ofScientific decimal.digits (decide (decimal.exponent < 0)) decimal.exponent.natAbs
    if decimal.negative then -magnitude else magnitude
  | infinite negative => if negative then -infinity else infinity
  | notANumber => SymbolicAlgebra.notANumber

end WrittenFloat

end SymbolicAlgebra
