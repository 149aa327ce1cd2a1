import Mathlib
import SymbolicAlgebra.Number.Integral

/-!
# Floats as rational numbers

Every finite float is a rational number.  Floats that compare as equal to zero or one represent zero or
one, and are read as these integers.
-/

namespace SymbolicAlgebra

variable {value : Float}

/-- Two floats equal zero. -/
theorem eq_zero_or_neg_zero_of_beq
    (isZero : (value == 0) = true) :
    value = 0 ∨ value = -0 := by
  obtain ⟨-, -, same | ⟨zero, -⟩ | ⟨negZero, -⟩⟩ :=
    Float.beq_iff_ne_nan_and_eq.mp isZero
  · exact .inl same
  · exact .inl zero
  · exact .inr negZero

/-- Only one equals one. -/
theorem eq_one_of_beq
    (isOne : (value == 1) = true) :
    value = 1 := by
  obtain ⟨-, -, same | ⟨-, negZero⟩ | ⟨-, zero⟩⟩ :=
    Float.beq_iff_ne_nan_and_eq.mp isOne
  · exact same
  · exact absurd negZero (by decide)
  · exact absurd zero (by decide)

theorem integer?_of_beq_zero
    (isZero : (value == 0) = true) :
    integer? value = some 0 := by
  rcases eq_zero_or_neg_zero_of_beq isZero with rfl | rfl <;> decide +kernel

theorem integer?_of_beq_one
    (isOne : (value == 1) = true) :
    integer? value = some 1 := by
  rw [eq_one_of_beq isOne]
  decide +kernel

/-- The rational number that a finite float represents; zero for infinities and NaN. -/
def rationalOf
    (value : Float) : ℚ :=
  match Binary.ofFloat? value with
  | some binary =>
    (if binary.negative then -1 else 1) * binary.mantissa * 2 ^ binary.exponent
  | none => 0

theorem rationalOf_of_beq_zero
    (isZero : (value == 0) = true) :
    rationalOf value = 0 := by
  rcases eq_zero_or_neg_zero_of_beq isZero with rfl | rfl <;> decide +kernel

theorem rationalOf_one :
    rationalOf 1 = 1 := by
  decide +kernel

theorem rationalOf_neg_one :
    rationalOf (-1) = -1 := by
  decide +kernel

end SymbolicAlgebra
