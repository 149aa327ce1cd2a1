import SymbolicAlgebra.Rule.Arithmetic
import SymbolicAlgebra.Rule.Bitwise
import SymbolicAlgebra.Rule.Canonical
import SymbolicAlgebra.Rule.Distribution

/-!
# The catalogue

The default rules, in the order in which a pass runs them at a node.
-/

namespace SymbolicAlgebra

/-- The default rules. -/
def catalogue : List Rule := [
  ⟨"commutative-order", Transform.commutativeOrder?⟩,
  ⟨"strip-identities", Transform.stripIdentities?⟩,
  ⟨"evaluate-numeric", Transform.evaluateNumeric?⟩,
  ⟨"convert-powers", Transform.convertPowers?⟩,
  ⟨"remove-subtraction", Transform.removeSubtraction?⟩,
  ⟨"distribute-mul-add", Transform.mulOverAdd?⟩,
  ⟨"distribute-and-or", Transform.andOverOr?⟩,
  ⟨"cancel-division", Transform.cancelDivision?⟩,
  ⟨"fold-additions", Transform.foldAdditions?⟩,
  ⟨"absorb-zero", Transform.absorbZero?⟩,
  ⟨"reassociate", Transform.reassociate?⟩,
  ⟨"bit-identities", Transform.bitIdentities?⟩]

end SymbolicAlgebra
