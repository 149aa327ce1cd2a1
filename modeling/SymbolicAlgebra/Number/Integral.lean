import SymbolicAlgebra.Number.Binary

/-!
# Literals as integers

Bitwise operators work on 64-bit two's-complement words.  A literal is accepted as a word when it is
integral and its magnitude is below `2 ^ 63`.
-/

namespace SymbolicAlgebra

/-- The first magnitude that no longer counts as a word. -/
def wordLimit : Nat :=
  2 ^ 63

/-- The integer that a literal equals, if it is finite and integral. -/
def integer?
    (value : Float) : Option Int :=
  match Binary.ofFloat? value with
  | some binary => if binary.isIntegral then some binary.truncate else none
  | none => none

/-- The word that a literal equals, if there is one. -/
def word?
    (value : Float) : Option Int :=
  match integer? value with
  | some whole => if whole.natAbs < wordLimit then some whole else none
  | none => none

/-- The literal rounded toward zero, if the result is a word. -/
def truncatedWord?
    (value : Float) : Option Int :=
  match Binary.ofFloat? value with
  | some binary => if binary.wholePart < wordLimit then some binary.truncate else none
  | none => none

/-- A binary operation on the two's-complement patterns of two words. -/
def onWords
    (operation : BitVec 64 → BitVec 64 → BitVec 64)
    (lhs rhs : Int) : Int :=
  (operation (BitVec.ofInt 64 lhs) (BitVec.ofInt 64 rhs)).toInt

end SymbolicAlgebra
