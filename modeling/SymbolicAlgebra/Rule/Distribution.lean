import SymbolicAlgebra.Rule.Basic

/-!
# Distribution

A product-like operator is distributed over a sum-like one, in either operand order.
-/

namespace SymbolicAlgebra.Transform

/-- Builds `inner(outer(first, factor), outer(second, factor))`. -/
def spread
    (builder : Builder)
    (outer inner factor first second : Expr) : Except ExprError Expr := do
  let left ← builder outer [first, factor]
  let right ← builder outer [second, factor]
  builder inner [left, right]

/-- Distributes `outer` over an operand headed by `inner`, the left operand first. -/
def distribute?
    (builder : Builder)
    (outer inner node : Expr) : Option Expr :=
  match node.operands? outer with
  | none => none
  | some (lhs, rhs) =>
    match lhs.operands? inner with
    | some (first, second) => (spread builder outer inner rhs first second).toOption
    | none =>
      match rhs.operands? inner with
      | some (first, second) => (spread builder outer inner lhs first second).toOption
      | none => none

/-- `(a + b) * c` becomes `a * c + b * c`. -/
def mulOverAdd? : Transform :=
  fun _ builder node => distribute? builder Operator.mul Operator.add node

/-- `(a | b) & c` becomes `(a & c) | (b & c)`. -/
def andOverOr? : Transform :=
  fun _ builder node => distribute? builder Operator.bitAnd Operator.bitOr node

end SymbolicAlgebra.Transform
