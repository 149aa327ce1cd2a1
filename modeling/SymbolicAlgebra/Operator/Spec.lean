import SymbolicAlgebra.Error

/-!
# Operator properties

What construction and the rules may assume of an operator: commutativity, associativity,
neutral and absorbing values, and how to compute it on literal numbers.
-/

namespace SymbolicAlgebra

/-- The algebraic properties of an operator symbol. -/
structure OperatorSpec where
  /-- The order of operands is irrelevant. -/
  commutative : Bool := false
  /-- Nested applications may be regrouped. -/
  associative : Bool := false
  /-- The value that vanishes on either side. -/
  identity : Option Expr := none
  /-- The value that vanishes on the left; takes precedence over `identity`. -/
  leftIdentity : Option Expr := none
  /-- The value that vanishes on the right; takes precedence over `identity`. -/
  rightIdentity : Option Expr := none
  /-- The absorbing value. -/
  zero : Option Expr := none
  /-- What the operator computes on two literal numbers. -/
  evaluator : Option Evaluator := none
  /-- The coercion of both operands before evaluation. -/
  cast : Option Cast := none
deriving DecidableEq

namespace OperatorSpec

/-- The value that vanishes on the left, if there is one. -/
def effectiveLeftIdentity
    (spec : OperatorSpec) : Option Expr :=
  spec.leftIdentity <|> spec.identity

/-- The value that vanishes on the right, if there is one. -/
def effectiveRightIdentity
    (spec : OperatorSpec) : Option Expr :=
  spec.rightIdentity <|> spec.identity

/-- Coerces an operand before evaluation. -/
def coerce
    (spec : OperatorSpec)
    (value : Float) : Except EvalFailure Float :=
  match spec.cast with
  | some cast => cast.convert value
  | none => .ok value

/-- Computes the operator on two literal numbers; `none` if it has no evaluator. -/
def evaluate?
    (spec : OperatorSpec)
    (name : String)
    (lhs rhs : Float) : Option (Except ExprError Expr) :=
  spec.evaluator.map fun evaluator =>
    let outcome := do
      let first ← spec.coerce lhs
      let second ← spec.coerce rhs
      evaluator.evaluate first second
    outcome.mapError (.evaluation name lhs rhs)

end OperatorSpec

end SymbolicAlgebra
