import SymbolicAlgebra.Construction

/-!
# Associative chains

A chain is a nest of applications of one associative operator.  Its operands are read off from left
to right, and its canonical shape is right-nested: `op(a, op(b, op(c, d)))`.
-/

namespace SymbolicAlgebra.Chain

mutual

/-- The operands of the `op`-chain at an expression; anything not headed by `op` is a chain of one. -/
def flatten
    (op expr : Expr) : List Expr :=
  match expr with
  | .apply head args => if head = op then flattenArgs op args else [.apply head args]
  | leaf => [leaf]

/-- The operands of the chains at all arguments. -/
def flattenArgs
    (op : Expr) : List Expr → List Expr
  | [] => []
  | arg :: rest => flatten op arg ++ flattenArgs op rest

end

/-- Anything not headed by the operator is a chain of one. -/
theorem flatten_of_not_isApplyOf
    {op expr : Expr}
    (other : expr.isApplyOf op = false) :
    flatten op expr = [expr] := by
  cases expr with
  | apply head args =>
    have different : head ≠ op := by simpa [Expr.isApplyOf] using other
    simp [flatten, different]
  | _ => rfl

/-- The chain of an application of the operator goes through its arguments in order. -/
theorem flatten_apply
    (op : Expr)
    (args : List Expr) :
    flatten op (.apply op args) = args.flatMap (flatten op) := by
  have spread : flattenArgs op args = args.flatMap (flatten op) := by
    induction args with
    | nil => rfl
    | cons arg rest inductionHypothesis => simp [flattenArgs, inductionHypothesis]
  simp [flatten, spread]

/-- Whether a chain already has the right-nested binary shape. -/
def isRightNested
    (op : Expr) : Expr → Bool
  | .apply head args =>
    if head = op then
      match args with
      | [lhs, rhs] => !lhs.isApplyOf op && isRightNested op rhs
      | _ => false
    else
      true
  | _ => true

/-- Builds the right-nested chain of operands in the given order. -/
def build
    (builder : Builder)
    (op : Expr) : List Expr → Except ExprError Expr
  | [] => .error (.emptyArguments op)
  | [operand] => .ok operand
  | operand :: next :: rest => do
    let chain ← build builder op (next :: rest)
    builder op [operand, chain]

end SymbolicAlgebra.Chain
