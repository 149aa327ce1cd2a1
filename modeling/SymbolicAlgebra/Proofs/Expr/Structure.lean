import SymbolicAlgebra.Expr.Query

/-!
# The structure of expressions

Induction over expressions gives a hypothesis for the head and one for every argument.  The wildcards
of an expression are listed with repetition, those of heads included.
-/

namespace SymbolicAlgebra.Expr

/--
What holds of every leaf, and of an application whenever it holds of its head and of all its
arguments, holds of every expression.
-/
@[elab_as_elim, induction_eliminator]
theorem structuralInduction
    {motive : Expr → Prop}
    (symbol : ∀ name, motive (.symbol name))
    (wildcard : ∀ identity, motive (.wildcard identity))
    (number : ∀ value, motive (.number value))
    (boolean : ∀ value, motive (.boolean value))
    (apply :
      ∀ head args,
        motive head → (∀ arg ∈ args, motive arg) → motive (.apply head args))
    (expr : Expr) :
    motive expr := by
  refine @Expr.rec motive (fun args => ∀ arg ∈ args, motive arg)
    symbol wildcard number boolean ?_ ?_ ?_ expr
  · intro head args headHypothesis argsHypothesis
    exact apply head args headHypothesis argsHypothesis
  · simp
  · intro first rest firstHypothesis restHypothesis arg member
    rcases List.mem_cons.mp member with rfl | inRest
    · exact firstHypothesis
    · exact restHypothesis arg inRest

/-- An expression with two operands applies the operator to them. -/
theorem operands?_eq_some
    {expr op first second : Expr}
    (found : expr.operands? op = some (first, second)) :
    expr = apply op [first, second] := by
  unfold operands? at found
  split at found
  · split at found
    · rename_i same
      cases found
      rw [same]
    · cases found
  · cases found

/-- Anything but an application of the operator has no operands of it. -/
theorem operands?_eq_none_of_not_isApplyOf
    {expr op : Expr}
    (other : expr.isApplyOf op = false) :
    expr.operands? op = none := by
  rw [Option.eq_none_iff_forall_ne_some]
  rintro ⟨first, second⟩ found
  rw [operands?_eq_some found] at other
  exact (of_decide_eq_false other) rfl

theorem operands?_pair
    (op lhs rhs : Expr) :
    (apply op [lhs, rhs]).operands? op = some (lhs, rhs) := by
  simp [operands?]

/-- An application contains itself, and what its head or one of its arguments contains. -/
theorem contains_apply
    {head needle : Expr}
    {args : List Expr} :
    (apply head args).contains needle = true ↔
      apply head args = needle ∨ head.contains needle = true ∨
        ∃ arg ∈ args, arg.contains needle = true := by
  have inArgs :
      argsContain args needle = true ↔
        ∃ arg ∈ args, arg.contains needle = true := by
    induction args with
    | nil =>
        simp [argsContain]
    | cons arg rest inductionHypothesis =>
        simp [argsContain, inductionHypothesis]
  simp [contains, inArgs, or_assoc]

mutual

/-- The wildcards of an expression, heads included, from left to right. -/
def wildcards : Expr → List Wildcard
  | wildcard identity => [identity]
  | apply head args => head.wildcards ++ wildcardsOfArgs args
  | _ => []

/-- The wildcards of all arguments together. -/
def wildcardsOfArgs : List Expr → List Wildcard
  | [] => []
  | arg :: rest => arg.wildcards ++ wildcardsOfArgs rest

end

/-- A wildcard of arguments is a wildcard of one of them. -/
theorem mem_wildcardsOfArgs
    {identity : Wildcard}
    {args : List Expr} :
    identity ∈ wildcardsOfArgs args ↔
      ∃ arg ∈ args, identity ∈ arg.wildcards := by
  induction args with
  | nil =>
      simp [wildcardsOfArgs]
  | cons arg rest inductionHypothesis =>
      simp [wildcardsOfArgs, inductionHypothesis]

/-- A wildcard of an application is one of its head or of one of its arguments. -/
@[simp] theorem mem_wildcards_apply
    {identity : Wildcard}
    {head : Expr}
    {args : List Expr} :
    identity ∈ (apply head args).wildcards ↔
      identity ∈ head.wildcards ∨ ∃ arg ∈ args, identity ∈ arg.wildcards := by
  simp [wildcards, mem_wildcardsOfArgs]

end SymbolicAlgebra.Expr
