import Mathlib.Algebra.BigOperators.Group.List.Basic
import Mathlib.Algebra.Group.Pi.Lemmas
import Mathlib.Algebra.Module.Pi
import Mathlib.Tactic.Abel
import Mathlib.Tactic.Module
import SymbolicAlgebra.Operator.Standard
import SymbolicAlgebra.Proofs.Expr.Order
import SymbolicAlgebra.Proofs.Number.Arithmetic

/-!
# Linear expressions

A linear expression is made of exact integer literals, symbols, sums, differences and products with a
leading literal.  Reading it gives a linear form and two magnitudes.  The weight bounds all the integers
that can come up when the expression is worked on.  The cost goes down whenever a rule does something
that cannot be undone: subtraction and distribution are paid for by what they multiply.
-/

namespace SymbolicAlgebra

/-- The coefficients of a linear expression: one for each symbol and, at `none`, the constant term. -/
abbrev LinearForm :=
  Option String → Int

/-- What a linear expression comes to, how large its integers may become and what it costs. -/
@[ext]
structure Reading where
  form : LinearForm
  weight : Nat
  cost : Nat

namespace Reading

/-- The reading of an integer. -/
@[simps -fullyApplied]
def literal
    (whole : Int) : Reading :=
  ⟨Pi.single none whole, whole.natAbs, 1⟩

/-- The reading of a symbol. -/
@[simps -fullyApplied]
def symbol
    (name : String) : Reading :=
  ⟨Pi.single (some name) 1, 1, 2⟩

/-- The reading of an integral multiple. -/
@[simps -fullyApplied]
def multiple
    (factor : Int)
    (reading : Reading) : Reading :=
  ⟨factor • reading.form, factor.natAbs * reading.weight, 2 * reading.cost - 1⟩

/-- The reading of a difference, which costs what a sum with a negated product costs, and one more. -/
@[simps -fullyApplied]
def difference
    (first second : Reading) : Reading :=
  ⟨first.form - second.form, first.weight + second.weight,
    first.cost + 2 * second.cost⟩

instance : Zero Reading :=
  ⟨⟨0, 0, 0⟩⟩

instance : Add Reading :=
  ⟨fun first second =>
    ⟨first.form + second.form, first.weight + second.weight,
      first.cost + second.cost⟩⟩

variable (first second third : Reading)

@[simp]
theorem zero_form :
    (0 : Reading).form = 0 :=
  rfl

@[simp]
theorem zero_weight :
    (0 : Reading).weight = 0 :=
  rfl

@[simp]
theorem zero_cost :
    (0 : Reading).cost = 0 :=
  rfl

@[simp]
theorem add_form :
    (first + second).form = first.form + second.form :=
  rfl

@[simp]
theorem add_weight :
    (first + second).weight = first.weight + second.weight :=
  rfl

@[simp]
theorem add_cost :
    (first + second).cost = first.cost + second.cost :=
  rfl

instance : AddCommMonoid Reading where
  add_assoc _ _ _ :=
    Reading.ext (add_assoc _ _ _) (add_assoc _ _ _) (add_assoc _ _ _)
  zero_add _ :=
    Reading.ext (zero_add _) (zero_add _) (zero_add _)
  add_zero _ :=
    Reading.ext (add_zero _) (add_zero _) (add_zero _)
  add_comm _ _ :=
    Reading.ext (add_comm _ _) (add_comm _ _) (add_comm _ _)
  nsmul :=
    nsmulRec

/-- Readings of one form are compared by weight and cost. -/
instance : Preorder Reading where
  le first second :=
    first.form = second.form ∧ first.weight ≤ second.weight ∧
      first.cost ≤ second.cost
  le_refl _ :=
    ⟨rfl, le_rfl, le_rfl⟩
  le_trans _ _ _ former latter :=
    ⟨former.1.trans latter.1, former.2.1.trans latter.2.1,
      former.2.2.trans latter.2.2⟩

variable {first second third : Reading} {fourth : Reading}

theorem add_le_add
    (former : first ≤ second)
    (latter : third ≤ fourth) :
    first + third ≤ second + fourth := by
  obtain ⟨sameForm, weight, cost⟩ := former
  obtain ⟨sameForm', weight', cost'⟩ := latter
  exact ⟨congrArg₂ (· + ·) sameForm sameForm',
    Nat.add_le_add weight weight', Nat.add_le_add cost cost'⟩

theorem difference_le_difference
    (former : first ≤ second)
    (latter : third ≤ fourth) :
    first.difference third ≤ second.difference fourth := by
  obtain ⟨sameForm, weight, cost⟩ := former
  obtain ⟨sameForm', weight', cost'⟩ := latter
  refine ⟨congrArg₂ (· - ·) sameForm sameForm',
    Nat.add_le_add weight weight', ?_⟩
  simp only [difference_cost]
  omega

theorem multiple_le_multiple
    (factor : Int)
    (smaller : first ≤ second) :
    first.multiple factor ≤ second.multiple factor := by
  obtain ⟨sameForm, weight, cost⟩ := smaller
  refine ⟨congrArg (factor • ·) sameForm, Nat.mul_le_mul_left _ weight, ?_⟩
  simp only [multiple_cost]
  omega

end Reading

/-- The integer that a float represents, if it does. -/
def wholeOf
    (value : Float) : Int :=
  (integer? value).getD 0

theorem wholeOf_floatOfInt
    {whole : Int}
    (small : whole.natAbs < 2 ^ 53) :
    wholeOf (floatOfInt whole) = whole := by
  rw [wholeOf,
    (floatOfInt_isExactly (fitsFloat_of_le (Nat.le_of_lt small))).integer?_eq]
  rfl

namespace Expr

/-- The literal of an integer that is represented exactly. -/
def whole
    (value : Int) : Expr :=
  number (floatOfInt value)

/-- The reading of a linear expression. -/
def reading : Expr → Reading
  | number value => .literal (wholeOf value)
  | symbol name => .symbol name
  | apply head [lhs, rhs] =>
    if head = Operator.add then
      lhs.reading + rhs.reading
    else if head = Operator.sub then
      lhs.reading.difference rhs.reading
    else
      rhs.reading.multiple (lhs.number?.elim 0 wholeOf)
  | _ => 0

/-- The linear expressions. -/
inductive IsLinear : Expr → Prop where
  | literal
      {value : Int}
      (small : value.natAbs < 2 ^ 53) :
      IsLinear (whole value)
  | symbol
      (name : String) :
      IsLinear (symbol name)
  | sum
      {lhs rhs : Expr}
      (lhsLinear : IsLinear lhs)
      (rhsLinear : IsLinear rhs)
      (notLiterals : (lhs.isNumber && rhs.isNumber) = false) :
      IsLinear (apply Operator.add [lhs, rhs])
  | difference
      {lhs rhs : Expr}
      (lhsLinear : IsLinear lhs)
      (rhsLinear : IsLinear rhs)
      (notLiterals : (lhs.isNumber && rhs.isNumber) = false) :
      IsLinear (apply Operator.sub [lhs, rhs])
  | multiple
      {factor : Int}
      {operand : Expr}
      (small : factor.natAbs < 2 ^ 53)
      (nonzero : factor ≠ 0)
      (linear : IsLinear operand)
      (notLiteral : operand.isNumber = false) :
      IsLinear (apply Operator.mul [whole factor, operand])

/-- The expression is linear and reads as something, or as less. -/
structure Within
    (expr : Expr)
    (bound : Reading) : Prop where
  linear :
    expr.IsLinear
  le :
    expr.reading ≤ bound

/-- The expression is linear, reads as something or as less, and costs less. -/
structure Below
    (expr : Expr)
    (bound : Reading) : Prop extends expr.Within bound where
  cost_lt :
    expr.reading.cost < bound.cost

variable {expr lhs rhs : Expr} {bound bound' : Reading}

theorem reading_whole
    {value : Int}
    (small : value.natAbs < 2 ^ 53) :
    (whole value).reading = .literal value := by
  rw [whole, reading, wholeOf_floatOfInt small]

theorem reading_sum
    (lhs rhs : Expr) :
    (apply Operator.add [lhs, rhs]).reading = lhs.reading + rhs.reading := by
  rw [reading, if_pos rfl]

theorem reading_difference
    (lhs rhs : Expr) :
    (apply Operator.sub [lhs, rhs]).reading =
      lhs.reading.difference rhs.reading := by
  rw [reading, if_neg (by decide), if_pos rfl]

theorem reading_multiple
    {factor : Int}
    (small : factor.natAbs < 2 ^ 53)
    (operand : Expr) :
    (apply Operator.mul [whole factor, operand]).reading =
      operand.reading.multiple factor := by
  rw [reading, if_neg (by decide), if_neg (by decide), whole, number?,
    Option.elim_some, wholeOf_floatOfInt small]

theorem isNumber_whole
    (value : Int) :
    (whole value).isNumber = true :=
  rfl

theorem whole_injective
    {first second : Int}
    (firstSmall : first.natAbs < 2 ^ 53)
    (secondSmall : second.natAbs < 2 ^ 53)
    (same : whole first = whole second) :
    first = second :=
  floatOfInt_injective firstSmall secondSmall (number.inj same)

/-- A linear literal holds an exact integer. -/
theorem IsLinear.exists_whole
    (linear : expr.IsLinear)
    (isNumber : expr.isNumber = true) :
    ∃ value : Int, value.natAbs < 2 ^ 53 ∧ expr = whole value := by
  cases linear with
  | literal small =>
      exact ⟨_, small, rfl⟩
  | _ =>
      cases isNumber

/-- Every linear expression costs something, and all but literals cost and weigh more. -/
theorem IsLinear.cost_pos
    (linear : expr.IsLinear) :
    1 ≤ expr.reading.cost ∧
      (expr.isNumber = false →
        2 ≤ expr.reading.cost ∧ 1 ≤ expr.reading.weight) := by
  induction linear with
  | literal small =>
      exact ⟨le_rfl, nofun⟩
  | symbol name =>
      exact ⟨one_le_two, fun _ => ⟨le_rfl, le_rfl⟩⟩
  | @sum lhs rhs _ _ notLiterals lhsHypothesis rhsHypothesis =>
      rw [reading_sum, Reading.add_cost, Reading.add_weight]
      refine ⟨by omega, fun _ => ⟨by omega, ?_⟩⟩
      rcases Bool.and_eq_false_iff.mp notLiterals with notNumber | notNumber
      · have := (lhsHypothesis.2 notNumber).2
        omega
      · have := (rhsHypothesis.2 notNumber).2
        omega
  | @difference lhs rhs _ _ notLiterals lhsHypothesis rhsHypothesis =>
      rw [reading_difference, Reading.difference_cost, Reading.difference_weight]
      refine ⟨by omega, fun _ => ⟨by omega, ?_⟩⟩
      rcases Bool.and_eq_false_iff.mp notLiterals with notNumber | notNumber
      · have := (lhsHypothesis.2 notNumber).2
        omega
      · have := (rhsHypothesis.2 notNumber).2
        omega
  | @multiple factor operand small nonzero _ notLiteral inductionHypothesis =>
      obtain ⟨cost, weight⟩ := inductionHypothesis.2 notLiteral
      rw [reading_multiple small, Reading.multiple_cost, Reading.multiple_weight]
      refine ⟨by omega, fun _ => ⟨by omega, ?_⟩⟩
      exact Nat.mul_pos (by omega) weight

/-- There are no wildcards in linear expressions. -/
theorem IsLinear.plainlyNamed
    (linear : expr.IsLinear) :
    expr.PlainlyNamed := by
  have none : expr.wildcards = [] := by
    induction linear <;> simp_all [wildcards, wildcardsOfArgs, whole]
  simp [PlainlyNamed, none]

theorem IsLinear.within
    (linear : expr.IsLinear) :
    expr.Within expr.reading :=
  ⟨linear, le_rfl⟩

theorem Within.mono
    (within : expr.Within bound)
    (le : bound ≤ bound') :
    expr.Within bound' :=
  ⟨within.linear, within.le.trans le⟩

theorem Within.below
    (within : expr.Within bound)
    (le : bound ≤ bound')
    (cost_lt : bound.cost < bound'.cost) :
    expr.Below bound' :=
  ⟨within.mono le, within.le.2.2.trans_lt cost_lt⟩

theorem Below.mono
    (below : expr.Below bound)
    (le : bound ≤ bound') :
    expr.Below bound' :=
  ⟨below.toWithin.mono le, below.cost_lt.trans_le le.2.2⟩

end Expr

end SymbolicAlgebra
