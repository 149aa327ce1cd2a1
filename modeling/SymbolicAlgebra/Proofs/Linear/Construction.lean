import SymbolicAlgebra.Proofs.Construction
import SymbolicAlgebra.Proofs.Expr.Sorting
import SymbolicAlgebra.Proofs.Linear.Expression
import SymbolicAlgebra.Rule.Canonical

/-!
# Building linear expressions

While the weight is small, sums, differences and integral multiples of linear expressions can be built,
and what is built is linear and reads as the sum, the difference or the multiple.
-/

namespace SymbolicAlgebra

/-! ## The arithmetic operators -/

/-- The properties of addition. -/
def sumSpec : OperatorSpec :=
  { evaluator := some .add, commutative := true, associative := true,
    identity := some (.number 0) }

/-- The properties of subtraction. -/
def differenceSpec : OperatorSpec :=
  { evaluator := some .sub, rightIdentity := some (.number 0) }

/-- The properties of multiplication. -/
def productSpec : OperatorSpec :=
  { evaluator := some .mul, commutative := true, associative := true,
    identity := some (.number 1), zero := some (.number 0) }

section Constants

open SymbolicAlgebra.Expr

theorem identity_sum :
    sumSpec.identity = some (whole 0) :=
  congrArg (fun value => some (number value)) floatOfInt_zero.symm

theorem identity_product :
    productSpec.identity = some (whole 1) :=
  congrArg (fun value => some (number value)) floatOfInt_one.symm

theorem zero_product :
    productSpec.zero = some (whole 0) :=
  congrArg (fun value => some (number value)) floatOfInt_zero.symm

theorem effectiveIdentity_sum :
    sumSpec.effectiveLeftIdentity = some (whole 0) ∧
      sumSpec.effectiveRightIdentity = some (whole 0) :=
  ⟨identity_sum, identity_sum⟩

theorem effectiveIdentity_difference :
    differenceSpec.effectiveLeftIdentity = none ∧
      differenceSpec.effectiveRightIdentity = some (whole 0) :=
  ⟨rfl, congrArg (fun value => some (number value)) floatOfInt_zero.symm⟩

theorem effectiveIdentity_product :
    productSpec.effectiveLeftIdentity = some (whole 1) ∧
      productSpec.effectiveRightIdentity = some (whole 1) :=
  ⟨identity_product, identity_product⟩

/-- A literal is neutral on both sides if it is the literal of the unit. -/
theorem isIdentity_whole
    {spec : OperatorSpec}
    {unit value : Int}
    (unitSmall : unit.natAbs < 2 ^ 53)
    (small : value.natAbs < 2 ^ 53)
    (neutral :
      spec.effectiveLeftIdentity = some (whole unit) ∧
        spec.effectiveRightIdentity = some (whole unit)) :
    Transform.isIdentity spec (whole value) = decide (value = unit) := by
  have same : whole unit = whole value ↔ value = unit :=
    ⟨fun same => (whole_injective unitSmall small same).symm,
      fun same => by rw [same]⟩
  simp only [Transform.isIdentity, neutral, Option.some.injEq, same, Bool.or_self]

end Constants

variable (table : SymbolTable)

theorem SymbolTable.specOf?_add :
    table.specOf? Operator.add = some sumSpec :=
  rfl

theorem SymbolTable.specOf?_sub :
    table.specOf? Operator.sub = some differenceSpec :=
  rfl

theorem SymbolTable.specOf?_mul :
    table.specOf? Operator.mul = some productSpec :=
  rfl

section Evaluation

variable {first second : Int} (name : String)

theorem evaluateLiterals?_sum
    (firstSmall : first.natAbs < 2 ^ 53)
    (secondSmall : second.natAbs < 2 ^ 53)
    (small : (first + second).natAbs < 2 ^ 53) :
    sumSpec.evaluateLiterals? name [.whole first, .whole second] =
      some (.ok (.whole (first + second))) :=
  congrArg
    (fun outcome : Except EvalFailure Expr =>
      some (outcome.mapError
        (ExprError.evaluation name (floatOfInt first) (floatOfInt second))))
    (evaluate_add firstSmall secondSmall small)

theorem evaluateLiterals?_difference
    (firstSmall : first.natAbs < 2 ^ 53)
    (secondSmall : second.natAbs < 2 ^ 53)
    (small : (first - second).natAbs < 2 ^ 53) :
    differenceSpec.evaluateLiterals? name [.whole first, .whole second] =
      some (.ok (.whole (first - second))) :=
  congrArg
    (fun outcome : Except EvalFailure Expr =>
      some (outcome.mapError
        (ExprError.evaluation name (floatOfInt first) (floatOfInt second))))
    (evaluate_sub firstSmall secondSmall small)

theorem evaluateLiterals?_product
    (firstSmall : first.natAbs < 2 ^ 53)
    (secondSmall : second.natAbs < 2 ^ 53)
    (small : (first * second).natAbs < 2 ^ 53) :
    productSpec.evaluateLiterals? name [.whole first, .whole second] =
      some (.ok (.whole (first * second))) :=
  congrArg
    (fun outcome : Except EvalFailure Expr =>
      some (outcome.mapError
        (ExprError.evaluation name (floatOfInt first) (floatOfInt second))))
    (evaluate_mul firstSmall secondSmall small)

end Evaluation

/-! ## Two operands in order -/

namespace Expr

/-- A literal stands before anything else. -/
theorem canonicalCompare_number
    (value : Float)
    {expr : Expr}
    (notLiteral : expr.isNumber = false) :
    canonicalCompare (number value) expr = .lt := by
  cases expr with
  | number _ =>
      cases notLiteral
  | _ =>
      simp only [canonicalCompare, rank]
      rfl

theorem operandCompare_number
    (op : Expr)
    (value : Float)
    {expr : Expr}
    (notLiteral : expr.isNumber = false) :
    operandCompare op (number value) expr = .lt := by
  rw [operandCompare, canonicalCompare_number value notLiteral]
  cases expr.isApplyOf op <;> rfl

variable {op expr : Expr} {value : Float}

theorem sortBy_number_left
    (notLiteral : expr.isNumber = false) :
    sortBy (operandCompare op) [number value, expr] = [number value, expr] := by
  apply sortBy_pair
  rw [(operandCompare_linearOn op).swap (number value) expr,
    operandCompare_number op value notLiteral]
  decide

theorem sortBy_number_right
    (notLiteral : expr.isNumber = false) :
    sortBy (operandCompare op) [expr, number value] = [number value, expr] :=
  sortBy_pair_swap (operandCompare_number op value notLiteral)

end Expr

/-! ## Building -/

section Building

variable {table} {lhs rhs operand : Expr} {bound bound' : Reading}

open SymbolicAlgebra.Expr

theorem construct_sum_eq
    (notLiterals : (lhs.isNumber && rhs.isNumber) = false) :
    table.construct Operator.add [lhs, rhs] =
      .ok (.apply Operator.add (sumSpec.ordered Operator.add [lhs, rhs])) :=
  construct_stored (table.specOf?_add) (List.cons_ne_nil _ _)
    (sumSpec.evaluateLiterals?_pair _ notLiterals) rfl

theorem construct_difference_eq
    (notLiterals : (lhs.isNumber && rhs.isNumber) = false) :
    table.construct Operator.sub [lhs, rhs] =
      .ok (.apply Operator.sub [lhs, rhs]) :=
  construct_stored (table.specOf?_sub) (List.cons_ne_nil _ _)
    (differenceSpec.evaluateLiterals?_pair _ notLiterals) rfl

/-- The sum of linear expressions can be built. -/
theorem exists_construct_sum
    (lhsWithin : lhs.Within bound)
    (rhsWithin : rhs.Within bound')
    (small : (bound + bound').weight < 2 ^ 53) :
    ∃ result,
      table.construct Operator.add [lhs, rhs] = .ok result ∧
        result.Within (bound + bound') := by
  obtain ⟨lhsLinear, lhsLe⟩ := lhsWithin
  obtain ⟨rhsLinear, rhsLe⟩ := rhsWithin
  have le := Reading.add_le_add lhsLe rhsLe
  by_cases literals : (lhs.isNumber && rhs.isNumber) = true
  · obtain ⟨lhsNumber, rhsNumber⟩ := Bool.and_eq_true_iff.mp literals
    obtain ⟨first, firstSmall, rfl⟩ := lhsLinear.exists_whole lhsNumber
    obtain ⟨second, secondSmall, rfl⟩ := rhsLinear.exists_whole rhsNumber
    rw [reading_whole firstSmall, reading_whole secondSmall] at le
    have magnitude := le.2.1
    simp only [Reading.add_weight, Reading.literal_weight] at magnitude small
    have sumSmall : (first + second).natAbs < 2 ^ 53 := by
      omega
    refine ⟨whole (first + second), ?_, .literal sumSmall, ?_⟩
    · exact construct_evaluated (table.specOf?_add) (List.cons_ne_nil _ _)
        (evaluateLiterals?_sum _ firstSmall secondSmall sumSmall)
    · refine le_trans ?_ le
      rw [reading_whole sumSmall]
      refine ⟨?_, Int.natAbs_add_le first second, one_le_two⟩
      simp [Pi.single_add]
  · have notLiterals := Bool.eq_false_iff.mpr literals
    rw [construct_sum_eq notLiterals]
    rcases sumSpec.ordered_pair Operator.add lhs rhs with same | swapped
    · rw [same]
      refine ⟨_, rfl, .sum lhsLinear rhsLinear notLiterals, ?_⟩
      rwa [reading_sum]
    · rw [swapped]
      refine ⟨_, rfl, .sum rhsLinear lhsLinear ?_, ?_⟩
      · rwa [Bool.and_comm]
      · rwa [reading_sum, add_comm]

/-- The difference of linear expressions can be built. -/
theorem exists_construct_difference
    (lhsWithin : lhs.Within bound)
    (rhsWithin : rhs.Within bound')
    (small : (bound.difference bound').weight < 2 ^ 53) :
    ∃ result,
      table.construct Operator.sub [lhs, rhs] = .ok result ∧
        result.Within (bound.difference bound') := by
  obtain ⟨lhsLinear, lhsLe⟩ := lhsWithin
  obtain ⟨rhsLinear, rhsLe⟩ := rhsWithin
  have le := Reading.difference_le_difference lhsLe rhsLe
  by_cases literals : (lhs.isNumber && rhs.isNumber) = true
  · obtain ⟨lhsNumber, rhsNumber⟩ := Bool.and_eq_true_iff.mp literals
    obtain ⟨first, firstSmall, rfl⟩ := lhsLinear.exists_whole lhsNumber
    obtain ⟨second, secondSmall, rfl⟩ := rhsLinear.exists_whole rhsNumber
    rw [reading_whole firstSmall, reading_whole secondSmall] at le
    have magnitude := le.2.1
    simp only [Reading.difference_weight, Reading.literal_weight]
      at magnitude small
    have differenceSmall : (first - second).natAbs < 2 ^ 53 := by
      omega
    refine ⟨whole (first - second), ?_, .literal differenceSmall, ?_⟩
    · exact construct_evaluated (table.specOf?_sub) (List.cons_ne_nil _ _)
        (evaluateLiterals?_difference _ firstSmall secondSmall differenceSmall)
    · refine le_trans ?_ le
      rw [reading_whole differenceSmall]
      refine ⟨?_, Int.natAbs_sub_le first second, Nat.le_add_right 1 2⟩
      simp [Pi.single_sub]
  · have notLiterals := Bool.eq_false_iff.mpr literals
    rw [construct_difference_eq notLiterals]
    refine ⟨_, rfl, .difference lhsLinear rhsLinear notLiterals, ?_⟩
    rwa [reading_difference]

/-- The literal zero among the factors takes over. -/
theorem absorbed?_product
    (args : List Expr) :
    productSpec.absorbed? args =
      if whole 0 ∈ args then some (whole 0) else none := by
  rw [OperatorSpec.absorbed?, zero_product]
  by_cases member : whole 0 ∈ args <;> simp [member]

/-- A product with a literal other than zero is stored with the literal first. -/
theorem construct_multiple_eq
    {factor : Int}
    {args : List Expr}
    (small : factor.natAbs < 2 ^ 53)
    (nonzero : factor ≠ 0)
    (notLiteral : operand.isNumber = false)
    (arguments :
      args = [whole factor, operand] ∨ args = [operand, whole factor]) :
    table.construct Operator.mul args =
      .ok (.apply Operator.mul [whole factor, operand]) := by
  have notZero : whole factor ≠ whole 0 :=
    fun same => nonzero (whole_injective small (by decide) same)
  have operandNotZero : operand ≠ whole 0 := by
    rintro rfl
    cases notLiteral
  have unabsorbed : productSpec.absorbed? args = none := by
    rw [absorbed?_product, if_neg]
    rcases arguments with rfl | rfl <;>
      simp [notZero.symm, operandNotZero.symm]
  have ordered :
      productSpec.ordered Operator.mul args = [whole factor, operand] := by
    rcases arguments with rfl | rfl
    · exact sortBy_number_left notLiteral
    · exact sortBy_number_right notLiteral
  have unevaluated :
      productSpec.evaluateLiterals? (Operator.mul.symbol?.getD "") args =
        none := by
    rcases arguments with rfl | rfl <;>
      exact productSpec.evaluateLiterals?_pair _ (by simp [notLiteral])
  rw [construct_stored (table.specOf?_mul)
    (by rcases arguments with rfl | rfl <;> exact List.cons_ne_nil _ _)
    unevaluated unabsorbed, ordered]

/-- The product of a literal zero with anything but a literal is zero. -/
theorem construct_zero_eq
    {args : List Expr}
    (notLiteral : operand.isNumber = false)
    (arguments : args = [whole 0, operand] ∨ args = [operand, whole 0]) :
    table.construct Operator.mul args = .ok (whole 0) := by
  rw [construct_eq_ok_iff, table.specOf?_mul]
  refine ⟨by rcases arguments with rfl | rfl <;> exact List.cons_ne_nil _ _,
    .absorbed ?_ ?_⟩
  · rcases arguments with rfl | rfl <;>
      exact productSpec.evaluateLiterals?_pair _ (by simp [notLiteral])
  · rw [absorbed?_product, if_pos]
    rcases arguments with rfl | rfl <;> simp

/-- The product of a linear expression with an integer can be built, in either order. -/
theorem exists_construct_multiple
    {factor : Int}
    {args : List Expr}
    (factorSmall : factor.natAbs < 2 ^ 53)
    (operandWithin : operand.Within bound)
    (small : (bound.multiple factor).weight < 2 ^ 53)
    (arguments :
      args = [whole factor, operand] ∨ args = [operand, whole factor]) :
    ∃ result,
      table.construct Operator.mul args = .ok result ∧
        result.Within (bound.multiple factor) := by
  obtain ⟨linear, operandLe⟩ := operandWithin
  have le := Reading.multiple_le_multiple factor operandLe
  by_cases literal : operand.isNumber = true
  · obtain ⟨value, valueSmall, rfl⟩ := linear.exists_whole literal
    rw [reading_whole valueSmall] at le
    have magnitude := le.2.1
    simp only [Reading.multiple_weight, Reading.literal_weight,
      ← Int.natAbs_mul] at magnitude small
    have productSmall : (factor * value).natAbs < 2 ^ 53 :=
      magnitude.trans_lt small
    refine ⟨whole (factor * value), ?_, .literal productSmall, ?_⟩
    · rcases arguments with rfl | rfl
      · exact construct_evaluated (table.specOf?_mul) (List.cons_ne_nil _ _)
          (evaluateLiterals?_product _ factorSmall valueSmall productSmall)
      · rw [mul_comm factor value] at productSmall ⊢
        exact construct_evaluated (table.specOf?_mul) (List.cons_ne_nil _ _)
          (evaluateLiterals?_product _ valueSmall factorSmall productSmall)
    · refine le_trans ?_ le
      rw [reading_whole productSmall]
      refine ⟨?_, (Int.natAbs_mul factor value).le, le_rfl⟩
      simp [← Pi.single_smul]
  · have notLiteral := Bool.eq_false_iff.mpr literal
    by_cases zero : factor = 0
    · subst zero
      refine ⟨whole 0, construct_zero_eq notLiteral arguments,
        .literal (by decide), le_trans ?_ le⟩
      rw [reading_whole (by decide)]
      refine ⟨by simp, Nat.zero_le _, ?_⟩
      have := linear.cost_pos.1
      simp only [Reading.literal_cost, Reading.multiple_cost]
      omega
    · rw [construct_multiple_eq factorSmall zero notLiteral arguments]
      refine ⟨_, rfl, .multiple factorSmall zero linear notLiteral, ?_⟩
      rwa [reading_multiple factorSmall]

end Building

end SymbolicAlgebra
