import SymbolicAlgebra.Proofs.Linear.LikeTerms
import SymbolicAlgebra.Proofs.Visit

/-!
# Rules on linear expressions

While the weight is small, every rule of the catalogue keeps a linear expression linear, with the same
form and no more weight or cost.  Half of the rules never apply or apply to one kind of node only.
Dropping identities, removing subtraction and distributing always make an expression cheaper.
-/

namespace SymbolicAlgebra

open SymbolicAlgebra.Expr

section Rules

variable {table : SymbolTable} {builder : Builder} {node lhs rhs operand : Expr}

/-! ## Rules for other operators -/

theorem Expr.IsLinear.operands?_eq_none
    (linear : node.IsLinear)
    {op : Expr}
    (otherThanSum : Operator.add ≠ op)
    (otherThanDifference : Operator.sub ≠ op)
    (otherThanProduct : Operator.mul ≠ op) :
    node.operands? op = none := by
  cases linear <;>
    simp [operands?, whole, otherThanSum, otherThanDifference, otherThanProduct]

theorem andOverOr?_linear
    (linear : node.IsLinear) :
    Transform.andOverOr? table builder node = none := by
  rw [Transform.andOverOr?, Transform.distribute?,
    linear.operands?_eq_none (by decide) (by decide) (by decide)]

theorem cancelDivision?_linear
    (linear : node.IsLinear) :
    Transform.cancelDivision? table builder node = none := by
  have noQuotient
      {expr : Expr}
      (linear : expr.IsLinear) :
      expr.operands? Operator.div = none :=
    linear.operands?_eq_none (by decide) (by decide) (by decide)
  cases linear with
  | @multiple factor operand small nonzero linear notLiteral =>
      change Transform.cancelProduct? builder (whole factor) operand = none
      simp only [Transform.cancelProduct?, noQuotient linear,
        noQuotient (.literal small)]
  | _ =>
      rfl

theorem bitIdentities?_linear
    (linear : node.IsLinear) :
    Transform.bitIdentities? table builder node = none := by
  cases linear <;> rfl

theorem evaluateNumeric?_linear
    (linear : node.IsLinear) :
    Transform.evaluateNumeric? table builder node = none := by
  cases linear with
  | literal small =>
      rfl
  | symbol name =>
      rfl
  | sum lhsLinear rhsLinear notLiterals =>
      simp only [Transform.evaluateNumeric?, SymbolTable.specOf?_add,
        Option.bind_eq_bind, Option.bind_some,
        sumSpec.evaluateLiterals?_pair _ notLiterals, Option.bind_none]
  | difference lhsLinear rhsLinear notLiterals =>
      simp only [Transform.evaluateNumeric?, SymbolTable.specOf?_sub,
        Option.bind_eq_bind, Option.bind_some,
        differenceSpec.evaluateLiterals?_pair _ notLiterals, Option.bind_none]
  | @multiple factor operand small nonzero linear notLiteral =>
      have notLiterals :
          ((whole factor).isNumber && operand.isNumber) = false := by
        rw [notLiteral, Bool.and_false]
      simp only [Transform.evaluateNumeric?, SymbolTable.specOf?_mul,
        Option.bind_eq_bind, Option.bind_some,
        productSpec.evaluateLiterals?_pair _ notLiterals, Option.bind_none]

theorem absorbZero?_linear
    (linear : node.IsLinear) :
    Transform.absorbZero? table builder node = none := by
  cases linear with
  | literal small =>
      rfl
  | symbol name =>
      rfl
  | sum lhsLinear rhsLinear notLiterals =>
      rfl
  | difference lhsLinear rhsLinear notLiterals =>
      rfl
  | @multiple factor operand small nonzero linear notLiteral =>
      have absent : whole 0 ∉ [whole factor, operand] := by
        rw [List.mem_pair]
        rintro (same | rfl)
        · exact nonzero (whole_injective (by decide) small same).symm
        · cases notLiteral
      change productSpec.absorbed? [whole factor, operand] = none
      rw [absorbed?_product, if_neg absent]

/-! ## Sorting and dropping identities -/

/-- Sorting leaves a sum as it is or swaps its operands. -/
theorem commutativeOrder?_sum
    (notLiterals : (lhs.isNumber && rhs.isNumber) = false) :
    Transform.commutativeOrder?.result table (.apply Operator.add [lhs, rhs]) =
        .apply Operator.add [lhs, rhs] ∨
      Transform.commutativeOrder?.result table
          (.apply Operator.add [lhs, rhs]) =
        .apply Operator.add [rhs, lhs] := by
  have built : table.construct Operator.add [lhs, rhs] = _ :=
    construct_sum_eq notLiterals
  have either := result_commutativeOrder_of_construct built
  rcases sumSpec.ordered_pair Operator.add lhs rhs with same | swapped
  · rw [same] at either
    exact .inl (or_self_iff.mp either)
  · rw [swapped] at either
    exact either

/-- A product has its literal in front already. -/
theorem commutativeOrder?_multiple
    {factor : Int}
    (notLiteral : operand.isNumber = false) :
    Transform.commutativeOrder? table builder
        (.apply Operator.mul [whole factor, operand]) =
      none := by
  have sorted :
      isSortedBy (operandCompare Operator.mul) [whole factor, operand] =
        true := by
    rw [isSortedBy, whole, operandCompare_number _ _ notLiteral]
    rfl
  simp [Transform.commutativeOrder?, sorted]

/-- Which operands are dropped from a node with two of them. -/
theorem stripIdentities?_eq_some
    {head result : Expr}
    {spec : OperatorSpec}
    (found : table.specOf? head = some spec)
    (strips :
      Transform.stripIdentities? table builder (.apply head [lhs, rhs]) =
        some result) :
    spec.effectiveLeftIdentity = some lhs ∧
        result = (Transform.stripIdentities? table builder rhs).getD rhs ∨
      spec.effectiveRightIdentity = some rhs ∧
        result = (Transform.stripIdentities? table builder lhs).getD lhs := by
  rw [Transform.stripIdentities?, found] at strips
  simp only at strips
  split at strips
  · rename_i left
    exact .inl ⟨left, (Option.some.inj strips).symm⟩
  · split at strips
    · rename_i right
      exact .inr ⟨right, (Option.some.inj strips).symm⟩
    · cases strips

theorem stripIdentities?_eq_none
    {head : Expr}
    {spec : OperatorSpec}
    (found : table.specOf? head = some spec)
    (stays :
      Transform.stripIdentities? table builder (.apply head [lhs, rhs]) =
        none) :
    spec.effectiveLeftIdentity ≠ some lhs ∧
      spec.effectiveRightIdentity ≠ some rhs := by
  rw [Transform.stripIdentities?, found] at stays
  simp only at stays
  split at stays
  · cases stays
  · split at stays
    · cases stays
    · exact ⟨‹_›, ‹_›⟩

/-- What is left when identities are dropped is cheaper. -/
theorem stripIdentities?_linear
    (linear : node.IsLinear)
    {result : Expr}
    (strips : Transform.stripIdentities? table builder node = some result) :
    result.Below node.reading := by
  have zero : (whole 0).reading = .literal 0 :=
    reading_whole (by decide)
  have left
      {expr : Expr}
      (linear : expr.IsLinear)
      (hypothesis :
        ∀ {result},
          Transform.stripIdentities? table builder expr = some result →
            result.Below expr.reading) :
      ((Transform.stripIdentities? table builder expr).getD expr).Within
        expr.reading := by
    cases stripped : Transform.stripIdentities? table builder expr with
    | none =>
        exact linear.within
    | some result =>
        exact (hypothesis stripped).toWithin
  induction linear generalizing result with
  | literal small =>
      cases strips
  | symbol name =>
      cases strips
  | @sum lhs rhs lhsLinear rhsLinear notLiterals lhsHypothesis rhsHypothesis =>
      rw [reading_sum]
      rcases stripIdentities?_eq_some table.specOf?_add strips with
        ⟨identity, rfl⟩ | ⟨identity, rfl⟩
      · rw [effectiveIdentity_sum.1] at identity
        cases identity
        rw [zero]
        refine (left rhsLinear rhsHypothesis).below ⟨?_, ?_, ?_⟩ ?_ <;> simp
      · rw [effectiveIdentity_sum.2] at identity
        cases identity
        rw [zero]
        refine (left lhsLinear lhsHypothesis).below ⟨?_, ?_, ?_⟩ ?_ <;> simp
  | @difference lhs rhs lhsLinear rhsLinear notLiterals lhsHypothesis
      rhsHypothesis =>
      rw [reading_difference]
      rcases stripIdentities?_eq_some table.specOf?_sub strips with
        ⟨identity, rfl⟩ | ⟨identity, rfl⟩
      · rw [effectiveIdentity_difference.1] at identity
        cases identity
      · rw [effectiveIdentity_difference.2] at identity
        cases identity
        rw [zero]
        refine (left lhsLinear lhsHypothesis).below ⟨?_, ?_, ?_⟩ ?_ <;> simp
  | @multiple factor operand small nonzero linear notLiteral hypothesis =>
      rw [reading_multiple small]
      rcases stripIdentities?_eq_some table.specOf?_mul strips with
        ⟨identity, rfl⟩ | ⟨identity, rfl⟩
      · rw [effectiveIdentity_product.1] at identity
        obtain rfl :=
          whole_injective (by decide) small (Option.some.inj identity)
        have cost := (linear.cost_pos.2 notLiteral).1
        refine (left linear hypothesis).below ⟨?_, ?_, ?_⟩ ?_
        · simp
        · simp
        · rw [Reading.multiple_cost]
          omega
        · rw [Reading.multiple_cost]
          omega
      · rw [effectiveIdentity_product.2] at identity
        cases identity
        cases notLiteral

/-! ## Rules for products and differences -/

/-- Subtraction is replaced by something cheaper. -/
theorem removeSubtraction?_difference
    (lhsLinear : lhs.IsLinear)
    (rhsLinear : rhs.IsLinear)
    (small : (lhs.reading.difference rhs.reading).weight < 2 ^ 53) :
    ∃ result,
      Transform.removeSubtraction? table table.construct
          (.apply Operator.sub [lhs, rhs]) =
          some result ∧
        result.Below (lhs.reading.difference rhs.reading) := by
  rw [Reading.difference_weight] at small
  obtain ⟨negated, negatedBuilt, negatedWithin⟩ :
      ∃ result,
        table.construct Operator.mul [rhs, whole (-1)] = .ok result ∧
          result.Within (rhs.reading.multiple (-1)) :=
    exists_construct_multiple (by decide) rhsLinear.within
      (by
        rw [Reading.multiple_weight, Int.natAbs_neg, Int.natAbs_one, Nat.one_mul]
        omega)
      (.inr rfl)
  obtain ⟨result, built, within⟩ :
      ∃ result,
        table.construct Operator.add [lhs, negated] = .ok result ∧
          result.Within (lhs.reading + rhs.reading.multiple (-1)) :=
    exists_construct_sum lhsLinear.within negatedWithin (by simpa using small)
  have cost := rhsLinear.cost_pos.1
  refine ⟨result, ?_, within.below ⟨?_, ?_, ?_⟩ ?_⟩
  · rw [whole, floatOfInt_neg_one] at negatedBuilt
    simp only [Transform.removeSubtraction?, operands?, if_true, negatedBuilt,
      ok_bind, built]
    rfl
  · simp [sub_eq_add_neg]
  · simp
  · simp only [Reading.add_cost, Reading.multiple_cost, Reading.difference_cost]
    omega
  · simp only [Reading.add_cost, Reading.multiple_cost, Reading.difference_cost]
    omega

/-- A multiple of a sum is distributed, which is cheaper. -/
theorem mulOverAdd?_multiple
    {factor : Int}
    (factorSmall : factor.natAbs < 2 ^ 53)
    (linear : operand.IsLinear)
    (sum : operand.isApplyOf Operator.add = true)
    (small : (operand.reading.multiple factor).weight < 2 ^ 53) :
    ∃ result,
      Transform.mulOverAdd? table table.construct
          (.apply Operator.mul [whole factor, operand]) =
          some result ∧
        result.Below (operand.reading.multiple factor) := by
  cases linear with
  | @sum first second firstLinear secondLinear notLiterals =>
      rw [reading_sum] at small ⊢
      rw [Reading.multiple_weight, Reading.add_weight, Nat.mul_add] at small
      obtain ⟨left, leftBuilt, leftWithin⟩ :
          ∃ result,
            table.construct Operator.mul [first, whole factor] = .ok result ∧
              result.Within (first.reading.multiple factor) :=
        exists_construct_multiple factorSmall firstLinear.within
          (by rw [Reading.multiple_weight]; omega) (.inr rfl)
      obtain ⟨right, rightBuilt, rightWithin⟩ :
          ∃ result,
            table.construct Operator.mul [second, whole factor] = .ok result ∧
              result.Within (second.reading.multiple factor) :=
        exists_construct_multiple factorSmall secondLinear.within
          (by rw [Reading.multiple_weight]; omega) (.inr rfl)
      obtain ⟨result, built, within⟩ :
          ∃ result,
            table.construct Operator.add [left, right] = .ok result ∧
              result.Within _ :=
        exists_construct_sum leftWithin rightWithin
          (by simpa using small)
      have firstCost := firstLinear.cost_pos.1
      have secondCost := secondLinear.cost_pos.1
      refine ⟨result, ?_, within.below ⟨?_, ?_, ?_⟩ ?_⟩
      · simp only [Transform.mulOverAdd?, Transform.distribute?, operands?,
          whole, if_true, Transform.spread] at leftBuilt rightBuilt ⊢
        simp only [leftBuilt, rightBuilt, ok_bind, built]
        rfl
      · simp
      · simp [Nat.mul_add]
      · simp only [Reading.add_cost, Reading.multiple_cost]
        omega
      · simp only [Reading.add_cost, Reading.multiple_cost]
        omega
  | _ =>
      cases sum

theorem mulOverAdd?_multiple_of_notSum
    {factor : Int}
    (linear : operand.IsLinear)
    (notSum : operand.isApplyOf Operator.add = false) :
    Transform.mulOverAdd? table builder
        (.apply Operator.mul [whole factor, operand]) =
      none := by
  cases linear with
  | sum lhsLinear rhsLinear notLiterals =>
      cases notSum
  | _ =>
      rfl

/-! ## What every rule keeps -/

theorem commutativeOrder?_linear
    (linear : node.IsLinear)
    {result : Expr}
    (sorts :
      Transform.commutativeOrder? table table.construct node = some result) :
    result.Within node.reading := by
  cases linear with
  | @sum lhs rhs lhsLinear rhsLinear notLiterals =>
      have either := @commutativeOrder?_sum table lhs rhs notLiterals
      rw [Transform.result, sorts, Option.getD_some] at either
      rcases either with rfl | rfl
      · exact (IsLinear.sum lhsLinear rhsLinear notLiterals).within
      · refine ⟨.sum rhsLinear lhsLinear (by rwa [Bool.and_comm]), ?_⟩
        rw [reading_sum, reading_sum, add_comm]
  | multiple small nonzero linear notLiteral =>
      rw [commutativeOrder?_multiple notLiteral] at sorts
      cases sorts
  | _ =>
      cases sorts

/-- Collecting powers collapses a product and leaves anything else alone. -/
theorem convertPowers?_linear
    (linear : node.IsLinear)
    (small : node.reading.weight < 2 ^ 53)
    {result : Expr}
    (collects :
      Transform.convertPowers? table table.construct node = some result) :
    result.Within node.reading := by
  cases linear with
  | @multiple factor operand factorSmall nonzero linear notLiteral =>
      rw [reading_multiple factorSmall] at small ⊢
      obtain ⟨factors, base, spine⟩ := exists_spine linear notLiteral
      rw [convertPowers?_multiple factorSmall nonzero spine
        (spine.natAbs_mul_prod_lt small)] at collects
      cases collects
      exact collapsed_within factorSmall nonzero linear notLiteral spine small
  | _ =>
      cases collects

theorem removeSubtraction?_linear
    (linear : node.IsLinear)
    (small : node.reading.weight < 2 ^ 53)
    {result : Expr}
    (removes :
      Transform.removeSubtraction? table table.construct node = some result) :
    result.Within node.reading := by
  cases linear with
  | difference lhsLinear rhsLinear notLiterals =>
      rw [reading_difference] at small ⊢
      obtain ⟨result', removed, below⟩ :=
        removeSubtraction?_difference lhsLinear rhsLinear small
      cases removes.symm.trans removed
      exact below.toWithin
  | _ =>
      cases removes

theorem mulOverAdd?_linear
    (linear : node.IsLinear)
    (small : node.reading.weight < 2 ^ 53)
    {result : Expr}
    (distributes :
      Transform.mulOverAdd? table table.construct node = some result) :
    result.Within node.reading := by
  cases linear with
  | @multiple factor operand factorSmall nonzero linear notLiteral =>
      rw [reading_multiple factorSmall] at small ⊢
      cases sum : operand.isApplyOf Operator.add with
      | true =>
          obtain ⟨result', distributed, below⟩ :=
            mulOverAdd?_multiple factorSmall linear sum small
          cases distributes.symm.trans distributed
          exact below.toWithin
      | false =>
          rw [mulOverAdd?_multiple_of_notSum linear sum] at distributes
          cases distributes
  | _ =>
      cases distributes

theorem foldAdditions?_linear
    (linear : node.IsLinear)
    (small : node.reading.weight < 2 ^ 53)
    {result : Expr}
    (folds :
      Transform.foldAdditions? table table.construct node = some result) :
    result.Within node.reading := by
  cases linear with
  | sum lhsLinear rhsLinear notLiterals =>
      rcases
        foldAdditions?_sum (.sum lhsLinear rhsLinear notLiterals) rfl small with
        ⟨result', folded, below⟩ | ⟨none, -⟩
      · cases folds.symm.trans folded
        exact below.toWithin
      · cases folds.symm.trans none
  | _ =>
      cases folds

theorem reassociate?_linear
    (linear : node.IsLinear)
    (small : node.reading.weight < 2 ^ 53)
    {result : Expr}
    (regroups :
      Transform.reassociate? table table.construct node = some result) :
    result.Within node.reading := by
  obtain ⟨flatLinear, flatSum⟩ := flatten_sum linear
  cases linear with
  | @sum lhs rhs lhsLinear rhsLinear notLiterals =>
      rcases
        reassociate?_sum (.sum lhsLinear rhsLinear notLiterals) rfl small with
        ⟨result', regrouped, below⟩ | ⟨-, sorts⟩
      · cases regroups.symm.trans regrouped
        exact below.toWithin
      · rw [sorts] at regroups
        split at regroups
        · cases regroups
        · have addUp :
              AddUp
                (Chain.flatten Operator.add (.apply Operator.add [lhs, rhs]))
                (Expr.apply Operator.add [lhs, rhs]).reading :=
            ⟨fun item member => (flatLinear item member).1, flatSum.le⟩
          obtain ⟨result', built, within⟩ :
              ∃ result,
                Chain.build table.construct Operator.add (sortCanonically _) =
                    .ok result ∧
                  result.Within _ :=
            addUp.exists_build_sorted
              (flatten_ne_nil_of_isLinear
                (.sum lhsLinear rhsLinear notLiterals))
              small
          rw [built] at regroups
          cases regroups
          exact within
  | @multiple factor operand factorSmall nonzero linear notLiteral =>
      rw [reading_multiple factorSmall] at small ⊢
      obtain ⟨factors, base, spine⟩ := exists_spine linear notLiteral
      rw [reassociate?_multiple factorSmall nonzero spine
        (spine.natAbs_mul_prod_lt small) regroups]
      exact collapsed_within factorSmall nonzero linear notLiteral spine small
  | _ =>
      cases regroups

/-- Every rule of the catalogue keeps a light linear expression within its reading. -/
theorem Rule.within_of_linear
    {rule : Rule}
    (member : rule ∈ catalogue)
    (linear : node.IsLinear)
    (small : node.reading.weight < 2 ^ 53)
    {result : Expr}
    (applies : rule.transform? table table.construct node = some result) :
    result.Within node.reading := by
  simp only [catalogue, List.mem_cons, List.not_mem_nil, or_false] at member
  rcases member with rfl | rfl | rfl | rfl | rfl | rfl | rfl | rfl | rfl | rfl |
    rfl | rfl
  · exact commutativeOrder?_linear linear applies
  · exact (stripIdentities?_linear linear applies).toWithin
  · cases (@evaluateNumeric?_linear table table.construct _ linear).symm.trans applies
  · exact convertPowers?_linear linear small applies
  · exact removeSubtraction?_linear linear small applies
  · exact mulOverAdd?_linear linear small applies
  · cases (@andOverOr?_linear table table.construct _ linear).symm.trans applies
  · cases (@cancelDivision?_linear table table.construct _ linear).symm.trans applies
  · exact foldAdditions?_linear linear small applies
  · cases (@absorbZero?_linear table table.construct _ linear).symm.trans applies
  · exact reassociate?_linear linear small applies
  · cases (@bitIdentities?_linear table table.construct _ linear).symm.trans applies

end Rules

/-! ## Rules one after the other -/

theorem Rule.result_within
    {rule : Rule}
    (member : rule ∈ catalogue)
    (table : SymbolTable)
    {node : Expr}
    (linear : node.IsLinear)
    (small : node.reading.weight < 2 ^ 53) :
    (Transform.result rule.transform? table node).Within node.reading := by
  unfold Transform.result
  cases applies : rule.transform? table table.construct node with
  | none =>
      exact linear.within
  | some result =>
      exact Rule.within_of_linear member linear small applies

section Visited

variable {table : SymbolTable} {rules : List Rule} {node : Expr}

/-- Rules of the catalogue keep a light linear expression within its reading. -/
theorem visited_within
    (fromCatalogue : rules ⊆ catalogue)
    {bound : Reading}
    (within : node.Within bound)
    (small : bound.weight < 2 ^ 53) :
    (visited table rules node).Within bound := by
  induction rules generalizing node with
  | nil =>
      exact within
  | cons rule rest inductionHypothesis =>
      obtain ⟨member, restFromCatalogue⟩ := List.cons_subset.mp fromCatalogue
      exact inductionHypothesis restFromCatalogue
        ((Rule.result_within member table within.linear
          (within.le.2.1.trans_lt small)).mono within.le)

theorem visited_below
    (fromCatalogue : rules ⊆ catalogue)
    {bound : Reading}
    (below : node.Below bound)
    (small : bound.weight < 2 ^ 53) :
    (visited table rules node).Below bound :=
  (visited_within fromCatalogue below.linear.within
    (below.le.2.1.trans_lt small)).below below.le below.cost_lt

end Visited

end SymbolicAlgebra
