import SymbolicAlgebra.Proofs.Powers.Visit

/-!
# Simplifying products of powers

A pass collects an expression of products and powers, so the collected form is a fixed point.  Applying product
or power to collected forms gives the collected form of the product or the power, and a literal zero where its
coefficient is zero.
-/

namespace SymbolicAlgebra

open SymbolicAlgebra.Expr

section Pass

variable {values : String → Int} {workspace : Workspace} {expr : Expr}
  {product : PowerProduct}

/-- A pass collects an expression of products and powers. -/
theorem Expr.IsPowerProduct.exists_pass
    (isProduct : expr.IsPowerProduct values product)
    (table : SymbolTable) :
    ∃ result, pass table catalogue expr = .ok result ∧ result.IsCollected product := by
  have visits
      {node : Expr}
      {part : PowerProduct}
      (isPart : node.IsPowerProduct values part) :
      (visited table catalogue node).IsCollected part :=
    isPart.isCollected_visited table
  have leaf
      {node : Expr}
      {part : PowerProduct}
      (isPart : node.IsPowerProduct values part)
      (isLeaf : node.isLeaf = true) :
      ∃ result, pass table catalogue node = .ok result ∧ result.IsCollected part := by
    have isCollected := visits isPart
    rw [visited_leaf isLeaf] at isCollected
    exact ⟨node, pass_leaf isLeaf, isCollected⟩
  induction isProduct with
  | literal nonzero fits =>
      exact leaf (.literal nonzero fits) rfl
  | symbol fits =>
      exact leaf (.symbol fits) rfl
  | @product lhs rhs first second lhsProduct rhsProduct fits lhsHypothesis
      rhsHypothesis =>
      obtain ⟨lhs', lhsPassed, lhsCollected⟩ := lhsHypothesis
      obtain ⟨rhs', rhsPassed, rhsCollected⟩ := rhsHypothesis
      have lhsProduct' := lhsCollected.isPowerProduct lhsProduct.fits
      have rhsProduct' := rhsCollected.isPowerProduct rhsProduct.fits
      obtain ⟨built, construction, builtProduct⟩ :=
        lhsProduct'.exists_construct table rhsProduct' fits
      obtain ⟨node, rfl | rfl, passes⟩ :=
        exists_pass_pair rfl lhsPassed rhsPassed construction
      · exact ⟨_, passes, visits (.product lhsProduct' rhsProduct' fits)⟩
      · exact ⟨_, passes, visits builtProduct⟩
  | @power base part count baseProduct symbolic small fits baseHypothesis =>
      obtain ⟨base', basePassed, baseCollected⟩ := baseHypothesis
      have baseProduct' := baseCollected.isPowerProduct baseProduct.fits
      have countPassed :
          pass table catalogue (whole count) = .ok (whole count) :=
        pass_leaf rfl
      obtain ⟨node, rfl | rfl, passes⟩ :=
        exists_pass_pair rfl basePassed countPassed
          (baseProduct'.construct_power table symbolic (whole count))
      · exact ⟨_, passes, visits (.power baseProduct' symbolic small fits)⟩
      · exact ⟨_, passes, visits (.power baseProduct' symbolic small fits)⟩

/-- Collected products are fixed points. -/
theorem Expr.IsCollected.pass_eq
    (isCollected : expr.IsCollected product)
    (fits : product.Fits values)
    (table : SymbolTable) :
    pass table catalogue expr = .ok expr := by
  obtain ⟨result, passes, resultCollected⟩ :=
    (isCollected.isPowerProduct fits).exists_pass table
  rw [passes, resultCollected.unique isCollected]

/-- What is built of products and powers is simplified to the collected product. -/
theorem Expr.IsPowerProduct.exists_apply
    (isProduct : expr.IsPowerProduct values product)
    (enough : 2 ≤ workspace.ceiling)
    {head : Expr}
    {args : List Expr}
    (construction : workspace.table.construct head args = .ok expr) :
    ∃ result, workspace.apply head args = .ok result ∧ result.IsCollected product := by
  obtain ⟨result, passes, isCollected⟩ := isProduct.exists_pass workspace.table
  cases leaf : expr.isLeaf with
  | true =>
      have same : result = expr :=
        Except.ok.inj (passes.symm.trans (pass_leaf leaf))
      refine ⟨expr, ?_, same ▸ isCollected⟩
      rw [Workspace.apply, construction, ok_bind, if_pos leaf]
      rfl
  | false =>
      refine ⟨result, ?_, isCollected⟩
      rw [apply_eq_simplify construction leaf]
      exact simplify_of_pass enough passes
        (isCollected.pass_eq isProduct.fits workspace.table)

end Pass

/-! ## Normal forms -/

/-- The collected product, or a literal zero if the coefficient is zero. -/
inductive Expr.IsReducedTo
    (product : PowerProduct) : Expr → Prop where
  | zero
      (isZero : product.coefficient = 0) :
      IsReducedTo product (whole 0)
  | collected
      {expr : Expr}
      (isCollected : expr.IsCollected product) :
      IsReducedTo product expr

section Normal

variable {values : String → Int} {workspace : Workspace} {lhs rhs base : Expr}
  {product first second : PowerProduct} {count : Nat}

theorem apply_whole
    {head : Expr}
    {args : List Expr}
    {number : Int}
    (construction : workspace.table.construct head args = .ok (whole number)) :
    workspace.apply head args = .ok (whole number) := by
  rw [Workspace.apply, construction, ok_bind]
  rfl

namespace Expr.IsReducedTo

theorem literal
    (number : Int) :
    (whole number).IsReducedTo (.literal number) := by
  by_cases isZero : number = 0
  · subst isZero
    exact .zero rfl
  · exact .collected (isCollected_literal isZero)

/-- A literal among the normal forms is the coefficient. -/
theorem exists_literal
    (isReduced : base.IsReducedTo product)
    (fits : product.Fits values)
    (isNumber : base.isNumber = true) :
    ∃ number : Int, base = whole number ∧ number.natAbs < 2 ^ 53 := by
  cases isReduced with
  | zero isZero =>
      exact ⟨0, rfl, by decide⟩
  | collected isCollected =>
      obtain ⟨number, same, -, -, small⟩ :=
        (isCollected.isPowerProduct fits).exists_literal isNumber
      exact ⟨number, same, small⟩

/-- The product with a literal zero is zero. -/
theorem construct_zero
    (isReduced : base.IsReducedTo product)
    (fits : product.Fits values)
    (table : SymbolTable) :
    table.construct Operator.mul [whole 0, base] = .ok (whole 0) ∧
      table.construct Operator.mul [base, whole 0] = .ok (whole 0) := by
  cases literal : base.isNumber with
  | true =>
      obtain ⟨number, rfl, small⟩ := isReduced.exists_literal fits literal
      constructor
      · have evaluated :
            productSpec.evaluateLiterals? "*" [whole 0, whole number] =
              some (.ok (whole (0 * number))) :=
          evaluateLiterals?_product _ (by decide) small (by simp)
        rw [Int.zero_mul] at evaluated
        exact construct_evaluated table.specOf?_mul (List.cons_ne_nil _ _) evaluated
      · have evaluated :
            productSpec.evaluateLiterals? "*" [whole number, whole 0] =
              some (.ok (whole (number * 0))) :=
          evaluateLiterals?_product _ small (by decide) (by simp)
        rw [Int.mul_zero] at evaluated
        exact construct_evaluated table.specOf?_mul (List.cons_ne_nil _ _) evaluated
  | false =>
      exact ⟨construct_zero_eq literal (.inl rfl), construct_zero_eq literal (.inr rfl)⟩

/-- Applying product to normal forms gives the normal form of the product. -/
theorem exists_apply_product
    (lhsReduced : lhs.IsReducedTo first)
    (rhsReduced : rhs.IsReducedTo second)
    (enough : 2 ≤ workspace.ceiling)
    (lhsFits : first.Fits values)
    (rhsFits : second.Fits values)
    (fits : (first * second).Fits values) :
    ∃ result,
      workspace.apply Operator.mul [lhs, rhs] = .ok result ∧
        result.IsReducedTo (first * second) := by
  cases lhsReduced with
  | zero isZero =>
      refine ⟨whole 0, apply_whole (rhsReduced.construct_zero rhsFits _).1, .zero ?_⟩
      rw [PowerProduct.coefficient_mul, isZero, Int.zero_mul]
  | collected lhsCollected =>
    cases rhsReduced with
    | zero isZero =>
        have lhsReduced : lhs.IsReducedTo first := .collected lhsCollected
        refine ⟨whole 0, apply_whole (lhsReduced.construct_zero lhsFits _).2, .zero ?_⟩
        rw [PowerProduct.coefficient_mul, isZero, Int.mul_zero]
    | collected rhsCollected =>
        obtain ⟨raw, construction, isProduct⟩ :=
          (lhsCollected.isPowerProduct lhsFits).exists_construct workspace.table
            (rhsCollected.isPowerProduct rhsFits) fits
        obtain ⟨result, applied, isCollected⟩ :=
          isProduct.exists_apply enough construction
        exact ⟨result, applied, .collected isCollected⟩

/-- Raising the literal of an integer evaluates it. -/
theorem construct_power_whole
    {number : Int}
    (table : SymbolTable)
    (numberSmall : number.natAbs < 2 ^ 53)
    (countSmall : count < 2 ^ 53)
    (small : (number ^ count).natAbs < 2 ^ 53) :
    table.construct Operator.pow [whole number, whole count] =
      .ok (whole (number ^ count)) :=
  construct_evaluated table.specOf?_pow (List.cons_ne_nil _ _)
    (evaluateLiterals?_power _ numberSmall countSmall small)

/-- Applying power to a normal form and a natural number gives the normal form of the power. -/
theorem exists_apply_power
    (isReduced : base.IsReducedTo product)
    (enough : 2 ≤ workspace.ceiling)
    (baseFits : product.Fits values)
    (small : count < 2 ^ 53)
    (fits : (product ^ count).Fits values) :
    ∃ result,
      workspace.apply Operator.pow [base, whole count] = .ok result ∧
        result.IsReducedTo (product ^ count) := by
  have collects
      {raw : Expr}
      (isProduct : raw.IsPowerProduct values (product ^ count))
      (construction :
        workspace.table.construct Operator.pow [base, whole count] = .ok raw) :
      ∃ result,
        workspace.apply Operator.pow [base, whole count] = .ok result ∧
          result.IsReducedTo (product ^ count) := by
    obtain ⟨result, applied, isCollected⟩ :=
      isProduct.exists_apply enough construction
    exact ⟨result, applied, .collected isCollected⟩
  cases isReduced with
  | zero isZero =>
      have coefficient : (product ^ count).coefficient = 0 ^ count := by
        rw [PowerProduct.coefficient_pow, isZero]
      have zeroSmall : ((0 : Int) ^ count).natAbs < 2 ^ 53 :=
        coefficient ▸ fits.coefficient_lt
      have construction :=
        construct_power_whole workspace.table (by decide) small zeroSmall
      rcases Nat.eq_zero_or_pos count with rfl | positive
      · rw [pow_zero] at construction fits
        exact collects (pow_zero product ▸ .literal one_ne_zero fits) construction
      · rw [zero_pow (Nat.ne_of_gt positive)] at construction coefficient
        exact ⟨whole 0, apply_whole construction, .zero coefficient⟩
  | collected isCollected =>
      have isProduct := isCollected.isPowerProduct baseFits
      cases literal : base.isNumber with
      | true =>
          obtain ⟨number, rfl, rfl, nonzero, numberSmall⟩ :=
            isProduct.exists_literal literal
          rw [PowerProduct.literal_pow] at fits collects ⊢
          exact collects (.literal (pow_ne_zero count nonzero) fits)
            (construct_power_whole workspace.table numberSmall small fits.coefficient_lt)
      | false =>
          have symbolic := isCollected.symbols_ne_zero literal
          exact collects (.power isProduct symbolic small fits)
            (isProduct.construct_power workspace.table symbolic (whole count))

end Expr.IsReducedTo

end Normal

end SymbolicAlgebra
