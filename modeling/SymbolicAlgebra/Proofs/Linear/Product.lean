import SymbolicAlgebra.Factors
import SymbolicAlgebra.Proofs.Linear.Chain
import SymbolicAlgebra.Rule.Arithmetic

/-!
# Nested multiples

A product of a linear expression is a literal times a literal times … times a base that is no product.
Two rules collapse such a nest to one literal times the base: the one that collects powers, and the one
that regroups chains.
-/

namespace SymbolicAlgebra

open SymbolicAlgebra.Expr

/-- A linear expression is a nest of multiples, with these factors, of a base that is no product. -/
inductive Spine : (expr : Expr) → (factors : List Int) → (base : Expr) → Prop where
  | base
      {expr : Expr}
      (linear : expr.IsLinear)
      (notLiteral : expr.isNumber = false)
      (notProduct : expr.isApplyOf Operator.mul = false) :
      Spine expr [] expr
  | multiple
      {factor : Int}
      {factors : List Int}
      {expr base : Expr}
      (small : factor.natAbs < 2 ^ 53)
      (nonzero : factor ≠ 0)
      (spine : Spine expr factors base) :
      Spine (.apply Operator.mul [whole factor, expr]) (factor :: factors) base

/-- The product of a literal and a base, or the base itself for one. -/
def collapsed
    (factor : Int)
    (base : Expr) : Expr :=
  if factor = 1 then base else .apply Operator.mul [whole factor, base]

/-- Every linear expression other than a literal is a nest of multiples. -/
theorem exists_spine
    {expr : Expr}
    (linear : expr.IsLinear)
    (notLiteral : expr.isNumber = false) :
    ∃ factors base, Spine expr factors base := by
  induction linear with
  | literal small =>
      cases notLiteral
  | symbol name =>
      exact ⟨[], _, .base (.symbol name) rfl rfl⟩
  | sum lhsLinear rhsLinear notLiterals =>
      exact ⟨[], _, .base (.sum lhsLinear rhsLinear notLiterals) rfl rfl⟩
  | difference lhsLinear rhsLinear notLiterals =>
      exact ⟨[], _, .base (.difference lhsLinear rhsLinear notLiterals) rfl rfl⟩
  | multiple small nonzero linear operandNotLiteral inductionHypothesis =>
      obtain ⟨factors, base, spine⟩ := inductionHypothesis operandNotLiteral
      exact ⟨_, base, .multiple small nonzero spine⟩

namespace Spine

variable {expr base : Expr} {factors : List Int}

theorem base_linear
    (spine : Spine expr factors base) :
    base.IsLinear ∧ base.isNumber = false ∧
      base.isApplyOf Operator.mul = false := by
  induction spine with
  | base linear notLiteral notProduct =>
      exact ⟨linear, notLiteral, notProduct⟩
  | multiple small nonzero spine inductionHypothesis =>
      exact inductionHypothesis

theorem eq_base
    (spine : Spine expr factors base)
    (notProduct : expr.isApplyOf Operator.mul = false) :
    factors = [] ∧ base = expr := by
  cases spine with
  | base linear notLiteral notProduct =>
      exact ⟨rfl, rfl⟩
  | multiple small nonzero spine =>
      cases notProduct

theorem prod_ne_zero
    (spine : Spine expr factors base) :
    factors.prod ≠ 0 := by
  induction spine with
  | base linear notLiteral notProduct =>
      exact one_ne_zero
  | multiple small nonzero spine inductionHypothesis =>
      rw [List.prod_cons]
      exact mul_ne_zero nonzero inductionHypothesis

/-- The operands of the product chain are the factors and the base. -/
theorem flatten_eq
    (spine : Spine expr factors base) :
    Chain.flatten Operator.mul expr = factors.map whole ++ [base] := by
  induction spine with
  | base linear notLiteral notProduct =>
      exact Chain.flatten_of_not_isApplyOf notProduct
  | multiple small nonzero spine inductionHypothesis =>
      rw [Chain.flatten_apply, List.flatMap_cons, List.flatMap_cons,
        inductionHypothesis]
      simp [whole, Chain.flatten]

/-- A nest of multiples reads as one multiple of its base, and costs at least as much as one. -/
theorem reading_eq
    (spine : Spine expr factors base) :
    expr.reading.form = factors.prod • base.reading.form ∧
      expr.reading.weight = factors.prod.natAbs * base.reading.weight ∧
      (factors = [] ∧ base = expr ∨
        2 * base.reading.cost - 1 ≤ expr.reading.cost) := by
  induction spine with
  | base linear notLiteral notProduct =>
      simp
  | @multiple factor factors expr base small nonzero spine inductionHypothesis =>
      obtain ⟨form, weight, cost⟩ := inductionHypothesis
      rw [reading_multiple small, List.prod_cons]
      refine ⟨?_, ?_, .inr ?_⟩
      · rw [Reading.multiple_form, form, smul_smul]
      · rw [Reading.multiple_weight, weight, Int.natAbs_mul, Nat.mul_assoc]
      · rw [Reading.multiple_cost]
        rcases cost with ⟨-, rfl⟩ | cost
        · exact le_rfl
        · have := spine.base_linear.1.cost_pos.1
          omega

end Spine

/-! ## What the collapsed product is -/

section Collapsed

variable {factor : Int} {factors : List Int} {operand base : Expr}

/-- The factor of a collapsed product is small if the product is light. -/
theorem Spine.natAbs_mul_prod_lt
    (spine : Spine operand factors base)
    (light : (operand.reading.multiple factor).weight < 2 ^ 53) :
    (factor * factors.prod).natAbs < 2 ^ 53 := by
  obtain ⟨baseLinear, notLiteral, -⟩ := spine.base_linear
  have weight := (baseLinear.cost_pos.2 notLiteral).2
  rw [Reading.multiple_weight, spine.reading_eq.2.1, ← Nat.mul_assoc,
    ← Int.natAbs_mul] at light
  exact (Nat.le_mul_of_pos_right _ weight).trans_lt light

/-- A collapsed product is the product itself, or it is cheaper. -/
theorem collapsed_cases
    (nonzero : factor ≠ 0)
    (spine : Spine operand factors base)
    (light : (operand.reading.multiple factor).weight < 2 ^ 53) :
    operand.isApplyOf Operator.mul = false ∧ factor ≠ 1 ∧
        collapsed (factor * factors.prod) base =
          .apply Operator.mul [whole factor, operand] ∨
      (collapsed (factor * factors.prod) base).Below
        (operand.reading.multiple factor) := by
  obtain ⟨baseLinear, notLiteral, notProduct⟩ := spine.base_linear
  have cost := (baseLinear.cost_pos.2 notLiteral).1
  obtain ⟨form, sameWeight, cheaper⟩ := spine.reading_eq
  have product_ne_zero : factor * factors.prod ≠ 0 :=
    mul_ne_zero nonzero spine.prod_ne_zero
  have productSmall := spine.natAbs_mul_prod_lt light
  -- The base alone costs less than any of its multiples, one multiple less than two.
  have collapsedWithin :
      (collapsed (factor * factors.prod) base).Within
        ⟨factor • operand.reading.form,
          factor.natAbs * operand.reading.weight,
          if factor * factors.prod = 1 then
            base.reading.cost
          else
            2 * base.reading.cost - 1⟩ := by
    rw [form, sameWeight, smul_smul, ← Nat.mul_assoc, ← Int.natAbs_mul, collapsed]
    by_cases one : factor * factors.prod = 1
    · rw [if_pos one, if_pos one, one]
      exact baseLinear.within.mono ⟨(one_smul _ _).symm, by simp, le_rfl⟩
    · rw [if_neg one, if_neg one]
      refine ⟨.multiple productSmall product_ne_zero baseLinear notLiteral, ?_⟩
      rw [reading_multiple productSmall]
      exact ⟨rfl, le_rfl, le_rfl⟩
  by_cases product : operand.isApplyOf Operator.mul = true
  · have nested : 2 * base.reading.cost - 1 ≤ operand.reading.cost := by
      rcases cheaper with ⟨-, rfl⟩ | cheaper
      · rw [product] at notProduct
        cases notProduct
      · exact cheaper
    refine .inr (collapsedWithin.below ⟨rfl, le_rfl, ?_⟩ ?_) <;>
    · simp only [Reading.multiple_cost]
      split <;> omega
  · have notNested := Bool.eq_false_iff.mpr product
    obtain ⟨rfl, rfl⟩ := spine.eq_base notNested
    by_cases one : factor = 1
    · refine .inr (collapsedWithin.below ⟨rfl, le_rfl, ?_⟩ ?_) <;>
      · simp only [List.prod_nil, mul_one, one, if_true, Reading.multiple_cost]
        omega
    · refine .inl ⟨notNested, one, ?_⟩
      rw [List.prod_nil, mul_one, collapsed, if_neg one]

theorem collapsed_within
    (small : factor.natAbs < 2 ^ 53)
    (nonzero : factor ≠ 0)
    (linear : operand.IsLinear)
    (notLiteral : operand.isNumber = false)
    (spine : Spine operand factors base)
    (light : (operand.reading.multiple factor).weight < 2 ^ 53) :
    (collapsed (factor * factors.prod) base).Within
      (operand.reading.multiple factor) := by
  rcases collapsed_cases nonzero spine light with ⟨-, -, same⟩ | below
  · rw [same]
    refine ⟨.multiple small nonzero linear notLiteral, ?_⟩
    rw [reading_multiple small]
  · exact below.toWithin

end Collapsed

/-! ## Collecting powers -/

section Powers

variable {builder : Builder}

theorem power_one
    {value : Int}
    (small : value.natAbs < 2 ^ 53) :
    power (floatOfInt value) 1 = floatOfInt value := by
  rw [power, one_beq_zero, floatOfInt_beq_one small, Bool.false_or, one_beq_one]
  by_cases one : value = 1
  · subst one
    simp
  · simp [one]

/-- A base that is no product becomes a first power. -/
theorem collect?_base
    {base : Expr}
    (linear : base.IsLinear)
    (notLiteral : base.isNumber = false)
    (notProduct : base.isApplyOf Operator.mul = false)
    (coefficient : Float) :
    Factors.collect? builder ⟨coefficient, []⟩ base (.number 1) =
      some ⟨coefficient, [(base, .number 1)]⟩ := by
  cases linear with
  | literal small =>
      cases notLiteral
  | symbol name =>
      rfl
  | sum lhsLinear rhsLinear notLiterals =>
      rfl
  | difference lhsLinear rhsLinear notLiterals =>
      rfl
  | multiple small nonzero linear notLiteral =>
      cases notProduct

/-- The factors of a nest are multiplied exactly, and its base becomes a first power. -/
theorem Spine.collect?_eq
    {expr base : Expr}
    {factors : List Int}
    (spine : Spine expr factors base)
    {coefficient : Int}
    (nonzero : coefficient ≠ 0)
    (small : (coefficient * factors.prod).natAbs < 2 ^ 53) :
    Factors.collect? builder ⟨floatOfInt coefficient, []⟩ expr (.number 1) =
      some ⟨floatOfInt (coefficient * factors.prod),
        [(base, .number 1)]⟩ := by
  induction spine generalizing coefficient with
  | base linear notLiteral notProduct =>
      rw [List.prod_nil, mul_one]
      exact collect?_base linear notLiteral notProduct _
  | @multiple factor factors expr base factorSmall factorNonzero spine
      inductionHypothesis =>
      rw [List.prod_cons, ← mul_assoc] at small ⊢
      have productSmall : (coefficient * factor).natAbs < 2 ^ 53 := by
        rw [Int.natAbs_mul _ factors.prod] at small
        exact (Nat.le_mul_of_pos_right _
          (Int.natAbs_pos.mpr spine.prod_ne_zero)).trans_lt small
      have later :=
        inductionHypothesis (mul_ne_zero nonzero factorNonzero) small
      have pushed :
          Factors.collect? builder ⟨floatOfInt coefficient, []⟩ (whole factor)
              (.number 1) =
            some ⟨floatOfInt (coefficient * factor), []⟩ := by
        change some (⟨floatOfInt coefficient * power (floatOfInt factor) 1, []⟩ :
          Factors) = _
        rw [power_one factorSmall, floatOfInt_mul nonzero factorNonzero productSmall]
      simp only [Factors.collect?, Factors.collectArgs?, pushed, later, if_true]

variable {table : SymbolTable}

/-- A coefficient and one first power are rebuilt as a collapsed product. -/
theorem rebuild?_eq
    {factor : Int}
    {base : Expr}
    (small : factor.natAbs < 2 ^ 53)
    (nonzero : factor ≠ 0)
    (notLiteral : base.isNumber = false) :
    Factors.rebuild? table.construct
        ⟨floatOfInt factor, [(base, .number 1)]⟩ =
      some (collapsed factor base) := by
  have operands :
      Factors.operands? table.construct [(base, .number 1)] =
        some [base] := by
    simp [Factors.operands?, number?]
  simp only [Factors.rebuild?, floatOfInt_isFinite small,
    floatOfInt_beq_zero small, nonzero, operands, bne, floatOfInt_beq_one small,
    decide_false, Bool.not_true, Bool.false_eq_true, if_false,
    Option.bind_eq_bind, Option.bind_some, List.isEmpty_cons, Bool.or_false]
  by_cases one : factor = 1
  · simp [one, collapsed, sortCanonically, sortBy, insertDescending, Chain.build,
      Except.toOption]
  · have literal : ofFloat (floatOfInt factor) = whole factor :=
      ofInt_eq_number (fitsFloat_of_le (Nat.le_of_lt small))
    have sorted :
        sortCanonically [base, whole factor] = [whole factor, base] :=
      sortBy_pair_swap (canonicalCompare_number _ notLiteral)
    simp only [one, decide_false, Bool.not_false, if_true, literal,
      List.singleton_append, sorted, collapsed, if_false]
    simp only [Chain.build, ok_bind, construct_multiple_eq small nonzero
      notLiteral (.inl rfl)]
    rfl

/-- Collecting powers collapses a product. -/
theorem convertPowers?_multiple
    {factor : Int}
    {factors : List Int}
    {operand base : Expr}
    (factorSmall : factor.natAbs < 2 ^ 53)
    (nonzero : factor ≠ 0)
    (spine : Spine operand factors base)
    (small : (factor * factors.prod).natAbs < 2 ^ 53) :
    Transform.convertPowers? table table.construct
        (.apply Operator.mul [whole factor, operand]) =
      some (collapsed (factor * factors.prod) base) := by
  have product : Spine (.apply Operator.mul [whole factor, operand])
      (factor :: factors) base :=
    .multiple factorSmall nonzero spine
  have collected :
      Factors.of? table.construct (.apply Operator.mul [whole factor, operand]) =
        some ⟨floatOfInt (factor * factors.prod), [(base, .number 1)]⟩ := by
    have fromOne :
        Factors.collect? table.construct ⟨floatOfInt 1, []⟩ _ (.number 1) = _ :=
      product.collect?_eq one_ne_zero (by rwa [one_mul, List.prod_cons])
    rwa [one_mul, List.prod_cons, floatOfInt_one] at fromOne
  simp only [Transform.convertPowers?, isApplyOf, decide_true, Bool.true_or,
    if_true, collected, Option.bind_eq_bind, Option.bind_some]
  exact rebuild?_eq small (mul_ne_zero nonzero spine.prod_ne_zero)
    spine.base_linear.2.1

end Powers

/-! ## Regrouping -/

/-- Folding the factors of a nest multiplies them exactly. -/
theorem Spine.foldConstants?_eq
    {expr base : Expr}
    {factors : List Int}
    (spine : Spine expr factors base)
    (name : String)
    {total : Int}
    (nonzero : total ≠ 0)
    (small : (total * factors.prod).natAbs < 2 ^ 53) :
    Transform.foldConstants? productSpec name (whole total)
        (factors.map whole) =
      some (whole (total * factors.prod)) := by
  induction spine generalizing total with
  | base linear notLiteral notProduct =>
      rw [List.prod_nil, mul_one]
      rfl
  | @multiple factor factors expr base factorSmall factorNonzero spine
      inductionHypothesis =>
      rw [List.prod_cons, ← mul_assoc] at small ⊢
      have productSmall : (total * factor).natAbs < 2 ^ 53 := by
        rw [Int.natAbs_mul _ factors.prod] at small
        exact (Nat.le_mul_of_pos_right _
          (Int.natAbs_pos.mpr spine.prod_ne_zero)).trans_lt small
      have totalSmall : total.natAbs < 2 ^ 53 := by
        rw [Int.natAbs_mul] at productSmall
        exact (Nat.le_mul_of_pos_right _
          (Int.natAbs_pos.mpr factorNonzero)).trans_lt productSmall
      have evaluated :
          productSpec.evaluateLiterals? name [whole total, whole factor] =
            some (.ok (whole (total * factor))) :=
        evaluateLiterals?_product name totalSmall factorSmall productSmall
      rw [← inductionHypothesis (mul_ne_zero nonzero factorNonzero) small]
      simp only [List.map_cons, Transform.foldConstants?, evaluated,
        Option.bind_eq_bind, Option.bind_some, Except.toOption, isNumber_whole,
        if_true]

section ProductChain

variable {table : SymbolTable} {factor : Int} {factors : List Int}
  {operand base : Expr}

theorem literals?_multiple
    (nonzero : factor ≠ 0)
    (spine : Spine operand factors base)
    (product :
      Chain.flatten Operator.mul (.apply Operator.mul [whole factor, operand]) =
        (factor :: factors).map whole ++ [base])
    (small : (factor * factors.prod).natAbs < 2 ^ 53) :
    Transform.literals? productSpec Operator.mul
          (.apply Operator.mul [whole factor, operand]) =
        some [whole (factor * factors.prod)] ∧
      Transform.nonliterals Operator.mul
          (.apply Operator.mul [whole factor, operand]) =
        [base] := by
  have notLiteral := spine.base_linear.2.1
  have numbers :
      ((factor :: factors).map whole ++ [base]).filter isNumber =
        (factor :: factors).map whole := by
    rw [List.filter_append, List.filter_eq_self.mpr (by simp [isNumber_whole])]
    simp [notLiteral]
  have others :
      ((factor :: factors).map whole ++ [base]).filter (!·.isNumber) =
        [base] := by
    rw [List.filter_append, List.filter_eq_nil_iff.mpr (by simp [isNumber_whole])]
    simp [notLiteral]
  rw [Transform.literals?, Transform.nonliterals, product]
  refine ⟨?_, others⟩
  change Transform.foldedConstants? productSpec _ (List.filter isNumber _) = _
  rw [numbers]
  have folded :=
    spine.foldConstants?_eq (Operator.mul.symbol?.getD "") nonzero small
  cases factors with
  | nil =>
      simp [Transform.foldedConstants?]
  | cons next rest =>
      change Option.map _ (Transform.foldConstants? productSpec _ (whole factor)
        ((next :: rest).map whole)) = _
      rw [folded]
      rfl

/-- Regrouping a product collapses it or leaves it as it is. -/
theorem reassociate?_multiple
    (factorSmall : factor.natAbs < 2 ^ 53)
    (nonzero : factor ≠ 0)
    (spine : Spine operand factors base)
    (small : (factor * factors.prod).natAbs < 2 ^ 53)
    {replacement : Expr}
    (regrouped :
      Transform.reassociate? table table.construct
          (.apply Operator.mul [whole factor, operand]) =
        some replacement) :
    replacement = collapsed (factor * factors.prod) base := by
  have productNonzero : factor * factors.prod ≠ 0 :=
    mul_ne_zero nonzero spine.prod_ne_zero
  have notLiteral := spine.base_linear.2.1
  have product := (Spine.multiple factorSmall nonzero spine).flatten_eq
  obtain ⟨literals, others⟩ := literals?_multiple nonzero spine product small
  have unabsorbed :
      Transform.absorbing? productSpec [whole (factor * factors.prod)] = none := by
    apply Transform.absorbing?_eq_none
    intro value declared same
    rw [zero_product] at declared
    cases declared
    exact productNonzero
      (whole_injective small (by decide) (List.singleton_inj.mp same))
  have identity :=
    isIdentity_whole (by decide) small effectiveIdentity_product
  rw [Transform.reassociate?_eq table.specOf?_mul rfl rfl,
    Transform.regrouping?_of_literals? literals unabsorbed] at regrouped
  simp only [others, Transform.keptLiterals, identity, List.isEmpty_cons,
    Bool.not_false, Bool.and_true, decide_eq_true_eq] at regrouped
  obtain ⟨regrouping, found, built⟩ := Option.bind_eq_some_iff.mp regrouped
  obtain rfl := Transform.eq_rebuilt_of_rebuilding? found
  by_cases unit : factor * factors.prod = 1
  · rw [if_pos unit] at built
    rw [collapsed, if_pos unit]
    exact (Option.some.inj built).symm
  · rw [if_neg unit] at built
    have order :
        sortCanonically ([whole (factor * factors.prod)] ++ [base]) =
          [whole (factor * factors.prod), base] := by
      apply sortBy_pair
      rw [canonicalCompare_swap, whole, canonicalCompare_number _ notLiteral]
      decide
    rw [order] at built
    simp only [Regrouping.build?, Chain.build, ok_bind,
      construct_multiple_eq small productNonzero notLiteral (.inl rfl)] at built
    rw [collapsed, if_neg unit]
    exact (Option.some.inj built).symm

end ProductChain

end SymbolicAlgebra
