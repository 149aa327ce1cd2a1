import SymbolicAlgebra.Proofs.Monotone.Expansion

/-!
# Simplifying monotone expressions

A pass over a disjunction of products expands every one of them.  So simplification ends, if it ends in
time, with the polynomial of the same monomials, and the number of passes that it needs is known up to one.
-/

namespace SymbolicAlgebra

open SymbolicAlgebra.Expr
open scoped FinsetFamily

section Simplification

variable {table : SymbolTable} {expr next lhs rhs : Expr}

/-! ## A pass -/

/-- A pass over a product expands it. -/
theorem Expr.IsProduct.exists_pass
    (isProduct : expr.IsProduct)
    (table : SymbolTable) :
    ∃ next, pass table catalogue expr = .ok next ∧ Expands expr next := by
  cases isProduct with
  | symbol name =>
      have isMonomial := isMonomial_symbol name
      refine ⟨.symbol name, pass_leaf rfl, ?_⟩
      refine
        { isSum := isMonomial.isProduct.1.isSum
          monomials_eq := rfl
          within_iff := ?_
          isPolynomial := fun _ => isMonomial.isPolynomial }
      intro count
      rw [distributesWithin_of_not_isApplyOf rfl,
        distributesWithin_of_not_isApplyOf rfl]
      exact ⟨fun _ => Nat.zero_le _, fun _ => Nat.zero_le _⟩
  | @conjunction lhs rhs lhsPolynomial rhsPolynomial =>
      obtain ⟨node, shape, passes⟩ :=
        exists_pass_pair rfl (lhsPolynomial.pass_eq table)
          (rhsPolynomial.pass_eq table)
          (construct_conjunction table lhsPolynomial rhsPolynomial)
      refine ⟨_, passes, ?_⟩
      have visits :
          visited table catalogue node =
            visited table catalogue.tail
              (Transform.commutativeOrder?.result table node) :=
        rfl
      have stored :
          Transform.commutativeOrder?.result table node =
              .apply Operator.bitAnd [lhs, rhs] ∨
            Transform.commutativeOrder?.result table node =
              .apply Operator.bitAnd [rhs, lhs] := by
        have inOrder :=
          result_commutativeOrder
            (construct_conjunction table lhsPolynomial rhsPolynomial)
        have swapped :=
          result_commutativeOrder
            (construct_conjunction table rhsPolynomial lhsPolynomial)
        rcases shape with rfl | rfl
        · exact inOrder
        · rcases sortBy_pair_cases (operandCompare Operator.bitAnd) lhs rhs with
            same | other
          · rw [same]
            exact inOrder
          · rw [other]
            exact swapped.symm
      have product := isProductOf_conjunction lhsPolynomial rhsPolynomial
      rw [visits]
      rcases stored with same | swapped
      · rw [same]
        exact expands_visited_tail table lhsPolynomial rhsPolynomial
      · rw [swapped]
        exact (expands_visited_tail table rhsPolynomial lhsPolynomial).of_product
          (isProductOf_conjunction rhsPolynomial lhsPolynomial) product.symm

section CanonicalChain

variable {expand : Expr → Expr}
  (combines : Combines Operator.bitOr IsProduct expr)
  (each : ∀ item ∈ Chain.flatten Operator.bitOr expr, Expands item (expand item))
  (canonical :
    IsCanonicalChain Operator.bitOr IsProduct true
      ((Chain.flatten Operator.bitOr expr).flatMap fun item =>
        Chain.flatten Operator.bitOr (expand item)) next)

include combines each canonical

/-- The chain of what products expand to has the monomials of all of them. -/
theorem monomials_eq_of_canonicalChain :
    next.monomials = expr.monomials := by
  have parts
      {item : Expr}
      {names : Finset String}
      (member : item ∈ Chain.flatten Operator.bitOr expr) :
      (∃ part ∈ Chain.flatten Operator.bitOr (expand item),
          names ∈ part.monomials) ↔
        names ∈ item.monomials := by
    have expands := each item member
    rw [← mem_monomials_iff expands.isSum.combines IsProduct.isApplyOf_eq_false,
      expands.monomials_eq]
  ext names
  rw [mem_monomials_of_canonicalChain canonical,
    mem_monomials_iff combines IsProduct.isApplyOf_eq_false]
  constructor
  · rintro ⟨part, inParts, inPart⟩
    obtain ⟨item, member, isPart⟩ := List.mem_flatMap.mp inParts
    exact ⟨item, member, (parts member).mp ⟨part, isPart, inPart⟩⟩
  · rintro ⟨item, member, inItem⟩
    obtain ⟨part, isPart, inPart⟩ := (parts member).mpr inItem
    exact ⟨part, List.mem_flatMap.mpr ⟨item, member, isPart⟩, inPart⟩

/-- If there is nothing to distribute, the chain of what products expand to is a polynomial. -/
theorem isPolynomial_of_canonicalChain
    (nothing : expr.DistributesWithin 0) :
    next.IsPolynomial := by
  have monomials :
      ∀ part ∈ Chain.flatten Operator.bitOr next, part.IsMonomial := by
    intro part member
    rw [canonical.isChain.flatten_eq, mem_canonicalOperands] at member
    obtain ⟨item, inExpr, isPart⟩ := List.mem_flatMap.mp member
    have isProduct :=
      combines.kind_of_mem_flatten IsProduct.isApplyOf_eq_false inExpr
    have isPolynomial :=
      (each item inExpr).isPolynomial
        ((distributesWithin_of_not_isApplyOf isProduct.isApplyOf_eq_false).mpr
          (nothing item inExpr))
    exact isPolynomial.isMonomial_of_mem isPart
  have isSum :=
    (regroups_products {}).isCanonical_of_isCanonicalChain canonical
  exact ⟨isSum.combines.of_flatten IsProduct.isApplyOf_eq_false monomials,
    isSum.isChain⟩

/-- The chain of what products expand to expands their disjunction. -/
theorem expands_of_canonicalChain :
    Expands expr next where
  isSum :=
    (regroups_products {}).isCanonical_of_isCanonicalChain canonical
  monomials_eq :=
    monomials_eq_of_canonicalChain combines each canonical
  within_iff := by
    intro count
    rw [distributesWithin_iff canonical, List.forall_mem_flatMap]
    refine forall₂_congr fun item member => ?_
    have isProduct :=
      combines.kind_of_mem_flatten IsProduct.isApplyOf_eq_false member
    rw [← distributesWithin_of_not_isApplyOf isProduct.isApplyOf_eq_false]
    exact (each item member).within_iff count
  isPolynomial :=
    isPolynomial_of_canonicalChain combines each canonical

end CanonicalChain

/-- A pass over a disjunction of products expands all of them. -/
theorem exists_pass_of_products
    (table : SymbolTable)
    (combines : Combines Operator.bitOr IsProduct expr) :
    ∃ next, pass table catalogue expr = .ok next ∧ Expands expr next := by
  have each
      (item : Expr)
      (member : item ∈ Chain.flatten Operator.bitOr expr) :
      Expands item (passed table item) := by
    have isProduct :=
      combines.kind_of_mem_flatten IsProduct.isApplyOf_eq_false member
    obtain ⟨next, passes, expands⟩ := isProduct.exists_pass table
    exact passed_eq passes ▸ expands
  obtain ⟨next, passes, canonical⟩ :=
    (regroups_products table).exists_pass
      (fun item isProduct => by
        obtain ⟨next, passes, expands⟩ := isProduct.exists_pass table
        exact ⟨next, passes, expands.isSum⟩)
      combines
  exact ⟨next, passes, expands_of_canonicalChain combines each canonical⟩

/-! ## Repeated passes -/

/-- There is a bound on the passes in which products are distributed. -/
theorem exists_distributesWithin
    (expr : Expr) :
    ∃ count, expr.DistributesWithin count := by
  refine ⟨(Chain.flatten Operator.bitOr expr).toFinset.sup distributions, ?_⟩
  intro item member
  exact Finset.le_sup (List.mem_toFinset.mpr member)

/-- A fixed point is a polynomial: nothing can be left to distribute. -/
theorem isPolynomial_of_fixed
    (expands : Expands expr expr) :
    expr.IsPolynomial := by
  have fewer
      (count : Nat)
      (within : expr.DistributesWithin count) :
      expr.DistributesWithin 0 := by
    induction count with
    | zero =>
        exact within
    | succ count inductionHypothesis =>
        exact inductionHypothesis ((expands.within_iff count).mpr within)
  obtain ⟨count, within⟩ := exists_distributesWithin expr
  exact expands.isPolynomial (fewer count within)

/-- Passes over products end with the polynomial of their monomials. -/
theorem isPolynomial_of_settle?
    (combines : Combines Operator.bitOr IsProduct expr)
    {done ceiling : Nat}
    {settled : Expr × Nat}
    (outcome :
      settle? (pass table catalogue) done expr ceiling = .ok (some settled)) :
    settled.1.IsPolynomial ∧ settled.1.monomials = expr.monomials := by
  induction ceiling generalizing expr done with
  | zero =>
      cases outcome
  | succ ceiling inductionHypothesis =>
      obtain ⟨next, passes, expands⟩ := exists_pass_of_products table combines
      rw [settle?, passes, ok_bind] at outcome
      split at outcome
      · rename_i fixed
        subst fixed
        cases outcome
        exact ⟨isPolynomial_of_fixed expands, rfl⟩
      · obtain ⟨isPolynomial, monomials⟩ :=
          inductionHypothesis expands.isSum.combines outcome
        exact ⟨isPolynomial, monomials.trans expands.monomials_eq⟩

/-- Two passes more than there are distributions are enough. -/
theorem exists_settle?
    (combines : Combines Operator.bitOr IsProduct expr)
    {count done ceiling : Nat}
    (within : expr.DistributesWithin count)
    (enough : count + 2 ≤ ceiling) :
    ∃ settled,
      settle? (pass table catalogue) done expr ceiling = .ok (some settled) := by
  induction count generalizing expr done ceiling with
  | zero =>
      obtain ⟨ceiling, rfl⟩ : ∃ fewer, ceiling = fewer + 2 :=
        ⟨ceiling - 2, by omega⟩
      obtain ⟨next, passes, expands⟩ := exists_pass_of_products table combines
      have fixed := (expands.isPolynomial within).pass_eq table
      rw [settle?, passes, ok_bind]
      split
      · exact ⟨_, rfl⟩
      · rw [settle?, fixed, ok_bind, if_pos rfl]
        exact ⟨_, rfl⟩
  | succ count inductionHypothesis =>
      obtain ⟨ceiling, rfl⟩ : ∃ fewer, ceiling = fewer + 1 :=
        ⟨ceiling - 1, by omega⟩
      obtain ⟨next, passes, expands⟩ := exists_pass_of_products table combines
      rw [settle?, passes, ok_bind]
      split
      · exact ⟨_, rfl⟩
      · exact inductionHypothesis expands.isSum.combines
          ((expands.within_iff count).mpr within) (by omega)

/-- Every pass that distributes changes something, so the passes do not end before. -/
theorem settle?_eq_none
    (combines : Combines Operator.bitOr IsProduct expr)
    {done ceiling : Nat}
    (ahead : ∀ count, expr.DistributesWithin count → ceiling ≤ count) :
    settle? (pass table catalogue) done expr ceiling = .ok none := by
  induction ceiling generalizing expr done with
  | zero =>
      rfl
  | succ ceiling inductionHypothesis =>
      obtain ⟨next, passes, expands⟩ := exists_pass_of_products table combines
      rw [settle?, passes, ok_bind]
      split
      · rename_i fixed
        subst fixed
        have nothing : next.DistributesWithin 0 := by
          have isPolynomial := isPolynomial_of_fixed expands
          intro item member
          exact (isPolynomial.isMonomial_of_mem member).isProduct.2.le
        exact absurd (ahead 0 nothing) (Nat.not_succ_le_zero ceiling)
      · apply inductionHypothesis expands.isSum.combines
        intro count within
        exact Nat.le_of_succ_le_succ
          (ahead (count + 1) ((expands.within_iff count).mp within))

end Simplification

end SymbolicAlgebra
