import SymbolicAlgebra.Proofs.Monotone.Normal

/-!
# Multiplying out

A conjunction of two polynomials is distributed over one operand of a disjunction in each pass, so it
takes as many passes as the two have operands beyond the first.  All the while the disjunction of the
parts keeps its monomials, and when nothing is left to be distributed the next pass makes a polynomial.
-/

namespace SymbolicAlgebra

open SymbolicAlgebra.Expr
open scoped FinsetFamily

namespace Expr

/-- A symbol, or a conjunction of polynomials. -/
inductive IsProduct : Expr → Prop where
  | symbol
      (name : String) :
      IsProduct (.symbol name)
  | conjunction
      {lhs rhs : Expr}
      (lhsPolynomial : lhs.IsPolynomial)
      (rhsPolynomial : rhs.IsPolynomial) :
      IsProduct (.apply Operator.bitAnd [lhs, rhs])

/-- The canonical disjunction of products. -/
def IsSum
    (expr : Expr) : Prop :=
  IsCanonical Operator.bitOr IsProduct true expr

/-- The number of operands of a disjunction. -/
def alternatives
    (expr : Expr) : Nat :=
  (Chain.flatten Operator.bitOr expr).length

/-- The number of passes that a conjunction is distributed in. -/
def distributions : Expr → Nat
  | apply head [lhs, rhs] =>
    if head = Operator.bitAnd then
      lhs.alternatives - 1 + (rhs.alternatives - 1)
    else
      0
  | _ => 0

/-- No operand of the disjunction is distributed in more than a number of passes. -/
def DistributesWithin
    (count : Nat)
    (expr : Expr) : Prop :=
  ∀ item ∈ Chain.flatten Operator.bitOr expr, item.distributions ≤ count

end Expr

/-- What a pass makes of products: a sum of the same monomials, with one distribution less to go. -/
structure Expands
    (source next : Expr) : Prop where
  isSum :
    next.IsSum
  monomials_eq :
    next.monomials = source.monomials
  within_iff :
    ∀ count,
      next.DistributesWithin count ↔ source.DistributesWithin (count + 1)
  isPolynomial :
    source.DistributesWithin 0 → next.IsPolynomial

section Expansion

variable {table : SymbolTable} {expr expr' lhs rhs first second factor : Expr}

/-! ## Products -/

theorem distributions_conjunction
    (lhs rhs : Expr) :
    (Expr.apply Operator.bitAnd [lhs, rhs]).distributions =
      lhs.alternatives - 1 + (rhs.alternatives - 1) := by
  simp only [distributions, if_true]

theorem alternatives_disjunction
    (lhs rhs : Expr) :
    (Expr.apply Operator.bitOr [lhs, rhs]).alternatives =
      lhs.alternatives + rhs.alternatives := by
  rw [alternatives, Chain.flatten_pair, List.length_append]
  rfl

theorem alternatives_of_not_isApplyOf
    (other : expr.isApplyOf Operator.bitOr = false) :
    expr.alternatives = 1 := by
  rw [alternatives, Chain.flatten_of_not_isApplyOf other]
  rfl

theorem distributesWithin_of_not_isApplyOf
    {count : Nat}
    (other : expr.isApplyOf Operator.bitOr = false) :
    expr.DistributesWithin count ↔ expr.distributions ≤ count := by
  rw [DistributesWithin, Chain.flatten_of_not_isApplyOf other,
    List.forall_mem_singleton]

theorem Expr.IsPolynomial.alternatives_pos
    (isPolynomial : expr.IsPolynomial) :
    0 < expr.alternatives :=
  List.length_pos_of_ne_nil
    ((regroups_monomials {}).flatten_ne_nil_of_combines isPolynomial.combines)

namespace Expr.IsProduct

theorem isNumber_eq_false
    (isProduct : expr.IsProduct) :
    expr.isNumber = false := by
  cases isProduct <;> rfl

theorem isApplyOf_eq_false
    (isProduct : expr.IsProduct) :
    expr.isApplyOf Operator.bitOr = false := by
  cases isProduct <;> rfl

theorem plainlyNamed
    (isProduct : expr.IsProduct) :
    expr.PlainlyNamed := by
  cases isProduct with
  | symbol name =>
      exact (isMonomial_symbol name).plainlyNamed
  | conjunction lhsPolynomial rhsPolynomial =>
      have combines :
          Combines BitOperator.conjunction.symbol PlainlyNamed _ :=
        .node (.operand lhsPolynomial.plainlyNamed)
          (.operand rhsPolynomial.plainlyNamed)
      exact BitOperator.plainlyNamed_of_combines id combines

end Expr.IsProduct

/-- Disjunction regroups products. -/
theorem regroups_products
    (table : SymbolTable) :
    Regroups table Operator.bitOr IsProduct true := by
  have regroups :
      Regroups table BitOperator.disjunction.symbol IsProduct true :=
    BitOperator.disjunction.regroups table (by decide)
      IsProduct.isNumber_eq_false IsProduct.plainlyNamed
      IsProduct.isApplyOf_eq_false nofun
  exact regroups

theorem Expr.IsProduct.isSum
    (isProduct : expr.IsProduct) :
    expr.IsSum :=
  (regroups_products {}).isCanonical_of_isCanonicalChain
    ((regroups_products {}).canonicalChain_operand isProduct)

/-- A monomial is a product in which nothing can be distributed. -/
theorem Expr.IsMonomial.isProduct
    (isMonomial : expr.IsMonomial) :
    expr.IsProduct ∧ expr.distributions = 0 := by
  cases isMonomial.combines with
  | operand isSymbol =>
      obtain ⟨name, rfl⟩ := isSymbol
      exact ⟨.symbol name, rfl⟩
  | node lhsCombines rhsCombines =>
      obtain ⟨⟨name, rfl⟩, rhsCanonical⟩ :=
        (regroups_symbols {}).parts_of_isCanonical isMonomial
      have lhsMonomial := isMonomial_symbol name
      have rhsMonomial : IsMonomial _ := rhsCanonical
      refine ⟨.conjunction lhsMonomial.isPolynomial rhsMonomial.isPolynomial, ?_⟩
      rw [distributions_conjunction,
        alternatives_of_not_isApplyOf lhsMonomial.isApplyOf_eq_false,
        alternatives_of_not_isApplyOf rhsMonomial.isApplyOf_eq_false]

/-- The product of two polynomials, in either order. -/
structure IsProductOf
    (lhs rhs expr : Expr) : Prop where
  isProduct :
    expr.IsProduct
  monomials_eq :
    expr.monomials = lhs.monomials ⊻ rhs.monomials
  distributions_eq :
    expr.distributions = lhs.alternatives - 1 + (rhs.alternatives - 1)

theorem IsProductOf.symm
    (product : IsProductOf lhs rhs expr) :
    IsProductOf rhs lhs expr :=
  ⟨product.isProduct, by rw [product.monomials_eq, Finset.sups_comm],
    by rw [product.distributions_eq, Nat.add_comm]⟩

theorem isProductOf_conjunction
    (lhsPolynomial : lhs.IsPolynomial)
    (rhsPolynomial : rhs.IsPolynomial) :
    IsProductOf lhs rhs (.apply Operator.bitAnd [lhs, rhs]) :=
  ⟨.conjunction lhsPolynomial rhsPolynomial, monomials_conjunction lhs rhs,
    distributions_conjunction lhs rhs⟩

/-- A conjunction of polynomials is stored with its operands in order. -/
theorem construct_conjunction
    (table : SymbolTable)
    (lhsPolynomial : lhs.IsPolynomial)
    (rhsPolynomial : rhs.IsPolynomial) :
    table.construct Operator.bitAnd [lhs, rhs] =
      .ok (.apply Operator.bitAnd
        (sortBy (operandCompare Operator.bitAnd) [lhs, rhs])) :=
  BitOperator.conjunction.construct_eq table lhsPolynomial.isNumber_eq_false
    rhsPolynomial.isNumber_eq_false

theorem isProductOf_sorted
    (lhsPolynomial : lhs.IsPolynomial)
    (rhsPolynomial : rhs.IsPolynomial) :
    IsProductOf lhs rhs
      (.apply Operator.bitAnd
        (sortBy (operandCompare Operator.bitAnd) [lhs, rhs])) := by
  rcases sortBy_pair_cases (operandCompare Operator.bitAnd) lhs rhs with
    same | swapped
  · rw [same]
    exact isProductOf_conjunction lhsPolynomial rhsPolynomial
  · rw [swapped]
    exact (isProductOf_conjunction rhsPolynomial lhsPolynomial).symm

/-! ## Visiting a product -/

/-- Distributing over a disjunction makes a sum of two products. -/
theorem exists_spread
    (table : SymbolTable)
    (firstMonomial : first.IsMonomial)
    (secondPolynomial : second.IsPolynomial)
    (factorPolynomial : factor.IsPolynomial) :
    ∃ left right,
      IsProductOf first factor left ∧ IsProductOf second factor right ∧
        Transform.spread table.construct Operator.bitAnd Operator.bitOr factor
            first second =
          .ok (.apply Operator.bitOr
            (sortBy (operandCompare Operator.bitOr) [left, right])) := by
  have leftProduct :=
    isProductOf_sorted firstMonomial.isPolynomial factorPolynomial
  have rightProduct := isProductOf_sorted secondPolynomial factorPolynomial
  refine ⟨_, _, leftProduct, rightProduct, ?_⟩
  rw [Transform.spread,
    construct_conjunction table firstMonomial.isPolynomial factorPolynomial,
    ok_bind, construct_conjunction table secondPolynomial factorPolynomial,
    ok_bind]
  exact (regroups_products table).stores (.operand leftProduct.isProduct)
    (.operand rightProduct.isProduct)

/-- The products that a sum was made from are all that there is to distribute. -/
theorem distributesWithin_iff
    {count : Nat}
    {items : List Expr}
    (canonical : IsCanonicalChain Operator.bitOr IsProduct true items expr) :
    expr.DistributesWithin count ↔ ∀ item ∈ items, item.distributions ≤ count := by
  rw [DistributesWithin, canonical.isChain.flatten_eq]
  exact forall_congr' fun item => imp_congr_left mem_canonicalOperands

theorem mem_monomials_of_canonicalChain
    {names : Finset String}
    {items : List Expr}
    (canonical : IsCanonicalChain Operator.bitOr IsProduct true items expr) :
    names ∈ expr.monomials ↔ ∃ item ∈ items, names ∈ item.monomials := by
  rw [mem_monomials_iff canonical.combines IsProduct.isApplyOf_eq_false,
    canonical.isChain.flatten_eq]
  exact exists_congr fun item => and_congr_left' mem_canonicalOperands

/-- The sum of the products with two parts of a disjunction expands the product with the disjunction. -/
theorem expands_of_pair
    {left right source next : Expr}
    (sumPolynomial :
      (Expr.apply Operator.bitOr [first, second]).IsPolynomial)
    (product :
      IsProductOf (.apply Operator.bitOr [first, second]) factor source)
    (leftProduct : IsProductOf first factor left)
    (rightProduct : IsProductOf second factor right)
    (canonical :
      IsCanonicalChain Operator.bitOr IsProduct true [left, right] next) :
    Expands source next := by
  obtain ⟨firstMonomial, secondCanonical⟩ :=
    (regroups_monomials {}).parts_of_isCanonical sumPolynomial
  have secondPolynomial : IsPolynomial second := secondCanonical
  have secondPos := secondPolynomial.alternatives_pos
  have ahead :
      source.distributions =
        second.alternatives - 1 + (factor.alternatives - 1) + 1 := by
    rw [product.distributions_eq, alternatives_disjunction,
      alternatives_of_not_isApplyOf firstMonomial.isApplyOf_eq_false]
    omega
  refine
    { isSum := (regroups_products {}).isCanonical_of_isCanonicalChain canonical
      monomials_eq := ?_
      within_iff := ?_
      isPolynomial := ?_ }
  · ext names
    rw [mem_monomials_of_canonicalChain canonical, product.monomials_eq,
      monomials_disjunction, Finset.sups_union_left, Finset.mem_union,
      ← leftProduct.monomials_eq, ← rightProduct.monomials_eq]
    simp
  · intro count
    rw [distributesWithin_iff canonical,
      distributesWithin_of_not_isApplyOf product.isProduct.isApplyOf_eq_false,
      ahead]
    simp only [List.mem_cons, List.not_mem_nil, or_false, forall_eq_or_imp,
      forall_eq, leftProduct.distributions_eq, rightProduct.distributions_eq,
      alternatives_of_not_isApplyOf firstMonomial.isApplyOf_eq_false]
    omega
  · intro within
    rw [distributesWithin_of_not_isApplyOf product.isProduct.isApplyOf_eq_false,
      ahead] at within
    omega

/-- Visiting a product that is distributed over a disjunction expands it. -/
theorem expands_of_spread
    (lhsPolynomial : lhs.IsPolynomial)
    (rhsPolynomial : rhs.IsPolynomial)
    (sumPolynomial :
      (Expr.apply Operator.bitOr [first, second]).IsPolynomial)
    (factorPolynomial : factor.IsPolynomial)
    (product :
      IsProductOf (.apply Operator.bitOr [first, second]) factor
        (.apply Operator.bitAnd [lhs, rhs]))
    (distributes :
      Transform.andOverOr? table table.construct
          (.apply Operator.bitAnd [lhs, rhs]) =
        (Transform.spread table.construct Operator.bitAnd Operator.bitOr factor
          first second).toOption) :
    Expands (.apply Operator.bitAnd [lhs, rhs])
      (visited table catalogue.tail (.apply Operator.bitAnd [lhs, rhs])) := by
  obtain ⟨firstMonomial, secondPolynomial⟩ :=
    (regroups_monomials {}).parts_of_isCanonical sumPolynomial
  obtain ⟨left, right, leftProduct, rightProduct, spreads⟩ :=
    exists_spread table firstMonomial secondPolynomial factorPolynomial
  rw [spreads] at distributes
  have kept :
      visited table rulesBeforeDistribution
          (.apply Operator.bitAnd [lhs, rhs]) =
        .apply Operator.bitAnd [lhs, rhs] :=
    visited_of_waits fun rule member =>
      BitOperator.conjunction.waits
        lhsPolynomial.isNumber_eq_false rhsPolynomial.isNumber_eq_false
        (List.mem_append_left _ member)
  have visits
      (node : Expr) :
      visited table catalogue.tail node =
        visited table (rulesAfterDistribution ++ regroupingRules)
          (Transform.andOverOr?.result table
            (visited table rulesBeforeDistribution node)) :=
    rfl
  have after : rulesAfterDistribution ⊆ rulesBeforeRegrouping := by
    rw [rulesBeforeRegrouping_eq]
    intro rule member
    exact List.mem_append_right _ (List.mem_cons_of_mem _ member)
  rw [visits, kept, result_of_some distributes]
  apply expands_of_pair sumPolynomial product leftProduct rightProduct
  have stored :=
    (sortBy_pair_cases (operandCompare Operator.bitOr) left right).imp
      (congrArg (Expr.apply Operator.bitOr))
      (congrArg (Expr.apply Operator.bitOr))
  have canonical :=
    (regroups_products table).visited_stored (.operand leftProduct.isProduct)
      (.operand rightProduct.isProduct) stored after
  rw [Chain.flatten_of_not_isApplyOf leftProduct.isProduct.isApplyOf_eq_false,
    Chain.flatten_of_not_isApplyOf rightProduct.isProduct.isApplyOf_eq_false]
    at canonical
  exact canonical

/-- Visiting a product of monomials makes a monomial. -/
theorem expands_of_monomials
    (table : SymbolTable)
    (lhsMonomial : lhs.IsMonomial)
    (rhsMonomial : rhs.IsMonomial) :
    Expands (.apply Operator.bitAnd [lhs, rhs])
      (visited table catalogue.tail (.apply Operator.bitAnd [lhs, rhs])) := by
  have canonical :=
    (regroups_symbols table).visited_stored lhsMonomial.combines
      rhsMonomial.combines (.inl rfl) (List.Subset.refl _)
  have product :=
    isProductOf_conjunction lhsMonomial.isPolynomial rhsMonomial.isPolynomial
  change Expands _
    (visited table (rulesBeforeRegrouping ++ regroupingRules) _)
  generalize visited table (rulesBeforeRegrouping ++ regroupingRules) _ = next
    at canonical ⊢
  have isMonomial : next.IsMonomial :=
    (regroups_symbols table).isCanonical_of_isCanonicalChain canonical
  obtain ⟨isProduct, nothing⟩ := isMonomial.isProduct
  refine
    { isSum := isProduct.isSum
      monomials_eq := ?_
      within_iff := ?_
      isPolynomial := fun _ => isMonomial.isPolynomial }
  · apply monomials_eq_of_mem_flatten_iff canonical.combines
      (.node lhsMonomial.combines rhsMonomial.combines)
    intro item
    rw [canonical.isChain.flatten_eq, Chain.flatten_pair]
    exact mem_canonicalOperands
  · intro count
    rw [distributesWithin_of_not_isApplyOf isProduct.isApplyOf_eq_false,
      distributesWithin_of_not_isApplyOf product.isProduct.isApplyOf_eq_false,
      nothing, product.distributions_eq,
      alternatives_of_not_isApplyOf lhsMonomial.isApplyOf_eq_false,
      alternatives_of_not_isApplyOf rhsMonomial.isApplyOf_eq_false]
    omega

/-- Visiting a product expands it. -/
theorem expands_visited_tail
    (table : SymbolTable)
    (lhsPolynomial : lhs.IsPolynomial)
    (rhsPolynomial : rhs.IsPolynomial) :
    Expands (.apply Operator.bitAnd [lhs, rhs])
      (visited table catalogue.tail (.apply Operator.bitAnd [lhs, rhs])) := by
  have product := isProductOf_conjunction lhsPolynomial rhsPolynomial
  cases inLhs : lhs.operands? Operator.bitOr with
  | some operands =>
      have distributes :=
        BitOperator.andOverOr?_left table table.construct inLhs rhs
      obtain rfl := operands?_eq_some inLhs
      exact expands_of_spread lhsPolynomial rhsPolynomial lhsPolynomial
        rhsPolynomial product distributes
  | none =>
      cases inRhs : rhs.operands? Operator.bitOr with
      | some operands =>
          have distributes :=
            BitOperator.andOverOr?_right table table.construct inLhs inRhs
          obtain rfl := operands?_eq_some inRhs
          exact expands_of_spread lhsPolynomial rhsPolynomial rhsPolynomial
            lhsPolynomial product.symm distributes
      | none =>
          exact expands_of_monomials table
            (lhsPolynomial.isMonomial_of_operands?_eq_none inLhs)
            (rhsPolynomial.isMonomial_of_operands?_eq_none inRhs)

/-- Which operand of a product comes first makes no difference to what it expands to. -/
theorem Expands.of_product
    {source source' next : Expr}
    (expands : Expands source next)
    (product : IsProductOf lhs rhs source)
    (product' : IsProductOf lhs rhs source') :
    Expands source' next := by
  have sameWithin
      (count : Nat) :
      source.DistributesWithin count ↔ source'.DistributesWithin count := by
    rw [distributesWithin_of_not_isApplyOf product.isProduct.isApplyOf_eq_false,
      distributesWithin_of_not_isApplyOf product'.isProduct.isApplyOf_eq_false,
      product.distributions_eq, product'.distributions_eq]
  refine
    { isSum := expands.isSum
      monomials_eq := ?_
      within_iff := ?_
      isPolynomial := ?_ }
  · rw [expands.monomials_eq, product.monomials_eq, product'.monomials_eq]
  · intro count
    rw [expands.within_iff, sameWithin]
  · intro within
    exact expands.isPolynomial ((sameWithin 0).mpr within)

end Expansion

end SymbolicAlgebra
