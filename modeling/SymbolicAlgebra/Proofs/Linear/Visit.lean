import SymbolicAlgebra.Proofs.Linear.Normal
import SymbolicAlgebra.Proofs.Linear.Rules

/-!
# Visiting the nodes of linear expressions

A visit runs the catalogue at a node whose arguments are in normal form.  It makes the node cheaper or
brings it into normal form: differences and products of anything but symbols always get cheaper, and a sum
in which no rule saves anything is sorted.
-/

namespace SymbolicAlgebra

open SymbolicAlgebra.Expr

/-- The expression is cheaper than something, or reads as it does and is in normal form. -/
def Settled
    (expr : Expr)
    (bound : Reading) : Prop :=
  expr.Below bound ∨ expr.Within bound ∧ IsNormal expr

/-- The arguments of an application are in normal form. -/
def HasNormalArgs
    (expr : Expr) : Prop :=
  ∀ head args, expr = .apply head args → ∀ arg ∈ args, IsNormal arg

/-- The expression is cheaper than something, or reads as it does with arguments in normal form. -/
def Prepared
    (expr : Expr)
    (bound : Reading) : Prop :=
  expr.Below bound ∨ expr.Within bound ∧ HasNormalArgs expr

section Settled

variable {table : SymbolTable} {node expr lhs rhs operand : Expr}
  {bound bound' : Reading}

theorem Settled.within
    (settled : Settled expr bound) :
    expr.Within bound := by
  rcases settled with below | ⟨within, -⟩
  · exact below.toWithin
  · exact within

theorem Settled.mono
    (settled : Settled expr bound)
    (le : bound ≤ bound') :
    Settled expr bound' := by
  rcases settled with below | ⟨within, normal⟩
  · exact .inl (below.mono le)
  · exact .inr ⟨within.mono le, normal⟩

/-- What did not get cheaper is in normal form. -/
theorem Settled.isNormal
    (settled : Settled expr expr.reading) :
    IsNormal expr := by
  rcases settled with below | ⟨-, normal⟩
  · exact (lt_irrefl _ below.cost_lt).elim
  · exact normal

/-- Terms are in normal form. -/
theorem isNormal_term
    {coefficient : Coefficient}
    (small : coefficient.2.natAbs < 2 ^ 53)
    (nonzero : coefficient.2 ≠ 0) :
    IsNormal (term coefficient) := by
  have single := term_isApplyOf_add coefficient
  have flat := Chain.flatten_of_not_isApplyOf single
  have reduced : IsReduced [coefficient] :=
    ⟨List.forall_mem_singleton.mpr small, List.forall_mem_singleton.mpr nonzero,
      List.nodup_singleton _⟩
  refine .chain reduced ?_ ?_ (isRightNested_of_not_isApplyOf single)
  · rw [flat]
    exact .refl _
  · rw [flat]
    rfl

theorem isNormal_whole
    {value : Int}
    (small : value.natAbs < 2 ^ 53) :
    IsNormal (whole value) := by
  by_cases zero : value = 0
  · subst zero
    exact .zero
  · exact @isNormal_term (none, value) small zero

theorem isNormal_symbol
    (name : String) :
    IsNormal (.symbol name) :=
  @isNormal_term (some name, 1) (show (1 : Int).natAbs < 2 ^ 53 by decide)
    one_ne_zero

/-- A normal form that is neither a literal, a sum nor a product is a symbol. -/
theorem IsNormal.exists_symbol
    (normal : IsNormal expr)
    (notLiteral : expr.isNumber = false)
    (notSum : expr.isApplyOf Operator.add = false)
    (notProduct : expr.isApplyOf Operator.mul = false) :
    ∃ name, expr = .symbol name := by
  cases normal with
  | zero =>
      cases notLiteral
  | @chain _ coefficients reduced addends sorted isNested =>
      rw [Chain.flatten_of_not_isApplyOf notSum] at addends
      obtain ⟨⟨key, value⟩, -, same⟩ :=
        List.map_eq_singleton_iff.mp addends.singleton_eq.symm
      rw [← same] at notLiteral notProduct ⊢
      cases key with
      | none =>
          cases notLiteral
      | some name =>
          rw [term, collapsed] at notProduct ⊢
          split at notProduct
          · rename_i one
            exact ⟨name, if_pos one⟩
          · cases notProduct

/-- The addends of a normal form other than zero are terms. -/
theorem IsNormal.exists_addends
    (normal : IsNormal expr)
    (nonzero : expr ≠ whole 0) :
    ∃ coefficients : List Coefficient,
      (∀ coefficient ∈ coefficients,
          coefficient.2.natAbs < 2 ^ 53 ∧ coefficient.2 ≠ 0) ∧
        (Chain.flatten Operator.add expr).Perm (coefficients.map term) := by
  cases normal with
  | zero =>
      exact (nonzero rfl).elim
  | chain reduced addends sorted isNested =>
      exact ⟨_, fun coefficient member =>
        ⟨reduced.small coefficient member, reduced.nonzero coefficient member⟩,
        addends⟩

/-! ## Visiting a node -/

/-- Once a rule has made a node cheaper, the rules after it keep what it has saved. -/
theorem settled_visited_of_below
    {rules : List Rule}
    (fromCatalogue : rules ⊆ catalogue)
    (index : Nat)
    {rule : Rule}
    (place : rules[index]? = some rule)
    (kept :
      ∀ earlier ∈ rules.take index,
        Transform.result earlier.transform? table node = node)
    {result : Expr}
    (applies : rule.transform? table table.construct node = some result)
    (below : result.Below bound)
    (small : bound.weight < 2 ^ 53) :
    Settled (visited table rules node) bound := by
  obtain ⟨inside, rfl⟩ := List.getElem?_eq_some_iff.mp place
  have visits :
      visited table rules node =
        visited table (rules.drop (index + 1)) result := by
    conv_lhs => rw [← List.take_append_drop index rules]
    rw [visited_append, visited_of_kept kept, List.drop_eq_getElem_cons inside,
      visited_cons, result_of_some applies]
  rw [visits]
  exact .inl (visited_below
    (List.Subset.trans (List.drop_subset _ _) fromCatalogue) below small)

/-- Visiting a difference makes it cheaper. -/
theorem settled_visited_difference
    (lhsLinear : lhs.IsLinear)
    (rhsLinear : rhs.IsLinear)
    (notLiterals : (lhs.isNumber && rhs.isNumber) = false)
    (small : (lhs.reading.difference rhs.reading).weight < 2 ^ 53)
    (shape : node = .apply Operator.sub [lhs, rhs]) :
    Settled (visited table catalogue node) node.reading := by
  have linear : node.IsLinear :=
    shape ▸ .difference lhsLinear rhsLinear notLiterals
  have same : node.reading = lhs.reading.difference rhs.reading :=
    shape ▸ reading_difference lhs rhs
  have sorts : Transform.commutativeOrder?.result table node = node := by
    subst shape
    rfl
  have collects : Transform.convertPowers?.result table node = node := by
    subst shape
    rfl
  rw [same]
  cases strips : Transform.stripIdentities? table table.construct node with
  | some result =>
      exact settled_visited_of_below (List.Subset.refl _) 1 rfl (by simp [catalogue, sorts]) strips
        (same ▸ stripIdentities?_linear linear strips) small
  | none =>
      obtain ⟨result, removes, below⟩ :=
        @removeSubtraction?_difference table _ _ lhsLinear rhsLinear small
      rw [← shape] at removes
      refine settled_visited_of_below (List.Subset.refl _) 4 rfl ?_ removes below small
      simp [catalogue, sorts, result_of_none strips,
        result_of_none (evaluateNumeric?_linear linear), collects]

/-- The multiple of a symbol stays as it is. -/
theorem visited_multiple_symbol
    {factor : Int}
    {name : String}
    (small : factor.natAbs < 2 ^ 53)
    (nonzero : factor ≠ 0)
    (notOne : factor ≠ 1)
    (shape : node = .apply Operator.mul [whole factor, .symbol name]) :
    visited table catalogue node = node := by
  have linear : node.IsLinear :=
    shape ▸ .multiple small nonzero (.symbol name) rfl
  have spine : Spine (.symbol name) [] (.symbol name) :=
    .base (.symbol name) rfl rfl
  have productSmall : (factor * [].prod).natAbs < 2 ^ 53 := by
    rwa [List.prod_nil, mul_one]
  have unchanged : collapsed (factor * [].prod) (.symbol name) = node := by
    rw [List.prod_nil, mul_one, collapsed, if_neg notOne, shape]
  have sorts : Transform.commutativeOrder?.result table node = node :=
    result_of_none (shape ▸ commutativeOrder?_multiple rfl)
  have strips : Transform.result Transform.stripIdentities? table node = node := by
    cases stripped : Transform.stripIdentities? table table.construct node with
    | none =>
        exact result_of_none stripped
    | some result =>
        rcases stripIdentities?_eq_some table.specOf?_mul (shape ▸ stripped) with
          ⟨identity, -⟩ | ⟨identity, -⟩
        · rw [effectiveIdentity_product.1] at identity
          exact (notOne (whole_injective small (by decide)
            (Option.some.inj identity).symm)).elim
        · rw [effectiveIdentity_product.2] at identity
          cases identity
  have collects :
      Transform.convertPowers? table table.construct node = some node := by
    have collected :=
      @convertPowers?_multiple table _ _ _ _ small nonzero spine productSmall
    rwa [unchanged, ← shape] at collected
  have regroups : Transform.reassociate?.result table node = node := by
    cases regrouped : Transform.reassociate? table table.construct node with
    | none =>
        exact result_of_none regrouped
    | some replacement =>
        have same : replacement = collapsed (factor * [].prod) _ :=
          reassociate?_multiple small nonzero spine productSmall
            (shape ▸ regrouped)
        rw [result_of_some regrouped, same, unchanged]
  have others :
      Transform.removeSubtraction?.result table node = node ∧
        Transform.mulOverAdd?.result table node = node ∧
        Transform.foldAdditions?.result table node = node := by
    subst shape
    exact ⟨rfl, rfl, rfl⟩
  apply visited_of_kept
  simp [catalogue, sorts, strips, result_of_none (evaluateNumeric?_linear linear),
    result_of_some collects, others,
    result_of_none (andOverOr?_linear linear),
    result_of_none (cancelDivision?_linear linear),
    result_of_none (absorbZero?_linear linear), regroups,
    result_of_none (bitIdentities?_linear linear)]

/-- Visiting a product makes it cheaper, unless it is the multiple of a symbol. -/
theorem settled_visited_multiple
    {factor : Int}
    (factorSmall : factor.natAbs < 2 ^ 53)
    (nonzero : factor ≠ 0)
    (operandLinear : operand.IsLinear)
    (notLiteral : operand.isNumber = false)
    (normal : IsNormal operand)
    (small : (operand.reading.multiple factor).weight < 2 ^ 53)
    (shape : node = .apply Operator.mul [whole factor, operand]) :
    Settled (visited table catalogue node) node.reading := by
  have linear : node.IsLinear :=
    shape ▸ .multiple factorSmall nonzero operandLinear notLiteral
  have same : node.reading = operand.reading.multiple factor :=
    shape ▸ reading_multiple factorSmall operand
  obtain ⟨factors, base, spine⟩ := exists_spine operandLinear notLiteral
  have sorts : Transform.commutativeOrder?.result table node = node :=
    result_of_none (shape ▸ commutativeOrder?_multiple notLiteral)
  have evaluates : Transform.evaluateNumeric?.result table node = node :=
    result_of_none (evaluateNumeric?_linear linear)
  have removes : Transform.removeSubtraction?.result table node = node := by
    subst shape
    rfl
  have collects :=
    @convertPowers?_multiple table _ _ _ _ factorSmall nonzero spine
      (spine.natAbs_mul_prod_lt small)
  rw [← shape] at collects
  cases strips : Transform.stripIdentities? table table.construct node with
  | some result =>
      exact settled_visited_of_below (List.Subset.refl _) 1 rfl
        (by simp [catalogue, sorts]) strips
        (stripIdentities?_linear linear strips) (same ▸ small)
  | none =>
      rcases collapsed_cases nonzero spine small with
        ⟨notProduct, notOne, unchanged⟩ | below
      · rw [unchanged, ← shape] at collects
        cases sum : operand.isApplyOf Operator.add with
        | true =>
            obtain ⟨result, distributes, below⟩ :=
              @mulOverAdd?_multiple table _ _ factorSmall operandLinear sum small
            rw [← shape] at distributes
            rw [← same] at below small
            refine settled_visited_of_below (List.Subset.refl _) 5 rfl ?_
              distributes below small
            simp [catalogue, sorts, result_of_none strips, evaluates,
              result_of_some collects, removes]
        | false =>
            obtain ⟨name, rfl⟩ := normal.exists_symbol notLiteral sum notProduct
            have isTerm : node = term (some name, factor) := by
              rw [term, collapsed, if_neg notOne, shape]
            rw [visited_multiple_symbol factorSmall nonzero notOne shape]
            exact .inr ⟨linear.within,
              isTerm ▸ isNormal_term factorSmall nonzero⟩
      · rw [← same] at below small
        refine settled_visited_of_below (List.Subset.refl _) 3 rfl ?_ collects
          below small
        simp [catalogue, sorts, result_of_none strips, evaluates]

/-- The addends of a sum of normal forms other than zero are terms. -/
theorem exists_reduced_addends
    (lhsNormal : IsNormal lhs)
    (rhsNormal : IsNormal rhs)
    (lhsNonzero : lhs ≠ whole 0)
    (rhsNonzero : rhs ≠ whole 0)
    (shape : node = .apply Operator.add [lhs, rhs])
    (oneLiteral :
      ((Chain.flatten Operator.add node).filter isNumber).length ≤ 1)
    (bases :
      ((Transform.nonliterals Operator.add node).map fun addend =>
        (Transform.splitCoefficient addend).2).Nodup) :
    ∃ coefficients : List Coefficient,
      IsReduced coefficients ∧
        (Chain.flatten Operator.add node).Perm (coefficients.map term) := by
  obtain ⟨coefficients, each, addends⟩ := lhsNormal.exists_addends lhsNonzero
  obtain ⟨coefficients', each', addends'⟩ :=
    rhsNormal.exists_addends rhsNonzero
  have every := List.forall_mem_append.mpr ⟨each, each'⟩
  have permuted :
      (Chain.flatten Operator.add node).Perm
        ((coefficients ++ coefficients').map term) := by
    rw [shape, Chain.flatten_apply, List.flatMap_cons, List.flatMap_cons,
      List.flatMap_nil, List.append_nil, List.map_append]
    exact addends.append addends'
  exact ⟨_,
    ⟨fun coefficient member => (every coefficient member).1,
      fun coefficient member => (every coefficient member).2,
      nodup_of_addends permuted oneLiteral bases⟩,
    permuted⟩

/-- Sorting the terms of a sum brings it into normal form. -/
theorem isNormal_of_sorting
    (linear : node.IsLinear)
    {coefficients : List Coefficient}
    (reduced : IsReduced coefficients)
    (addends :
      (Chain.flatten Operator.add node).Perm (coefficients.map term))
    (oneLiteral :
      ((Chain.flatten Operator.add node).filter isNumber).length ≤ 1)
    (sorts :
      Transform.reassociate? table table.construct node =
        if sortCanonically (Chain.flatten Operator.add node) =
              Chain.flatten Operator.add node ∧
            Chain.isRightNested Operator.add node then
          none
        else
          (Chain.build table.construct Operator.add
            (sortCanonically (Chain.flatten Operator.add node))).toOption) :
    IsNormal (Transform.reassociate?.result table node) := by
  obtain ⟨flatLinear, -⟩ := flatten_sum linear
  by_cases done :
      sortCanonically (Chain.flatten Operator.add node) =
          Chain.flatten Operator.add node ∧
        Chain.isRightNested Operator.add node
  · rw [if_pos done] at sorts
    rw [result_of_none sorts]
    exact .chain reduced addends done.1 done.2
  · rw [if_neg done] at sorts
    have permuted : (sortCanonically (Chain.flatten Operator.add node)).Perm _ :=
      sortBy_perm canonicalCompare (Chain.flatten Operator.add node)
    have ascending :
        (sortCanonically (Chain.flatten Operator.add node)).Pairwise
          (NotAfter canonicalCompare) :=
      canonicalCompare_linearOn_plainlyNamed.sortBy_pairwise
        fun item member => (flatLinear item member).1.plainlyNamed
    have again :=
      sortCanonically_eq_of_perm
        (fun item member => (flatLinear item (permuted.mem_iff.mp member)).1)
        permuted
    have singles :
        ∀ item ∈ sortCanonically (Chain.flatten Operator.add node),
          item.isApplyOf Operator.add = false :=
      fun item member => (flatLinear item (permuted.mem_iff.mp member)).2
    rw [← (permuted.filter isNumber).length_eq] at oneLiteral
    cases sorted : sortCanonically (Chain.flatten Operator.add node) with
    | nil =>
        rw [sorted] at permuted
        exact (flatten_ne_nil_of_isLinear linear permuted.symm.eq_nil).elim
    | cons first rest =>
        rw [sorted] at permuted ascending again singles oneLiteral sorts
        rw [build_sum_of_sorted table singles ascending oneLiteral] at sorts
        obtain ⟨flat, isNested⟩ := flatten_nested singles
        rw [result_of_some sorts]
        refine .chain reduced ?_ ?_ isNested
        · rw [flat]
          exact permuted.trans addends
        · rw [flat, again]

/-- After the operands of a sum have been sorted, the other rules bring it into normal form. -/
theorem settled_visited_sortedSum
    (lhsLinear : lhs.IsLinear)
    (rhsLinear : rhs.IsLinear)
    (notLiterals : (lhs.isNumber && rhs.isNumber) = false)
    (lhsNormal : IsNormal lhs)
    (rhsNormal : IsNormal rhs)
    (small : node.reading.weight < 2 ^ 53)
    (shape : node = .apply Operator.add [lhs, rhs]) :
    Settled (visited table catalogue.tail node) node.reading := by
  have linear : node.IsLinear :=
    shape ▸ .sum lhsLinear rhsLinear notLiterals
  have later : catalogue.tail ⊆ catalogue :=
    List.tail_subset catalogue
  have evaluates : Transform.evaluateNumeric?.result table node = node :=
    result_of_none (evaluateNumeric?_linear linear)
  have collects : Transform.convertPowers?.result table node = node := by
    subst shape
    rfl
  have removes : Transform.removeSubtraction?.result table node = node := by
    subst shape
    rfl
  have distributes : Transform.mulOverAdd?.result table node = node := by
    subst shape
    rfl
  cases strips : Transform.stripIdentities? table table.construct node with
  | some result =>
      exact settled_visited_of_below later 0 rfl (by simp) strips
        (stripIdentities?_linear linear strips) small
  | none =>
      rcases foldAdditions?_sum linear (by rw [shape]; rfl) small with
        ⟨result, folds, below⟩ | ⟨folds, bases⟩
      · refine settled_visited_of_below later 7 rfl ?_ folds below small
        simp [catalogue, result_of_none strips, evaluates, collects, removes,
          distributes, result_of_none (andOverOr?_linear linear),
          result_of_none (cancelDivision?_linear linear)]
      · rcases reassociate?_sum linear shape small with
          ⟨result, regroups, below⟩ | ⟨oneLiteral, regroups⟩
        · refine settled_visited_of_below later 9 rfl ?_ regroups below small
          simp [catalogue, result_of_none strips, evaluates, collects, removes,
            distributes, result_of_none (andOverOr?_linear linear),
            result_of_none (cancelDivision?_linear linear), result_of_none folds,
            result_of_none (absorbZero?_linear linear)]
        · have within :
              (Transform.reassociate?.result table node).Within node.reading :=
            Rule.result_within
              (show ⟨"reassociate", Transform.reassociate?⟩ ∈ catalogue by
                simp [catalogue])
              table linear small
          have visits :
              visited table catalogue.tail node =
                Transform.reassociate?.result table node := by
            simp only [catalogue, List.tail_cons, visited_cons,
              result_of_none strips, evaluates, collects, removes, distributes,
              result_of_none (andOverOr?_linear linear),
              result_of_none (cancelDivision?_linear linear),
              result_of_none folds, result_of_none (absorbZero?_linear linear),
              result_of_none (bitIdentities?_linear within.linear)]
            rfl
          obtain ⟨lhsNonzero, rhsNonzero⟩ :=
            stripIdentities?_eq_none table.specOf?_add (shape ▸ strips)
          rw [effectiveIdentity_sum.1] at lhsNonzero
          rw [effectiveIdentity_sum.2] at rhsNonzero
          obtain ⟨coefficients, reduced, addends⟩ :=
            exists_reduced_addends lhsNormal rhsNormal
              (fun same => lhsNonzero (by rw [same]))
              (fun same => rhsNonzero (by rw [same])) shape oneLiteral bases
          rw [visits]
          exact .inr ⟨within,
            isNormal_of_sorting linear reduced addends oneLiteral regroups⟩

/-- Visiting a sum makes it cheaper or brings it into normal form. -/
theorem settled_visited_sum
    (lhsLinear : lhs.IsLinear)
    (rhsLinear : rhs.IsLinear)
    (notLiterals : (lhs.isNumber && rhs.isNumber) = false)
    (lhsNormal : IsNormal lhs)
    (rhsNormal : IsNormal rhs)
    (small : (lhs.reading + rhs.reading).weight < 2 ^ 53) :
    Settled (visited table catalogue (.apply Operator.add [lhs, rhs]))
      (lhs.reading + rhs.reading) := by
  have visits :
      visited table catalogue (.apply Operator.add [lhs, rhs]) =
        visited table catalogue.tail
          (Transform.commutativeOrder?.result table
            (.apply Operator.add [lhs, rhs])) :=
    rfl
  rw [visits]
  rcases @commutativeOrder?_sum table lhs rhs notLiterals with same | swapped
  · rw [same, ← reading_sum]
    rw [← reading_sum] at small
    exact settled_visited_sortedSum lhsLinear rhsLinear notLiterals lhsNormal
      rhsNormal small rfl
  · rw [Bool.and_comm] at notLiterals
    rw [add_comm, ← reading_sum] at small
    rw [swapped, add_comm, ← reading_sum]
    exact settled_visited_sortedSum rhsLinear lhsLinear notLiterals rhsNormal
      lhsNormal small rfl

/-- Visiting a prepared node makes it cheaper or brings it into normal form. -/
theorem Prepared.settled_visited
    (table : SymbolTable)
    (prepared : Prepared node bound)
    (small : bound.weight < 2 ^ 53) :
    Settled (visited table catalogue node) bound := by
  rcases prepared with below | ⟨⟨linear, le⟩, normalArgs⟩
  · exact .inl (visited_below (List.Subset.refl _) below small)
  · have light := le.2.1.trans_lt small
    refine Settled.mono ?_ le
    cases linear with
    | literal valueSmall =>
        rw [visited_leaf rfl]
        exact .inr ⟨(IsLinear.literal valueSmall).within,
          isNormal_whole valueSmall⟩
    | symbol name =>
        rw [visited_leaf rfl]
        exact .inr ⟨(IsLinear.symbol name).within, isNormal_symbol name⟩
    | sum lhsLinear rhsLinear notLiterals =>
        rw [reading_sum] at light ⊢
        exact settled_visited_sum lhsLinear rhsLinear notLiterals
          (normalArgs _ _ rfl _ (by simp)) (normalArgs _ _ rfl _ (by simp)) light
    | difference lhsLinear rhsLinear notLiterals =>
        rw [reading_difference] at light
        exact settled_visited_difference lhsLinear rhsLinear notLiterals light rfl
    | multiple factorSmall nonzero linear notLiteral =>
        rw [reading_multiple factorSmall] at light
        exact settled_visited_multiple factorSmall nonzero linear notLiteral
          (normalArgs _ _ rfl _ (by simp)) light rfl

end Settled

end SymbolicAlgebra
