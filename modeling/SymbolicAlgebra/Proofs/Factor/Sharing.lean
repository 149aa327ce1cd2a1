import SymbolicAlgebra.Proofs.Factor.Basic

/-!
# Pulling a shared factor out of a sum

A term and its product with a cofactor share a factor: `a + a * b` becomes `a * (1 + b)`.  This works for
every two factors with different bases of which neither is a sum or a quotient.  A factor and its own
square share nothing, since the square is a power and no product.
-/

namespace SymbolicAlgebra

open SymbolicAlgebra.Expr

/-- One more than an expression. -/
def successor
    (expr : Expr) : Expr :=
  .apply Operator.add [.number 1, expr]

/-- The two are factors with different bases, neither of them a sum or a quotient. -/
structure HasCofactor
    (factor cofactor : Expr) : Prop where
  isFactor :
    factor.IsFactor
  cofactor_isFactor :
    cofactor.IsFactor
  notSum :
    factor.isApplyOf Operator.add = false
  cofactor_notSum :
    cofactor.isApplyOf Operator.add = false
  notQuotient :
    factor.isApplyOf Operator.div = false
  cofactor_notQuotient :
    cofactor.isApplyOf Operator.div = false
  different :
    factor.base ≠ cofactor.base
  notSuccessor :
    factor.base ≠ successor cofactor

theorem isFactor_successor
    (expr : Expr) :
    (successor expr).IsFactor :=
  .base rfl rfl rfl

/-! ## Folding the sum -/

section Folding

variable {table : SymbolTable} {builder : Builder}
  {factor cofactor product addend addend' result : Expr}

theorem construct_successor
    (notLiteral : cofactor.isNumber = false) :
    table.construct Operator.add [.number 1, cofactor] =
      .ok (successor cofactor) := by
  have sorted :
      sumSpec.ordered Operator.add [.number 1, cofactor] =
        [.number 1, cofactor] :=
    sortBy_number_left notLiteral
  rw [construct_sum_eq (by rw [notLiteral, Bool.and_false]), sorted]
  rfl

/-- The product of a factor with another one has this one as the other factor. -/
theorem cofactor?_of_isPair
    {lhs rhs : Expr}
    (isPair : IsPair lhs rhs factor cofactor)
    (different : factor ≠ cofactor) :
    Transform.cofactor? factor (.apply Operator.mul [lhs, rhs]) =
      some cofactor := by
  rcases isPair with ⟨rfl, rfl⟩ | ⟨rfl, rfl⟩
  · simp [Transform.cofactor?, operands?_pair]
  · simp [Transform.cofactor?, operands?_pair, different.symm]

/-- One factor is pulled out of one group. -/
theorem mergeShared?_succ
    {groups : List (Expr × Float)}
    {merged : Bool}
    {steps place multiple : Nat}
    {first second : Float}
    {combined : Expr}
    (shared :
      Transform.sharedFactor? groups groups 0 = some (place, multiple, cofactor))
    (factor_at : groups[place]? = some (factor, first))
    (product_at : groups[multiple]? = some (product, second))
    (built :
      (do
        let term ← Transform.scaled builder second cofactor
        let coefficient ← builder Operator.add [ofFloat first, term]
        builder Operator.mul [coefficient, factor]) = Except.ok combined) :
    Transform.mergeShared? builder groups merged (steps + 1) =
      Transform.mergeShared? builder
        ((groups.set place (combined, 1)).eraseIdx multiple) true steps := by
  rw [Transform.mergeShared?, shared]
  simp only [factor_at, product_at, built]
  rfl

/-- The factor is found in its product, in whichever order the two groups stand. -/
theorem mergeShared?_of_cofactor
    (found : Transform.cofactor? factor product = some cofactor)
    (notProduct : factor.isApplyOf Operator.mul = false)
    (notLiteral : cofactor.isNumber = false)
    (built :
      table.construct Operator.mul [successor cofactor, factor] = .ok result)
    {groups : List (Expr × Float)}
    (either :
      groups = [(factor, 1), (product, 1)] ∨
        groups = [(product, 1), (factor, 1)]) :
    Transform.mergeShared? table.construct groups false 2 =
      some ([(result, 1)], true) := by
  have one : ofFloat 1 = number 1 := by
    decide
  have notShared : Transform.cofactor? product factor = none := by
    rw [Transform.cofactor?, operands?_eq_none_of_not_isApplyOf notProduct]
  have combined :
      (do
        let term ← Transform.scaled table.construct 1 cofactor
        let coefficient ← table.construct Operator.add [ofFloat 1, term]
        table.construct Operator.mul [coefficient, factor]) = .ok result := by
    rw [Transform.scaled, if_pos one_beq_one, ok_bind, one,
      construct_successor notLiteral, ok_bind, built]
  have alone :
      Transform.mergeShared? table.construct [(result, 1)] true 1 =
        some ([(result, 1)], true) := by
    simp [Transform.mergeShared?, Transform.sharedFactor?, Transform.multipleOf?]
  rcases either with rfl | rfl
  · have shared :
        Transform.sharedFactor? [(factor, 1), (product, 1)]
            [(factor, 1), (product, 1)] 0 =
          some (0, 1, cofactor) := by
      simp [Transform.sharedFactor?, Transform.multipleOf?, found]
    rw [mergeShared?_succ shared rfl rfl combined]
    exact alone
  · have shared :
        Transform.sharedFactor? [(product, 1), (factor, 1)]
            [(product, 1), (factor, 1)] 0 =
          some (1, 0, cofactor) := by
      simp [Transform.sharedFactor?, Transform.multipleOf?, found, notShared]
    rw [mergeShared?_succ shared rfl rfl combined]
    exact alone

/-- Different bases with coefficient one are gathered as they come. -/
theorem likeTerms_pair
    (split : Transform.splitCoefficient addend = (1, factor))
    (split' : Transform.splitCoefficient addend' = (1, product))
    (different : factor ≠ product) :
    Transform.likeTerms [addend, addend'] = [(factor, 1), (product, 1)] := by
  simp [Transform.likeTerms, Transform.addTerm, split, split', different]

/-- The sum of a factor and its product folds to the factor times one more than the cofactor. -/
theorem foldAdditions?_of_cofactor
    {lhs rhs : Expr}
    (isPair : IsPair lhs rhs addend addend')
    (split : Transform.splitCoefficient addend = (1, factor))
    (split' : Transform.splitCoefficient addend' = (1, product))
    (notLiterals : addend.isNumber = false ∧ addend'.isNumber = false)
    (notSums :
      addend.isApplyOf Operator.add = false ∧
        addend'.isApplyOf Operator.add = false)
    (found : Transform.cofactor? factor product = some cofactor)
    (notProduct : factor.isApplyOf Operator.mul = false)
    (notLiteral : cofactor.isNumber = false)
    (built :
      table.construct Operator.mul [successor cofactor, factor] = .ok result) :
    Transform.foldAdditions? table table.construct
        (.apply Operator.add [lhs, rhs]) =
      some result := by
  have different : factor ≠ product := by
    rintro rfl
    rw [Transform.cofactor?, operands?_eq_none_of_not_isApplyOf notProduct] at found
    cases found
  have flat :
      Chain.flatten Operator.add (.apply Operator.add [lhs, rhs]) =
          [addend, addend'] ∨
        Chain.flatten Operator.add (.apply Operator.add [lhs, rhs]) =
          [addend', addend] := by
    rw [Chain.flatten_pair]
    rcases isPair with ⟨rfl, rfl⟩ | ⟨rfl, rfl⟩
    · rw [Chain.flatten_of_not_isApplyOf notSums.1,
        Chain.flatten_of_not_isApplyOf notSums.2]
      exact .inl rfl
    · rw [Chain.flatten_of_not_isApplyOf notSums.1,
        Chain.flatten_of_not_isApplyOf notSums.2]
      exact .inr rfl
  have merges
      {groups : List (Expr × Float)}
      (either :
        groups = [(factor, 1), (product, 1)] ∨
          groups = [(product, 1), (factor, 1)]) :
      Transform.mergeShared? table.construct groups false 2 =
        some ([(result, 1)], true) :=
    mergeShared?_of_cofactor found notProduct notLiteral built either
  have terms :
      Transform.groupTerms? table.construct [(result, 1)] = some [result] := by
    simp [Transform.groupTerms?, Transform.scaled, Except.toOption]
  have chain :
      Chain.build table.construct Operator.add (sortCanonically [result]) =
        .ok result :=
    rfl
  have isSum :
      (Expr.apply Operator.add [lhs, rhs]).isApplyOf Operator.add = true :=
    rfl
  rcases flat with flat | flat
  · simp [Transform.foldAdditions?, isSum, flat, notLiterals,
      likeTerms_pair split split' different, merges (.inl rfl), terms, chain,
      Except.toOption]
  · simp [Transform.foldAdditions?, isSum, flat, notLiterals,
      likeTerms_pair split' split different.symm, merges (.inr rfl), terms, chain,
      Except.toOption]

end Folding

/-! ## Visiting the sum and the product -/

section Coefficient

variable {lhs rhs : Expr}

theorem splitCoefficient_of_notProduct
    (notProduct : lhs.isApplyOf Operator.mul = false) :
    Transform.splitCoefficient lhs = (1, lhs) := by
  rw [Transform.splitCoefficient,
    operands?_eq_none_of_not_isApplyOf notProduct]

theorem splitCoefficient_product
    (notLiteral : lhs.isNumber = false) :
    Transform.splitCoefficient (.apply Operator.mul [lhs, rhs]) =
      (1, .apply Operator.mul [lhs, rhs]) := by
  rw [Transform.splitCoefficient, operands?_pair]
  cases lhs with
  | number value =>
      cases notLiteral
  | _ =>
      rfl

end Coefficient

section Sum

variable {table : SymbolTable} {lhs rhs : Expr}

theorem construct_sum
    (notLiterals : (lhs.isNumber && rhs.isNumber) = false) :
    table.construct Operator.add [lhs, rhs] = .ok (stored Operator.add lhs rhs) :=
  construct_sum_eq notLiterals

theorem storesPair_sum
    (notLiterals : (lhs.isNumber && rhs.isNumber) = false) :
    StoresPair table Operator.add lhs rhs := by
  rintro first second (⟨rfl, rfl⟩ | ⟨rfl, rfl⟩)
  · exact construct_sum notLiterals
  · exact construct_sum (by rwa [Bool.and_comm])

theorem inOrder_one
    (notLiteral : rhs.isNumber = false) :
    InOrder Operator.add (.number 1) rhs := by
  rw [InOrder, (operandCompare_linearOn _).swap (.number 1) rhs,
    operandCompare_number _ _ notLiteral]
  decide

/-- A sum in order is kept before it is folded. -/
theorem visited_sum_before
    (lhsNotLiteral : lhs.isNumber = false)
    (rhsNotLiteral : rhs.isNumber = false)
    (inOrder : InOrder Operator.add lhs rhs) :
    visited table rulesBeforeSpreading (.apply Operator.add [lhs, rhs]) =
      .apply Operator.add [lhs, rhs] := by
  have notZero
      {expr : Expr}
      (notLiteral : expr.isNumber = false) :
      sumSpec.identity ≠ some expr := by
    rintro same
    cases same
    cases notLiteral
  apply visited_of_waits
  intro rule member
  simp only [rulesBeforeSpreading, catalogue, List.take_succ_cons,
    List.take_zero, List.mem_cons, List.not_mem_nil, or_false] at member
  rcases member with rfl | rfl | rfl | rfl | rfl
  · exact inOrder.commutativeOrder?_eq_none _
  · exact Transform.stripIdentities?_pair table.specOf?_add
      (notZero lhsNotLiteral) (notZero rhsNotLiteral)
  · exact Transform.evaluateNumeric?_pair table.construct
      (by rw [lhsNotLiteral, Bool.false_and])
  · rfl
  · rfl

end Sum

namespace HasCofactor

variable {table : SymbolTable} {factor cofactor lhs rhs : Expr}

theorem ne
    (shares : HasCofactor factor cofactor) :
    factor ≠ cofactor := by
  rintro rfl
  exact shares.different rfl

/-- The product of both is kept. -/
theorem visited_product
    (shares : HasCofactor factor cofactor)
    (isPair : IsPair lhs rhs factor cofactor)
    (inOrder : InOrder Operator.mul lhs rhs) :
    visited table catalogue (.apply Operator.mul [lhs, rhs]) =
      .apply Operator.mul [lhs, rhs] := by
  rcases isPair with ⟨rfl, rfl⟩ | ⟨rfl, rfl⟩
  · exact SymbolicAlgebra.visited_product shares.isFactor
      shares.cofactor_isFactor shares.different inOrder
      ⟨shares.notSum, shares.cofactor_notSum⟩
      ⟨shares.notQuotient, shares.cofactor_notQuotient⟩
  · exact SymbolicAlgebra.visited_product shares.cofactor_isFactor
      shares.isFactor shares.different.symm inOrder
      ⟨shares.cofactor_notSum, shares.notSum⟩
      ⟨shares.cofactor_notQuotient, shares.notQuotient⟩

/-- The factored form is kept after the folding of sums. -/
theorem visited_factored_after
    (shares : HasCofactor factor cofactor) :
    visited table rulesAfterFolding
        (stored Operator.mul (successor cofactor) factor) =
      stored Operator.mul (successor cofactor) factor := by
  obtain ⟨lhs, rhs, shape, inOrder, ⟨rfl, rfl⟩ | ⟨rfl, rfl⟩⟩ :=
    exists_stored Operator.mul (successor cofactor) factor
  · rw [shape]
    exact visited_product_after (isFactor_successor cofactor) shares.isFactor
      inOrder
  · rw [shape]
    exact visited_product_after shares.isFactor (isFactor_successor cofactor)
      inOrder

/-- A sum of a term with this factor and its product is factored, once distribution is over. -/
theorem visited_folding
    (shares : HasCofactor factor cofactor)
    {addend addend' product : Expr}
    (isPair : IsPair lhs rhs addend addend')
    (split : Transform.splitCoefficient addend = (1, factor))
    (split' : Transform.splitCoefficient addend' = (1, product))
    (notLiterals : addend.isNumber = false ∧ addend'.isNumber = false)
    (notSums :
      addend.isApplyOf Operator.add = false ∧
        addend'.isApplyOf Operator.add = false)
    (found : Transform.cofactor? factor product = some cofactor) :
    visited table
        (⟨"distribute-and-or", Transform.andOverOr?⟩ ::
          ⟨"cancel-division", Transform.cancelDivision?⟩ ::
            ⟨"fold-additions", Transform.foldAdditions?⟩ :: rulesAfterFolding)
        (.apply Operator.add [lhs, rhs]) =
      stored Operator.mul (successor cofactor) factor := by
  have built :
      table.construct Operator.mul [successor cofactor, factor] =
        .ok (stored Operator.mul (successor cofactor) factor) :=
    construct_product rfl shares.isFactor.notLiteral
  have folded :=
    foldAdditions?_of_cofactor isPair split split' notLiterals notSums found
      shares.isFactor.notProduct shares.cofactor_isFactor.notLiteral built
  rw [visited_cons, result_of_none rfl, visited_cons, result_of_none rfl,
    visited_cons, result_of_some folded]
  exact shares.visited_factored_after

/-- The sum of the factor and the product is factored. -/
theorem visited_sum
    (shares : HasCofactor factor cofactor)
    {product first second : Expr}
    (shape : product = .apply Operator.mul [first, second])
    (isProduct : IsPair first second factor cofactor)
    (isPair : IsPair lhs rhs factor product)
    (inOrder : InOrder Operator.add lhs rhs) :
    visited table catalogue (.apply Operator.add [lhs, rhs]) =
      stored Operator.mul (successor cofactor) factor := by
  have firstNotLiteral : first.isNumber = false := by
    rcases isProduct with ⟨rfl, -⟩ | ⟨rfl, -⟩
    · exact shares.isFactor.notLiteral
    · exact shares.cofactor_isFactor.notLiteral
  subst shape
  have notLiterals : lhs.isNumber = false ∧ rhs.isNumber = false := by
    rcases isPair with ⟨rfl, rfl⟩ | ⟨rfl, rfl⟩
    · exact ⟨shares.isFactor.notLiteral, rfl⟩
    · exact ⟨rfl, shares.isFactor.notLiteral⟩
  rw [catalogue_eq, visited_append,
    visited_sum_before notLiterals.1 notLiterals.2 inOrder, visited_cons,
    result_of_none rfl]
  exact shares.visited_folding isPair
    (splitCoefficient_of_notProduct shares.isFactor.notProduct)
    (splitCoefficient_product firstNotLiteral)
    ⟨shares.isFactor.notLiteral, rfl⟩ ⟨shares.notSum, rfl⟩
    (cofactor?_of_isPair isProduct shares.ne)

/-- The factored form is distributed to a multiple of the factor by one and a product. -/
theorem mulOverAdd?_factored
    (shares : HasCofactor factor cofactor)
    (isPair : IsPair lhs rhs (successor cofactor) factor) :
    Transform.mulOverAdd? table table.construct (.apply Operator.mul [lhs, rhs]) =
      some (stored Operator.add (.apply Operator.mul [.number 1, factor])
        (stored Operator.mul cofactor factor)) := by
  have unit : whole 1 = number 1 :=
    congrArg number floatOfInt_one
  have multiple :
      table.construct Operator.mul [.number 1, factor] =
        .ok (.apply Operator.mul [.number 1, factor]) := by
    rw [← unit]
    exact construct_multiple_eq (by decide) one_ne_zero
      shares.isFactor.notLiteral (.inl rfl)
  have product :
      table.construct Operator.mul [cofactor, factor] =
        .ok (stored Operator.mul cofactor factor) :=
    construct_product shares.cofactor_isFactor.notLiteral
      shares.isFactor.notLiteral
  have spreads :
      Transform.spread table.construct Operator.mul Operator.add factor (.number 1)
          cofactor =
        .ok (stored Operator.add (.apply Operator.mul [.number 1, factor])
          (stored Operator.mul cofactor factor)) := by
    rw [Transform.spread, multiple, ok_bind, product, ok_bind, construct_sum rfl]
  have notSum : factor.operands? Operator.add = none :=
    operands?_eq_none_of_not_isApplyOf shares.notSum
  have sum :
      (successor cofactor).operands? Operator.add = some (.number 1, cofactor) :=
    operands?_pair _ _ _
  rcases isPair with ⟨rfl, rfl⟩ | ⟨rfl, rfl⟩
  · simp [Transform.mulOverAdd?, Transform.distribute?, operands?_pair, sum,
      spreads, Except.toOption]
  · simp [Transform.mulOverAdd?, Transform.distribute?, operands?_pair, sum,
      notSum, spreads, Except.toOption]

/-- The factored form is distributed and factored again. -/
theorem visited_factored
    (shares : HasCofactor factor cofactor)
    (isPair : IsPair lhs rhs (successor cofactor) factor)
    (inOrder : InOrder Operator.mul lhs rhs) :
    visited table catalogue (.apply Operator.mul [lhs, rhs]) =
      stored Operator.mul (successor cofactor) factor := by
  have before :
      visited table rulesBeforeSpreading (.apply Operator.mul [lhs, rhs]) =
        .apply Operator.mul [lhs, rhs] := by
    rcases isPair with ⟨rfl, rfl⟩ | ⟨rfl, rfl⟩
    · exact visited_product_before (isFactor_successor cofactor)
        shares.isFactor shares.notSuccessor.symm inOrder
    · exact visited_product_before shares.isFactor
        (isFactor_successor cofactor) shares.notSuccessor inOrder
  obtain ⟨first, second, shape, -, isProduct⟩ :=
    exists_stored Operator.mul cofactor factor
  have firstNotLiteral : first.isNumber = false := by
    rcases isProduct with ⟨rfl, -⟩ | ⟨rfl, -⟩
    · exact shares.cofactor_isFactor.notLiteral
    · exact shares.isFactor.notLiteral
  obtain ⟨addend, addend', sum, -, addends⟩ :=
    exists_stored Operator.add (.apply Operator.mul [.number 1, factor])
      (stored Operator.mul cofactor factor)
  rw [catalogue_eq, visited_append, before, visited_cons,
    result_of_some (shares.mulOverAdd?_factored isPair), sum]
  rw [shape] at addends
  exact shares.visited_folding addends rfl
    (splitCoefficient_product firstNotLiteral) ⟨rfl, rfl⟩ ⟨rfl, rfl⟩
    (cofactor?_of_isPair isProduct.swap shares.ne)

/-! ## Simplification -/

/-- One more than the cofactor has nothing to fold. -/
theorem foldAdditions?_successor
    (shares : HasCofactor factor cofactor)
    (table : SymbolTable)
    (builder : Builder) :
    Transform.foldAdditions? table builder (successor cofactor) = none := by
  have flat :
      Chain.flatten Operator.add (successor cofactor) = [.number 1, cofactor] := by
    rw [successor, Chain.flatten_pair,
      Chain.flatten_of_not_isApplyOf shares.cofactor_notSum]
    rfl
  have terms : Transform.likeTerms [cofactor] = [(cofactor, 1)] := by
    simp [Transform.likeTerms, Transform.addTerm,
      splitCoefficient_of_notProduct shares.cofactor_isFactor.notProduct]
  have alone :
      Transform.mergeShared? builder [(cofactor, 1)] false 1 =
        some ([(cofactor, 1)], false) := by
    simp [Transform.mergeShared?, Transform.sharedFactor?, Transform.multipleOf?]
  have isSum : (successor cofactor).isApplyOf Operator.add = true :=
    rfl
  have literal : (Expr.number 1).isNumber = true :=
    rfl
  simp [Transform.foldAdditions?, isSum, flat, literal,
    shares.cofactor_isFactor.notLiteral, terms, alone]

/-- One more than the cofactor is regrouped already. -/
theorem reassociate?_successor
    (shares : HasCofactor factor cofactor)
    (table : SymbolTable)
    (builder : Builder) :
    Transform.reassociate? table builder (successor cofactor) = none := by
  have notLiteral := shares.cofactor_isFactor.notLiteral
  have flat :
      Chain.flatten Operator.add (successor cofactor) = [.number 1, cofactor] := by
    rw [successor, Chain.flatten_pair,
      Chain.flatten_of_not_isApplyOf shares.cofactor_notSum]
    rfl
  have nested :
      Chain.isRightNested Operator.add (successor cofactor) = true := by
    simp [successor, Chain.isRightNested, isApplyOf,
      isRightNested_of_not_isApplyOf shares.cofactor_notSum]
  have literal : (Expr.number 1).isNumber = true :=
    rfl
  have literals :
      Transform.literals? sumSpec Operator.add (successor cofactor) =
        some [.number 1] := by
    simp [Transform.literals?, flat, literal, notLiteral,
      Transform.foldedConstants?]
  have others :
      Transform.nonliterals Operator.add (successor cofactor) = [cofactor] := by
    simp [Transform.nonliterals, flat, literal, notLiteral]
  have kept :
      Transform.keptLiterals sumSpec [cofactor] [.number 1] = [.number 1] := by
    have notNeutral : Transform.isIdentity sumSpec (.number 1) = false := by
      decide
    simp [Transform.keptLiterals, notNeutral]
  have sorted :
      sortCanonically [.number 1, cofactor] = [.number 1, cofactor] := by
    apply sortBy_pair
    rw [canonicalCompare_swap, canonicalCompare_number 1 notLiteral]
    decide
  have unabsorbed : Transform.absorbing? sumSpec [.number 1] = none :=
    rfl
  have regroups :
      Transform.regrouping? sumSpec Operator.add (successor cofactor) = none := by
    rw [Transform.regrouping?_of_literals? literals unabsorbed, others, kept]
    simp [sorted, Transform.rebuilding?, flat, nested]
  exact (Transform.reassociate?_eq table.specOf?_add rfl rfl ..).trans
    (congrArg (Option.bind · _) regroups)

/-- One more than the cofactor is kept. -/
theorem visited_successor
    (shares : HasCofactor factor cofactor) :
    visited table catalogue (successor cofactor) = successor cofactor := by
  have notLiteral := shares.cofactor_isFactor.notLiteral
  have inOrder := inOrder_one notLiteral
  have notZero : sumSpec.effectiveLeftIdentity ≠ some (.number 1) := by
    decide
  have notZero' : sumSpec.effectiveRightIdentity ≠ some cofactor := by
    rintro same
    cases same
    cases notLiteral
  apply visited_of_waits
  intro rule member
  simp only [catalogue, List.mem_cons, List.not_mem_nil, or_false] at member
  rcases member with rfl | rfl | rfl | rfl | rfl | rfl | rfl | rfl | rfl | rfl |
      rfl | rfl
  · exact inOrder.commutativeOrder?_eq_none _
  · exact Transform.stripIdentities?_pair table.specOf?_add notZero notZero'
  · exact Transform.evaluateNumeric?_pair table.construct
      (by rw [notLiteral, Bool.and_false])
  · rfl
  · rfl
  · rfl
  · rfl
  · rfl
  · exact shares.foldAdditions?_successor table table.construct
  · rfl
  · exact shares.reassociate?_successor table table.construct
  · rfl

theorem visited_stored_product
    (shares : HasCofactor factor cofactor) :
    visited table catalogue (stored Operator.mul factor cofactor) =
      stored Operator.mul factor cofactor := by
  obtain ⟨lhs, rhs, shape, inOrder, isPair⟩ :=
    exists_stored Operator.mul factor cofactor
  rw [shape, shares.visited_product isPair inOrder]

theorem visited_stored_factored
    (shares : HasCofactor factor cofactor)
    (isPair : IsPair lhs rhs (successor cofactor) factor) :
    visited table catalogue (stored Operator.mul lhs rhs) =
      stored Operator.mul (successor cofactor) factor := by
  obtain ⟨first, second, shape, inOrder, operands⟩ :=
    exists_stored Operator.mul lhs rhs
  rw [shape]
  refine shares.visited_factored ?_ inOrder
  rcases isPair with ⟨rfl, rfl⟩ | ⟨rfl, rfl⟩
  · exact operands
  · exact operands.swap

theorem visited_stored_sum
    (shares : HasCofactor factor cofactor)
    (isPair : IsPair lhs rhs factor (stored Operator.mul factor cofactor)) :
    visited table catalogue (stored Operator.add lhs rhs) =
      stored Operator.mul (successor cofactor) factor := by
  obtain ⟨first, second, product, -, isProduct⟩ :=
    exists_stored Operator.mul factor cofactor
  obtain ⟨first', second', shape, inOrder, operands⟩ :=
    exists_stored Operator.add lhs rhs
  rw [shape]
  refine shares.visited_sum product isProduct ?_ inOrder
  rcases isPair with ⟨rfl, rfl⟩ | ⟨rfl, rfl⟩
  · exact operands
  · exact operands.swap

/-! ## Fixed points -/

variable
  (factorFixed : pass table catalogue factor = .ok factor)
  (cofactorFixed : pass table catalogue cofactor = .ok cofactor)

include cofactorFixed in
theorem pass_successor
    (shares : HasCofactor factor cofactor) :
    pass table catalogue (successor cofactor) = .ok (successor cofactor) := by
  have notLiteral := shares.cofactor_isFactor.notLiteral
  have shape : stored Operator.add (.number 1) cofactor = successor cofactor :=
    (inOrder_one notLiteral).stored_eq
  have stores : StoresPair table Operator.add (.number 1) cofactor :=
    storesPair_sum (by rw [notLiteral, Bool.and_false])
  have passes := pass_stored rfl (pass_leaf rfl) cofactorFixed stores
  rw [shape, shares.visited_successor] at passes
  exact passes

include factorFixed cofactorFixed in
theorem pass_product
    (shares : HasCofactor factor cofactor) :
    pass table catalogue (stored Operator.mul factor cofactor) =
      .ok (stored Operator.mul factor cofactor) := by
  rw [pass_stored rfl factorFixed cofactorFixed
    (storesPair_product shares.isFactor.notLiteral
      shares.cofactor_isFactor.notLiteral), shares.visited_stored_product]

include factorFixed cofactorFixed in
theorem pass_factored
    (shares : HasCofactor factor cofactor) :
    pass table catalogue (stored Operator.mul (successor cofactor) factor) =
      .ok (stored Operator.mul (successor cofactor) factor) := by
  rw [pass_stored rfl (shares.pass_successor cofactorFixed) factorFixed
    (storesPair_product rfl shares.isFactor.notLiteral),
    shares.visited_stored_factored (.inl ⟨rfl, rfl⟩)]

end HasCofactor

/--
A factor plus its product with a cofactor is the factor times one more than the cofactor, in either operand
order.
-/
theorem apply_sum_of_product
    {workspace : Workspace}
    (enough : 2 ≤ workspace.ceiling)
    {factor cofactor : Expr}
    (shares : HasCofactor factor cofactor)
    (factorFixed : pass workspace.table catalogue factor = .ok factor)
    (cofactorFixed : pass workspace.table catalogue cofactor = .ok cofactor) :
    ∃ product sum result,
      workspace.apply Operator.mul [factor, cofactor] = .ok product ∧
        workspace.apply Operator.add [.number 1, cofactor] = .ok sum ∧
          workspace.apply Operator.add [factor, product] = .ok result ∧
            workspace.apply Operator.add [product, factor] = .ok result ∧
              workspace.apply Operator.mul [factor, sum] = .ok result ∧
                workspace.apply Operator.mul [sum, factor] = .ok result := by
  have notLiteral := shares.isFactor.notLiteral
  have cofactorNotLiteral := shares.cofactor_isFactor.notLiteral
  have unitFixed : pass workspace.table catalogue (.number 1) = .ok (.number 1) :=
    pass_leaf rfl
  have sumFixed := shares.pass_successor cofactorFixed
  have productFixed := shares.pass_product factorFixed cofactorFixed
  have resultFixed := shares.pass_factored factorFixed cofactorFixed
  refine ⟨stored Operator.mul factor cofactor, successor cofactor,
    stored Operator.mul (successor cofactor) factor, ?_, ?_, ?_, ?_, ?_, ?_⟩
  · exact apply_of_visited enough rfl factorFixed cofactorFixed
      (storesPair_product notLiteral cofactorNotLiteral)
      shares.visited_stored_product productFixed
  · refine apply_of_visited enough rfl unitFixed cofactorFixed
      (storesPair_sum (by rw [cofactorNotLiteral, Bool.and_false])) ?_ sumFixed
    rw [(inOrder_one cofactorNotLiteral).stored_eq]
    exact shares.visited_successor
  · exact apply_of_visited enough rfl factorFixed productFixed
      (storesPair_sum (by rw [notLiteral, Bool.false_and]))
      (shares.visited_stored_sum (.inl ⟨rfl, rfl⟩)) resultFixed
  · exact apply_of_visited enough rfl productFixed factorFixed
      (storesPair_sum rfl)
      (shares.visited_stored_sum (.inr ⟨rfl, rfl⟩)) resultFixed
  · exact apply_of_visited enough rfl factorFixed sumFixed
      (storesPair_product notLiteral rfl)
      (shares.visited_stored_factored (.inr ⟨rfl, rfl⟩)) resultFixed
  · exact apply_of_visited enough rfl sumFixed factorFixed
      (storesPair_product rfl notLiteral)
      (shares.visited_stored_factored (.inl ⟨rfl, rfl⟩)) resultFixed

/-- `x + x * y ** 2` is factored to `x * (1 + y ** 2)`. -/
theorem apply_sum_of_product_square :
    let x := Expr.symbol "x"
    let square := Expr.apply Operator.pow [.symbol "y", .number 2]
    let workspace : Workspace := {}
    HasCofactor x square ∧
      pass workspace.table catalogue square = .ok square ∧
        ∃ product sum result,
          workspace.apply Operator.mul [x, square] = .ok product ∧
            workspace.apply Operator.add [.number 1, square] = .ok sum ∧
              workspace.apply Operator.add [x, product] = .ok result ∧
                workspace.apply Operator.add [product, x] = .ok result ∧
                  workspace.apply Operator.mul [x, sum] = .ok result ∧
                    workspace.apply Operator.mul [sum, x] = .ok result := by
  intro x square workspace
  have shares : HasCofactor x square :=
    { isFactor := .base rfl rfl rfl
      cofactor_isFactor := .power rfl rfl rfl (by decide) (by decide)
      notSum := rfl
      cofactor_notSum := rfl
      notQuotient := rfl
      cofactor_notQuotient := rfl
      different := by decide
      notSuccessor := by decide }
  have xFixed : pass workspace.table catalogue x = .ok x :=
    pass_leaf rfl
  have squareFixed : pass workspace.table catalogue square = .ok square := by
    decide +kernel
  exact ⟨shares, squareFixed,
    apply_sum_of_product (by decide) shares xFixed squareFixed⟩

/-- `x + x * x` is not factored: its product is the power `x ** 2`. -/
theorem apply_sum_of_square_ne :
    ¬∀ (workspace : Workspace)
        (factor cofactor product sum result result' : Expr),
      2 ≤ workspace.ceiling →
        factor.isNumber = false → cofactor.isNumber = false →
          pass workspace.table catalogue factor = .ok factor →
            pass workspace.table catalogue cofactor = .ok cofactor →
              workspace.apply Operator.mul [factor, cofactor] = .ok product →
                workspace.apply Operator.add [.number 1, cofactor] = .ok sum →
                  workspace.apply Operator.add [factor, product] = .ok result →
                    workspace.apply Operator.mul [factor, sum] = .ok result' →
                      result = result' := by
  intro agrees
  let x := Expr.symbol "x"
  let square := Expr.apply Operator.pow [x, .number 2]
  let sum := Expr.apply Operator.add [.number 1, x]
  have squared : ({} : Workspace).apply Operator.mul [x, x] = .ok square := by
    decide +kernel
  have added : ({} : Workspace).apply Operator.add [.number 1, x] = .ok sum := by
    decide +kernel
  have stays :
      ({} : Workspace).apply Operator.add [x, square] =
        .ok (.apply Operator.add [x, square]) := by
    decide +kernel
  have factored :
      ({} : Workspace).apply Operator.mul [x, sum] =
        .ok (.apply Operator.mul [x, sum]) := by
    decide +kernel
  have differ :
      Expr.apply Operator.add [x, square] ≠ .apply Operator.mul [x, sum] := by
    decide
  exact differ
    (agrees {} x x square sum _ _ (by decide) rfl rfl (pass_leaf rfl)
      (pass_leaf rfl) squared added stays factored)

end SymbolicAlgebra
