import SymbolicAlgebra.Proofs.Chain.Nested
import SymbolicAlgebra.Proofs.Linear.Construction
import SymbolicAlgebra.Proofs.Pair
import SymbolicAlgebra.Proofs.Regrouping

/-!
# Products of two factors

A factor is a base that is neither a product nor a power, or a power of such a base.  A product of two
factors with different bases is kept by the rules that come before distribution, and by those that come
after the folding of sums.
-/

namespace SymbolicAlgebra

open SymbolicAlgebra.Expr

/-- The properties of exponentiation. -/
def powerSpec : OperatorSpec :=
  { evaluator := some .pow, rightIdentity := some (.number 1) }

theorem SymbolTable.specOf?_pow
    (table : SymbolTable) :
    table.specOf? Operator.pow = some powerSpec :=
  rfl

/-! ## Factors -/

namespace Expr

/-- The base of a power; anything else is its own base. -/
def base
    (expr : Expr) : Expr :=
  match expr.operands? Operator.pow with
  | some (base, _) => base
  | none => expr

/-- The exponent of a power; anything else is a first power. -/
def exponent
    (expr : Expr) : Expr :=
  match expr.operands? Operator.pow with
  | some (_, exponent) => exponent
  | none => .number 1

/-- The expression is a base that is neither a product nor a power, or a power of such a base. -/
inductive IsFactor : (expr : Expr) → Prop where
  | base
      {expr : Expr}
      (notLiteral : expr.isNumber = false)
      (notProduct : expr.isApplyOf Operator.mul = false)
      (notPower : expr.isBinaryOf Operator.pow = false) :
      IsFactor expr
  | power
      {base exponent : Expr}
      (notLiterals : (base.isNumber && exponent.isNumber) = false)
      (notProduct : base.isApplyOf Operator.mul = false)
      (notPower : base.isBinaryOf Operator.pow = false)
      (notZero : exponent.number?.any (· == 0) = false)
      (notOne : exponent.number?.any (· == 1) = false) :
      IsFactor (.apply Operator.pow [base, exponent])

section Base

variable {expr : Expr}

theorem base_of_notPower
    (notPower : expr.isBinaryOf Operator.pow = false) :
    expr.base = expr ∧ expr.exponent = .number 1 := by
  have noOperands : expr.operands? Operator.pow = none := by
    simpa [isBinaryOf] using notPower
  simp [base, exponent, noOperands]

theorem base_power
    (base exponent : Expr) :
    (apply Operator.pow [base, exponent]).base = base ∧
      (apply Operator.pow [base, exponent]).exponent = exponent :=
  ⟨rfl, rfl⟩

theorem IsFactor.notLiteral
    (isFactor : expr.IsFactor) :
    expr.isNumber = false := by
  cases isFactor with
  | base notLiteral notProduct notPower =>
      exact notLiteral
  | power notLiterals notProduct notPower notZero notOne =>
      rfl

theorem IsFactor.notProduct
    (isFactor : expr.IsFactor) :
    expr.isApplyOf Operator.mul = false := by
  cases isFactor with
  | base notLiteral notProduct notPower =>
      exact notProduct
  | power notLiterals notProduct notPower notZero notOne =>
      rfl

end Base

end Expr

namespace Factors

/-- The operands of the product that factors are written as. -/
def operandsWithCoefficient
    (factors : Factors)
    (operands : List Expr) : List Expr :=
  if factors.coefficient != 1 || operands.isEmpty then
    operands ++ [.ofFloat factors.coefficient]
  else
    operands

/-- A power of a new base is put last. -/
theorem insertPower?_of_notMem
    {builder : Builder}
    {base exponent : Expr}
    {powers : List (Expr × Expr)}
    (fresh : base ∉ powers.map (·.1)) :
    insertPower? builder base exponent powers =
      some (powers ++ [(base, exponent)]) := by
  induction powers with
  | nil =>
      rfl
  | cons entry rest inductionHypothesis =>
      rw [List.map_cons, List.mem_cons, not_or] at fresh
      rw [insertPower?, if_neg (Ne.symm fresh.1), inductionHypothesis fresh.2]
      rfl

/-- Only a literal power of a literal goes into the coefficient. -/
theorem push?_of_not_literals
    {base exponent : Expr}
    (notLiterals : (base.isNumber && exponent.isNumber) = false)
    (builder : Builder)
    (factors : Factors) :
    push? builder factors base exponent =
      (insertPower? builder base exponent factors.powers).map
        ({ factors with powers := · }) := by
  unfold push?
  split
  · cases notLiterals
  · rfl

/-- An expression that is neither a product nor a power is pushed as it is. -/
theorem collect?_eq_push?
    {expr : Expr}
    (notProduct : expr.isApplyOf Operator.mul = false)
    (notPower : expr.isBinaryOf Operator.pow = false)
    (builder : Builder)
    (factors : Factors)
    (exponent : Expr) :
    collect? builder factors expr exponent =
      push? builder factors expr exponent := by
  cases expr with
  | apply head args =>
      unfold collect?
      rw [if_neg (of_decide_eq_false notProduct)]
      split
      · exact if_neg (by rintro rfl; cases notPower)
      · rfl
  | _ =>
      rfl

/-- A factor with a new base is put last. -/
theorem collect?_of_isFactor
    {builder : Builder}
    {factors : Factors}
    {expr : Expr}
    (isFactor : expr.IsFactor)
    (fresh : expr.base ∉ factors.powers.map (·.1)) :
    collect? builder factors expr (.number 1) =
      some { factors with
        powers := factors.powers ++ [(expr.base, expr.exponent)] } := by
  cases isFactor with
  | base notLiteral notProduct notPower =>
      obtain ⟨sameBase, sameExponent⟩ := base_of_notPower notPower
      rw [sameBase] at fresh ⊢
      rw [collect?_eq_push? notProduct notPower,
        push?_of_not_literals (by rw [notLiteral, Bool.false_and]),
        insertPower?_of_notMem fresh, sameExponent]
      rfl
  | @power base exponent notLiterals notProduct notPower notZero notOne =>
      have collected :
          collect? builder factors (.apply Operator.pow [base, exponent])
              (.number 1) =
            collect? builder factors base exponent :=
        rfl
      rw [(base_power base exponent).1] at fresh ⊢
      rw [(base_power base exponent).2, collected, collect?_eq_push? notProduct notPower,
        push?_of_not_literals notLiterals, insertPower?_of_notMem fresh]
      rfl

/-- A factor is written as it was. -/
theorem operands?_of_isFactor
    {table : SymbolTable}
    {expr : Expr}
    {rest : List (Expr × Expr)}
    {following : List Expr}
    (isFactor : expr.IsFactor)
    (later : operands? table.construct rest = some following) :
    operands? table.construct ((expr.base, expr.exponent) :: rest) =
      some (expr :: following) := by
  rw [operands?, later]
  cases isFactor with
  | base notLiteral notProduct notPower =>
      obtain ⟨sameBase, sameExponent⟩ := base_of_notPower notPower
      rw [sameBase, sameExponent]
      rfl
  | @power base exponent notLiterals notProduct notPower notZero notOne =>
      have stored :
          table.construct Operator.pow [base, exponent] =
            .ok (.apply Operator.pow [base, exponent]) :=
        construct_stored table.specOf?_pow (List.cons_ne_nil _ _)
          (powerSpec.evaluateLiterals?_pair _ notLiterals) rfl
      simp only [(base_power base exponent).1, (base_power base exponent).2,
        notZero, notOne, Bool.false_eq_true, if_false, stored]
      rfl

end Factors

/-! ## Products of two -/

section Product

variable {table : SymbolTable} {builder : Builder} {lhs rhs : Expr}

theorem absorbed?_product_of_nonliterals
    (lhsNotLiteral : lhs.isNumber = false)
    (rhsNotLiteral : rhs.isNumber = false) :
    productSpec.absorbed? [lhs, rhs] = none := by
  rw [absorbed?_product, if_neg]
  rw [List.mem_pair]
  rintro (rfl | rfl)
  · cases lhsNotLiteral
  · cases rhsNotLiteral

theorem construct_product
    (lhsNotLiteral : lhs.isNumber = false)
    (rhsNotLiteral : rhs.isNumber = false) :
    table.construct Operator.mul [lhs, rhs] = .ok (stored Operator.mul lhs rhs) :=
  construct_stored table.specOf?_mul (List.cons_ne_nil _ _)
    (productSpec.evaluateLiterals?_pair _ (by rw [lhsNotLiteral, Bool.false_and]))
    (absorbed?_product_of_nonliterals lhsNotLiteral rhsNotLiteral)

theorem storesPair_product
    {first second : Expr}
    (firstNotLiteral : first.isNumber = false)
    (secondNotLiteral : second.isNumber = false) :
    StoresPair table Operator.mul first second := by
  intro lhs rhs isPair
  obtain ⟨lhsNotLiteral, rhsNotLiteral⟩ :=
    isPair.forall (fun expr => expr.isNumber = false) firstNotLiteral
      secondNotLiteral
  exact construct_product lhsNotLiteral rhsNotLiteral

/-- The factors of a product in order are written as this product. -/
theorem convertPowers?_product
    (lhsFactor : lhs.IsFactor)
    (rhsFactor : rhs.IsFactor)
    (different : lhs.base ≠ rhs.base)
    (inOrder : InOrder Operator.mul lhs rhs) :
    Transform.convertPowers?.result table (.apply Operator.mul [lhs, rhs]) =
      .apply Operator.mul [lhs, rhs] := by
  have collected :
      Factors.of? table.construct (.apply Operator.mul [lhs, rhs]) =
        some ⟨1, [(lhs.base, lhs.exponent), (rhs.base, rhs.exponent)]⟩ := by
    have lhsCollected :
        Factors.collect? table.construct Factors.one lhs (.number 1) =
          some ⟨1, [(lhs.base, lhs.exponent)]⟩ :=
      Factors.collect?_of_isFactor lhsFactor List.not_mem_nil
    rw [Factors.of?, Factors.collect?, if_pos rfl, Factors.collectArgs?,
      lhsCollected]
    dsimp only
    rw [Factors.collectArgs?, Factors.collect?_of_isFactor rhsFactor]
    · rfl
    · simpa using different.symm
  have operands :
      Factors.operands? table.construct
          [(lhs.base, lhs.exponent), (rhs.base, rhs.exponent)] =
        some [lhs, rhs] :=
    Factors.operands?_of_isFactor lhsFactor
      (Factors.operands?_of_isFactor rhsFactor rfl)
  have built :
      Chain.build table.construct Operator.mul
          (sortCanonically [lhs, rhs]) =
        .ok (.apply Operator.mul [lhs, rhs]) := by
    rw [inOrder.sortCanonically_eq lhsFactor.notProduct rhsFactor.notProduct,
      Chain.build, Chain.build, ok_bind,
      construct_product lhsFactor.notLiteral rhsFactor.notLiteral,
      inOrder.stored_eq]
  apply result_of_some
  have unit : ((1 : Float) != 1) = false := by
    decide
  simp [Transform.convertPowers?, isApplyOf, collected, Factors.rebuild?, unit,
    operands, built, Except.toOption]

/-- Regrouping leaves a product of two in order alone. -/
theorem reassociate?_product
    (table : SymbolTable)
    (builder : Builder)
    (lhsNotLiteral : lhs.isNumber = false)
    (rhsNotLiteral : rhs.isNumber = false)
    (lhsSingle : lhs.isApplyOf Operator.mul = false)
    (rhsSingle : rhs.isApplyOf Operator.mul = false)
    (inOrder : InOrder Operator.mul lhs rhs) :
    Transform.reassociate? table builder (.apply Operator.mul [lhs, rhs]) =
      none := by
  have flat :
      Chain.flatten Operator.mul (.apply Operator.mul [lhs, rhs]) =
        [lhs, rhs] := by
    rw [Chain.flatten_pair, Chain.flatten_of_not_isApplyOf lhsSingle,
      Chain.flatten_of_not_isApplyOf rhsSingle]
    rfl
  have nested :
      Chain.isRightNested Operator.mul (.apply Operator.mul [lhs, rhs]) =
        true := by
    simp [Chain.isRightNested, lhsSingle, isRightNested_of_not_isApplyOf rhsSingle]
  rw [Transform.reassociate?_eq table.specOf?_mul rfl rfl,
    Transform.regrouping?_of_nonliterals, Transform.rebuilding?, flat,
    inOrder.sortCanonically_eq lhsSingle rhsSingle, if_pos ⟨rfl, nested⟩]
  · rfl
  · rw [flat]
    simp [lhsNotLiteral, rhsNotLiteral]

end Product

/-! ## Before distribution and after the folding of sums -/

/-- The rules before the first one that distributes. -/
def rulesBeforeSpreading : List Rule :=
  catalogue.take 5

/-- The rules after the one that folds sums. -/
def rulesAfterFolding : List Rule :=
  catalogue.drop 9

theorem catalogue_eq :
    catalogue =
      rulesBeforeSpreading ++
        ⟨"distribute-mul-add", Transform.mulOverAdd?⟩ ::
          ⟨"distribute-and-or", Transform.andOverOr?⟩ ::
            ⟨"cancel-division", Transform.cancelDivision?⟩ ::
              ⟨"fold-additions", Transform.foldAdditions?⟩ ::
                rulesAfterFolding :=
  rfl

section Stages

variable {table : SymbolTable} {lhs rhs : Expr}

/-- A product of two factors in order is kept before distribution. -/
theorem visited_product_before
    (lhsFactor : lhs.IsFactor)
    (rhsFactor : rhs.IsFactor)
    (different : lhs.base ≠ rhs.base)
    (inOrder : InOrder Operator.mul lhs rhs) :
    visited table rulesBeforeSpreading (.apply Operator.mul [lhs, rhs]) =
      .apply Operator.mul [lhs, rhs] := by
  have notUnit
      {expr : Expr}
      (notLiteral : expr.isNumber = false) :
      productSpec.identity ≠ some expr := by
    rintro same
    cases same
    cases notLiteral
  have lhsNotLiteral := lhsFactor.notLiteral
  have rhsNotLiteral := rhsFactor.notLiteral
  apply visited_of_kept
  intro rule member
  simp only [rulesBeforeSpreading, catalogue, List.take_succ_cons,
    List.take_zero, List.mem_cons, List.not_mem_nil, or_false] at member
  rcases member with rfl | rfl | rfl | rfl | rfl
  · exact result_of_none (inOrder.commutativeOrder?_eq_none _)
  · exact result_of_none
      (Transform.stripIdentities?_pair table.specOf?_mul (notUnit lhsNotLiteral)
        (notUnit rhsNotLiteral))
  · exact result_of_none
      (Transform.evaluateNumeric?_pair table.construct (by rw [lhsNotLiteral, Bool.false_and]))
  · exact convertPowers?_product lhsFactor rhsFactor different inOrder
  · exact result_of_none rfl

/-- A product of two in order is kept after the folding of sums. -/
theorem visited_product_after
    (lhsFactor : lhs.IsFactor)
    (rhsFactor : rhs.IsFactor)
    (inOrder : InOrder Operator.mul lhs rhs) :
    visited table rulesAfterFolding (.apply Operator.mul [lhs, rhs]) =
      .apply Operator.mul [lhs, rhs] := by
  apply visited_of_waits
  intro rule member
  simp only [rulesAfterFolding, catalogue, List.drop_succ_cons, List.drop_zero,
    List.mem_cons, List.not_mem_nil, or_false] at member
  rcases member with rfl | rfl | rfl
  · change productSpec.absorbed? [lhs, rhs] = none
    exact absorbed?_product_of_nonliterals lhsFactor.notLiteral
      rhsFactor.notLiteral
  · exact reassociate?_product table table.construct lhsFactor.notLiteral
      rhsFactor.notLiteral lhsFactor.notProduct rhsFactor.notProduct inOrder
  · rfl

/-- A product of two factors in order is kept if neither is a sum or a quotient. -/
theorem visited_product
    (lhsFactor : lhs.IsFactor)
    (rhsFactor : rhs.IsFactor)
    (different : lhs.base ≠ rhs.base)
    (inOrder : InOrder Operator.mul lhs rhs)
    (notSums : lhs.isApplyOf Operator.add = false ∧ rhs.isApplyOf Operator.add = false)
    (notQuotients :
      lhs.isApplyOf Operator.div = false ∧ rhs.isApplyOf Operator.div = false) :
    visited table catalogue (.apply Operator.mul [lhs, rhs]) =
      .apply Operator.mul [lhs, rhs] := by
  have undistributed :
      Transform.mulOverAdd? table table.construct
          (.apply Operator.mul [lhs, rhs]) =
        none := by
    simp [Transform.mulOverAdd?, Transform.distribute?, operands?_pair,
      operands?_eq_none_of_not_isApplyOf notSums.1, operands?_eq_none_of_not_isApplyOf notSums.2]
  have uncancelled :
      Transform.cancelDivision? table table.construct
          (.apply Operator.mul [lhs, rhs]) =
        none := by
    simp [Transform.cancelDivision?, Transform.cancelProduct?, operands?_pair,
      operands?_eq_none_of_not_isApplyOf notQuotients.1, operands?_eq_none_of_not_isApplyOf notQuotients.2]
  rw [catalogue_eq, visited_append,
    visited_product_before lhsFactor rhsFactor different inOrder, visited_cons,
    result_of_none undistributed, visited_cons, result_of_none rfl, visited_cons,
    result_of_none uncancelled, visited_cons, result_of_none rfl,
    visited_product_after lhsFactor rhsFactor inOrder]

end Stages

end SymbolicAlgebra
