import SymbolicAlgebra.Proofs.Chain.Building
import SymbolicAlgebra.Proofs.Closure.Parts
import SymbolicAlgebra.Proofs.Factor.Separation

/-!
# Collecting powers is a normalization

The powers of an expression are written as the chain of factors of different bases in canonical order, beside
at most one literal, unless the product is zero.  Collecting such a chain finds the same factors and the
same coefficient, in another order at most, and sorting forgets the order.
-/

namespace SymbolicAlgebra

open SymbolicAlgebra.Expr

/-- The wildcards of a raw term are those of its parts. -/
theorem closedUnderBuilding_plainlyNamed
    (table : SymbolTable) :
    ClosedUnderBuilding table.construct PlainlyNamed where
  toClosedUnderParts :=
    closedUnderParts_plainlyNamed
  value isValue := by
    cases isValue <;> exact List.forall_mem_nil _
  sum :=
    List.forall_mem_nil _
  product :=
    List.forall_mem_nil _
  power :=
    List.forall_mem_nil _
  built := by
    intro head args result headPlain argsPlain constructed
    rcases SymbolTable.construct_cases constructed with
      isValue | isArg | ⟨args', rfl, permuted, -⟩
    · cases isValue <;> exact List.forall_mem_nil _
    · exact argsPlain result isArg
    · intro identity member
      rcases mem_wildcards_apply.mp member with inHead | ⟨arg, isArg, inArg⟩
      · exact headPlain identity inHead
      · exact argsPlain arg (permuted.mem_iff.mp isArg) identity inArg

/-- Factors of different bases in canonical order, with at most one literal among them. -/
structure IsFactorization
    (factors : List Expr) : Prop where
  factor :
    ∀ factor ∈ factors, factor.isNumber = false → factor.IsFactor
  distinct :
    ((factors.filter (!·.isNumber)).map base).Nodup
  oneLiteral :
    (factors.filter isNumber).length ≤ 1
  inOrder :
    factors.Pairwise (NotAfter canonicalCompare)

/-- The chain of operands of different bases, beside the coefficient of a product that is not zero. -/
structure Expr.IsProductOf
    (factors : Factors)
    (operands : List Expr)
    (expr : Expr) : Prop where
  isFinite :
    factors.coefficient.isFinite = true
  nonzero :
    (factors.coefficient == 0) = false
  each :
    ∀ operand ∈ operands, operand.IsFactor
  distinct :
    (operands.map base).Nodup
  isChain :
    IsChainOf Operator.mul
      (sortCanonically (factors.operandsWithCoefficient operands)) expr

section Operands

variable {factors : Factors} {operands : List Expr}

theorem ofFloat_of_nonzero
    {value : Float}
    (nonzero : (value == 0) = false) :
    ofFloat value = .number value := by
  rw [ofFloat, nonzero]
  rfl

theorem mem_operandsWithCoefficient
    {item : Expr}
    (nonzero : (factors.coefficient == 0) = false)
    (member : item ∈ factors.operandsWithCoefficient operands) :
    item ∈ operands ∨ item = .number factors.coefficient := by
  unfold Factors.operandsWithCoefficient at member
  split at member
  · rwa [List.mem_append, List.mem_singleton, ofFloat_of_nonzero nonzero]
      at member
  · exact .inl member

theorem operandsWithCoefficient_ne_nil :
    factors.operandsWithCoefficient operands ≠ [] := by
  unfold Factors.operandsWithCoefficient
  split
  · exact List.append_ne_nil_of_right_ne_nil _ (List.cons_ne_nil _ _)
  · rename_i omitted
    rintro rfl
    exact omitted (Bool.or_true _)

/-- The order of the factors does not matter to which operands there are. -/
theorem operandsWithCoefficient_perm
    {factors' : Factors}
    {operands' : List Expr}
    (sameCoefficient : factors'.coefficient = factors.coefficient)
    (permuted : operands.Perm operands') :
    (factors.operandsWithCoefficient operands).Perm
      (factors'.operandsWithCoefficient operands') := by
  unfold Factors.operandsWithCoefficient
  rw [sameCoefficient, permuted.isEmpty_eq]
  split
  · exact permuted.append_right _
  · exact permuted

/-- Factors are told from the coefficient by being no literals. -/
theorem filter_operandsWithCoefficient
    (nonzero : (factors.coefficient == 0) = false)
    (each : ∀ operand ∈ operands, operand.IsFactor) :
    (factors.operandsWithCoefficient operands).filter (!·.isNumber) =
      operands := by
  have kept : operands.filter (!·.isNumber) = operands := by
    rw [List.filter_eq_self]
    intro operand member
    rw [(each operand member).notLiteral]
    rfl
  unfold Factors.operandsWithCoefficient
  split
  · rw [List.filter_append, kept, ofFloat_of_nonzero nonzero]
    exact List.append_nil _
  · exact kept

/-- The only literal is the coefficient, and it is left out only if it is one. -/
theorem literals_operandsWithCoefficient
    (nonzero : (factors.coefficient == 0) = false)
    (each : ∀ operand ∈ operands, operand.IsFactor) :
    (factors.operandsWithCoefficient operands).filterMap number? =
        [factors.coefficient] ∨
      (factors.operandsWithCoefficient operands).filterMap number? = [] ∧
        factors.coefficient = 1 := by
  have noLiterals : operands.filterMap number? = [] := by
    rw [List.filterMap_eq_nil_iff]
    intro operand member
    simpa [isNumber] using (each operand member).notLiteral
  unfold Factors.operandsWithCoefficient
  split
  · left
    rw [List.filterMap_append, noLiterals, ofFloat_of_nonzero nonzero]
    rfl
  · rename_i omitted
    right
    rw [Bool.or_eq_true, not_or, bne, Bool.not_eq_true', Bool.not_eq_false]
      at omitted
    exact ⟨noLiterals, eq_one_of_beq omitted.1⟩

/-- A product keeps factors apart, also beside a coefficient. -/
theorem chains_operandsWithCoefficient
    (table : SymbolTable)
    (nonzero : (factors.coefficient == 0) = false)
    (each : ∀ operand ∈ operands, operand.IsFactor) :
    table.Chains Operator.mul
      (sortCanonically (factors.operandsWithCoefficient operands)) := by
  have kinds
      {item : Expr}
      (member : item ∈ factors.operandsWithCoefficient operands) :
      item.IsFactor ∨ item = .number factors.coefficient :=
    (mem_operandsWithCoefficient nonzero member).imp_left (each item)
  apply chains_sortedProduct operandsWithCoefficient_ne_nil
  · intro item member
    rcases kinds member with isFactor | rfl
    · exact isFactor.notProduct
    · rfl
  · intro member
    rcases kinds member with isFactor | same
    · cases isFactor.notLiteral
    · rw [← number.inj same] at nonzero
      exact absurd nonzero (by decide)
  · have count :
        ((factors.operandsWithCoefficient operands).filter isNumber).length =
          ((factors.operandsWithCoefficient operands).filterMap number?).length := by
      rw [List.length_filterMap_eq_countP, List.countP_eq_length_filter]
      rfl
    rw [count]
    rcases literals_operandsWithCoefficient nonzero each with only | ⟨none, -⟩
    · rw [only]
      exact le_rfl
    · rw [none]
      exact Nat.zero_le 1

end Operands

section Product

variable {table : SymbolTable} {factors : Factors} {operands : List Expr}
  {expr result : Expr}

/-- The chain of factors of different bases can be built. -/
theorem exists_isProductOf
    (table : SymbolTable)
    (isFinite : factors.coefficient.isFinite = true)
    (nonzero : (factors.coefficient == 0) = false)
    (each : ∀ operand ∈ operands, operand.IsFactor)
    (distinct : (operands.map base).Nodup) :
    ∃ chain,
      Chain.build table.construct Operator.mul
          (sortCanonically (factors.operandsWithCoefficient operands)) =
        .ok chain ∧
      chain.IsProductOf factors operands := by
  obtain ⟨chain, built, isChain⟩ :=
    (chains_operandsWithCoefficient table nonzero each).exists_build
      zeroSingle_product
  exact ⟨chain, built, isFinite, nonzero, each, distinct, isChain⟩

/-- Factors whose coefficient is finite and not zero are written as a sorted chain. -/
theorem Factors.rebuild?_eq_build
    {builder : Builder}
    (isFinite : factors.coefficient.isFinite = true)
    (nonzero : (factors.coefficient == 0) = false)
    (written : operands? builder factors.powers = some operands) :
    factors.rebuild? builder =
      (Chain.build builder Operator.mul
        (sortCanonically (factors.operandsWithCoefficient operands))).toOption := by
  rw [rebuild?, isFinite, nonzero, written]
  rfl

/-- Powers of different bases are written as zero or as the chain of factors of different bases. -/
theorem isProductOf_of_rebuild?
    (separates : Factors.Separates factors.powers)
    (rebuilt : factors.rebuild? table.construct = some result) :
    result = .number 0 ∨ ∃ operands, result.IsProductOf factors operands := by
  by_cases isFinite : factors.coefficient.isFinite = true
  · cases nonzero : factors.coefficient == 0 with
    | true =>
        left
        rw [Factors.rebuild?, isFinite, nonzero] at rebuilt
        cases rebuilt
        rfl
    | false =>
        right
        cases written : Factors.operands? table.construct factors.powers with
        | none =>
            rw [Factors.rebuild?, isFinite, nonzero, written] at rebuilt
            cases rebuilt
        | some operands =>
            obtain ⟨each, bases⟩ := separates.operands written
            obtain ⟨chain, built, isProduct⟩ :=
              exists_isProductOf table isFinite nonzero each
                (separates.distinct.sublist bases)
            rw [Factors.rebuild?_eq_build isFinite nonzero written, built]
              at rebuilt
            cases rebuilt
            exact ⟨operands, isProduct⟩
  · rw [Factors.rebuild?, Bool.eq_false_iff.mpr isFinite] at rebuilt
    cases rebuilt

namespace Expr.IsProductOf

/-- Collecting such a chain finds its factors, in some order, and its coefficient. -/
theorem exists_of?
    (isProduct : expr.IsProductOf factors operands) :
    ∃ operands' : List Expr,
      operands'.Perm operands ∧
        Factors.of? table.construct expr =
          some (.ofOperands factors.coefficient operands') := by
  obtain ⟨isFinite, nonzero, each, distinct, isChain⟩ := isProduct
  obtain ⟨first, rest, flat, rfl⟩ := exists_nested_of_isRightNested isChain.isNested
  have permuted : (first :: rest).Perm (factors.operandsWithCoefficient operands) := by
    rw [← flat, isChain.flatten_eq]
    exact sortCanonically_perm _
  -- The chain lists the factors in canonical order, so that they are found in this order.
  have found :
      ((first :: rest).filter (!·.isNumber)).Perm operands := by
    have filtered := permuted.filter (!·.isNumber)
    rwa [filter_operandsWithCoefficient nonzero each] at filtered
  have kinds : ∀ item ∈ first :: rest, item.isNumber = true ∨ item.IsFactor := by
    intro item member
    rcases mem_operandsWithCoefficient nonzero (permuted.mem_iff.mp member) with
      among | rfl
    · exact .inr (each item among)
    · exact .inl rfl
  have bases :
      ((Factors.one.extended (first :: rest)).powers.map (·.1)).Nodup := by
    simp only [Factors.extended, Factors.one, List.nil_append, List.map_map,
      Function.comp_def]
    exact (found.map base).nodup_iff.mpr distinct
  have coefficient :
      (Factors.one.extended (first :: rest)).coefficient =
        factors.coefficient := by
    have literals := permuted.filterMap number?
    rw [Factors.extended]
    rcases literals_operandsWithCoefficient nonzero each with only | ⟨none, isOne⟩
    · rw [only, List.perm_singleton] at literals
      rw [literals]
      exact one_mul_of_isFinite isFinite
    · rw [none, List.perm_nil] at literals
      rw [literals, isOne]
      rfl
  refine ⟨_, found, ?_⟩
  rw [Factors.of?, Factors.collect?_nested kinds bases, ← coefficient]
  rfl

theorem itemsPlain
    (isProduct : expr.IsProductOf factors operands)
    (plain : expr.PlainlyNamed) :
    ∀ item ∈ factors.operandsWithCoefficient operands, item.PlainlyNamed := by
  intro item member
  apply (closedUnderBuilding_plainlyNamed {}).flatten plain
  rw [isProduct.isChain.flatten_eq]
  exact (sortCanonically_perm _).mem_iff.mpr member

/-- Collecting powers leaves such a chain alone. -/
theorem result_convertPowers
    (isProduct : expr.IsProductOf factors operands)
    (plain : expr.PlainlyNamed) :
    Transform.convertPowers?.result table expr = expr := by
  by_cases applies :
      (expr.isApplyOf Operator.mul || expr.isBinaryOf Operator.pow) = true
  · have itemsPlain := isProduct.itemsPlain plain
    obtain ⟨operands', permuted, collected⟩ := isProduct.exists_of?
    obtain ⟨isFinite, nonzero, each, distinct, isChain⟩ := isProduct
    have each' : ∀ operand ∈ operands', operand.IsFactor :=
      fun operand member => each operand (permuted.mem_iff.mp member)
    have distinct' : (operands'.map base).Nodup :=
      (permuted.map base).nodup_iff.mpr distinct
    obtain ⟨chain, built, isProduct'⟩ :=
      @exists_isProductOf (.ofOperands factors.coefficient operands') operands' table
        isFinite nonzero each' distinct'
    have permutedItems :
        (factors.operandsWithCoefficient operands).Perm
          ((Factors.ofOperands factors.coefficient operands').operandsWithCoefficient
            operands') :=
      operandsWithCoefficient_perm rfl permuted.symm
    -- With plain names there is only one way to sort them.
    have sameItems :=
      canonicalCompare_linearOn_plainlyNamed.sortBy_eq_of_perm itemsPlain
        permutedItems
    have same : expr = chain := by
      rw [sortCanonically, sameItems] at isChain
      exact isChain.unique isProduct'.isChain
    have rebuilt :
        (Factors.ofOperands factors.coefficient operands').rebuild? table.construct =
          some chain := by
      rw [Factors.rebuild?_eq_build isProduct'.isFinite isProduct'.nonzero
        (Factors.operands?_ofOperands _ each'), built]
      rfl
    apply result_of_some
    rw [Transform.convertPowers?, if_pos applies, collected, same]
    exact rebuilt
  · apply result_of_none
    rw [Transform.convertPowers?, if_neg applies]

/-- The operands of such a chain are factors of different bases in canonical order. -/
theorem isFactorization
    (isProduct : expr.IsProductOf factors operands)
    (plain : expr.PlainlyNamed) :
    IsFactorization (Chain.flatten Operator.mul expr) := by
  have itemsPlain := isProduct.itemsPlain plain
  obtain ⟨-, nonzero, each, distinct, isChain⟩ := isProduct
  have permuted :=
    sortCanonically_perm (factors.operandsWithCoefficient operands)
  have chains := chains_operandsWithCoefficient {} nonzero each
  rw [isChain.flatten_eq]
  refine ⟨?_, ?_, chains.oneLiteral rfl rfl,
    canonicalCompare_linearOn_plainlyNamed.sortBy_pairwise itemsPlain⟩
  · intro factor member notLiteral
    rcases mem_operandsWithCoefficient nonzero (permuted.mem_iff.mp member) with
      among | rfl
    · exact each factor among
    · cases notLiteral
  · have filtered := permuted.filter (!·.isNumber)
    rw [filter_operandsWithCoefficient nonzero each] at filtered
    exact (filtered.map base).nodup_iff.mpr distinct

end Expr.IsProductOf

/-! ## Normalization -/

theorem isFactorization_zero :
    IsFactorization [.number 0] where
  factor factor member notLiteral := by
    cases List.mem_singleton.mp member
    cases notLiteral
  distinct :=
    List.nodup_nil
  oneLiteral :=
    Nat.le_refl 1
  inOrder :=
    List.pairwise_singleton _ _

/-- Collecting powers once is as good as collecting them twice, and leaves factors of different bases. -/
theorem convertPowers_normalizes
    (plain : expr.PlainlyNamed) :
    Transform.convertPowers?.result table
        (Transform.convertPowers?.result table expr) =
      Transform.convertPowers?.result table expr ∧
    ∀ {collected},
      Transform.convertPowers? table table.construct expr = some collected →
        IsFactorization (Chain.flatten Operator.mul collected) := by
  cases transformed : Transform.convertPowers? table table.construct expr with
  | none =>
      rw [result_of_none transformed, result_of_none transformed]
      exact ⟨rfl, nofun⟩
  | some result =>
      have resultPlain :=
        (closedUnderBuilding_plainlyNamed table).convertPowers plain transformed
      have written :
          result = .number 0 ∨
            ∃ factors operands, result.IsProductOf factors operands := by
        unfold Transform.convertPowers? at transformed
        split at transformed
        · obtain ⟨factors, collected, rebuilt⟩ :=
            Option.bind_eq_some_iff.mp transformed
          exact (isProductOf_of_rebuild? (Factors.separates_of? collected)
            rebuilt).imp_right fun isProduct => ⟨factors, isProduct⟩
        · cases transformed
      rw [result_of_some transformed]
      rcases written with rfl | ⟨factors, operands, isProduct⟩
      · refine ⟨rfl, ?_⟩
        intro collected same
        cases same
        exact isFactorization_zero
      · refine ⟨isProduct.result_convertPowers resultPlain, ?_⟩
        intro collected same
        cases same
        exact isProduct.isFactorization resultPlain

/-- So it is with `(2 * x) * (x * 2 ** y)`, which becomes `2 * (2 ** y * x ** 2)`. -/
theorem convertPowers_normalizes_literalBase :
    let power := Expr.apply Operator.pow [.number 2, .symbol "y"]
    let square := Expr.apply Operator.pow [.symbol "x", .number 2]
    let expr :=
      Expr.apply Operator.mul
        [.apply Operator.mul [.number 2, .symbol "x"],
          .apply Operator.mul [.symbol "x", power]]
    let collected :=
      Expr.apply Operator.mul [.number 2, .apply Operator.mul [power, square]]
    expr.PlainlyNamed ∧
      Transform.convertPowers? {} ({} : SymbolTable).construct expr =
        some collected ∧
      Transform.convertPowers?.result {} collected = collected ∧
      IsFactorization (Chain.flatten Operator.mul collected) := by
  intro power square expr collected
  have plain : expr.PlainlyNamed := by
    decide
  have converts :
      Transform.convertPowers? {} ({} : SymbolTable).construct expr =
        some collected := by
    decide +kernel
  obtain ⟨again, factorization⟩ := @convertPowers_normalizes {} expr plain
  rw [result_of_some converts] at again
  exact ⟨plain, converts, again, factorization converts⟩

/-- The literal of a product stays beside a power of the same literal, so that their bases agree. -/
theorem convertPowers_repeatedBase :
    let construct := ({} : SymbolTable).construct
    let power := Expr.apply Operator.pow [.number 2, .symbol "y"]
    let square := Expr.apply Operator.pow [.symbol "x", .number 2]
    let expr :=
      Expr.apply Operator.mul
        [.apply Operator.mul [.number 2, .symbol "x"],
          .apply Operator.mul [.symbol "x", power]]
    let collected :=
      Expr.apply Operator.mul [.number 2, .apply Operator.mul [power, square]]
    (do
        let lhs ← construct Operator.mul [.number 2, .symbol "x"]
        let raised ← construct Operator.pow [.number 2, .symbol "y"]
        let rhs ← construct Operator.mul [.symbol "x", raised]
        construct Operator.mul [lhs, rhs]) =
      .ok expr ∧
      expr.PlainlyNamed ∧
      Transform.convertPowers? {} construct expr = some collected ∧
      collected ≠ expr ∧
      collected.isNumber = false ∧
      (Chain.flatten Operator.mul collected).map base =
        [.number 2, .number 2, .symbol "x"] ∧
      ¬((Chain.flatten Operator.mul collected).map base).Nodup := by
  intro construct power square expr collected
  refine ⟨?_, ?_, ?_, ?_, ?_, ?_, ?_⟩
  · rfl
  · decide
  · decide +kernel
  · decide
  · decide
  · decide
  · decide

end Product

end SymbolicAlgebra
