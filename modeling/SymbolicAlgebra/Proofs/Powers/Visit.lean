import SymbolicAlgebra.Proofs.Powers.Normal

/-!
# Visiting products of powers

Visiting an expression of products and powers collects it.  The rules before the collection keep the product of
powers that it stands for, and the rules after it leave the collected form alone.
-/

namespace SymbolicAlgebra

open SymbolicAlgebra.Expr

section Construction

variable {values : String → Int} {table : SymbolTable} {expr lhs rhs base : Expr}
  {product first second : PowerProduct} {count : Nat}

namespace Expr.IsPowerProduct

theorem exists_literal
    (isProduct : expr.IsPowerProduct values product)
    (isNumber : expr.isNumber = true) :
    ∃ number,
      expr = whole number ∧ product = .literal number ∧
        number ≠ 0 ∧ number.natAbs < 2 ^ 53 := by
  cases isProduct with
  | literal nonzero fits =>
      exact ⟨_, rfl, rfl, nonzero, fits.coefficient_lt⟩
  | _ =>
      cases isNumber

theorem ne_zero
    (isProduct : expr.IsPowerProduct values product) :
    expr ≠ whole 0 := by
  rintro rfl
  obtain ⟨number, same, -, nonzero, small⟩ := isProduct.exists_literal rfl
  exact nonzero (whole_injective (by decide) small same).symm

/-- Only the product one is written as one. -/
theorem eq_one
    (isProduct : (Expr.number 1).IsPowerProduct values product) :
    product = 1 := by
  obtain ⟨number, same, rfl, -, small⟩ := isProduct.exists_literal rfl
  have one : whole 1 = whole number := by
    rw [← same]
    exact congrArg Expr.number floatOfInt_one
  rw [← whole_injective (by decide) small one]
  rfl

theorem unabsorbed
    (lhsProduct : lhs.IsPowerProduct values first)
    (rhsProduct : rhs.IsPowerProduct values second) :
    productSpec.absorbed? [lhs, rhs] = none := by
  rw [absorbed?_product, if_neg]
  rw [List.mem_pair]
  rintro (same | same)
  · exact lhsProduct.ne_zero same.symm
  · exact rhsProduct.ne_zero same.symm

/-- Literals are multiplied exactly. -/
theorem exists_evaluated
    (name : String)
    (lhsProduct : lhs.IsPowerProduct values first)
    (rhsProduct : rhs.IsPowerProduct values second)
    (fits : (first * second).Fits values)
    (literals : (lhs.isNumber && rhs.isNumber) = true) :
    ∃ result,
      productSpec.evaluateLiterals? name [lhs, rhs] = some (.ok result) ∧
        result.IsPowerProduct values (first * second) := by
  obtain ⟨lhsNumber, rhsNumber⟩ := Bool.and_eq_true_iff.mp literals
  obtain ⟨number, rfl, rfl, nonzero, small⟩ := lhsProduct.exists_literal lhsNumber
  obtain ⟨number', rfl, rfl, nonzero', small'⟩ :=
    rhsProduct.exists_literal rhsNumber
  rw [PowerProduct.literal_mul] at fits ⊢
  exact ⟨whole (number * number'),
    evaluateLiterals?_product name small small' fits.coefficient_lt,
    .literal (mul_ne_zero nonzero nonzero') fits⟩

/-- A product can be built, and it is an expression of the product. -/
theorem exists_construct
    (table : SymbolTable)
    (lhsProduct : lhs.IsPowerProduct values first)
    (rhsProduct : rhs.IsPowerProduct values second)
    (fits : (first * second).Fits values) :
    ∃ result,
      table.construct Operator.mul [lhs, rhs] = .ok result ∧
        result.IsPowerProduct values (first * second) := by
  by_cases literals : (lhs.isNumber && rhs.isNumber) = true
  · obtain ⟨result, evaluated, isProduct⟩ :=
      exists_evaluated (Operator.mul.symbol?.getD "") lhsProduct rhsProduct fits
        literals
    exact ⟨result,
      construct_evaluated table.specOf?_mul (List.cons_ne_nil _ _) evaluated,
      isProduct⟩
  · have construction :
        table.construct Operator.mul [lhs, rhs] =
          .ok (stored Operator.mul lhs rhs) :=
      construct_stored table.specOf?_mul (List.cons_ne_nil _ _)
        (productSpec.evaluateLiterals?_pair _ (Bool.eq_false_iff.mpr literals))
        (unabsorbed lhsProduct rhsProduct)
    refine ⟨_, construction, ?_⟩
    obtain ⟨lhs', rhs', shape, -, ⟨rfl, rfl⟩ | ⟨rfl, rfl⟩⟩ :=
      exists_stored Operator.mul lhs rhs
    · rw [shape]
      exact .product lhsProduct rhsProduct fits
    · rw [shape]
      rw [mul_comm] at fits ⊢
      exact .product rhsProduct lhsProduct fits

theorem notLiteral
    (isProduct : expr.IsPowerProduct values product)
    (symbolic : product.symbols ≠ 0) :
    expr.isNumber = false := by
  rw [← Bool.not_eq_true]
  exact fun isNumber => symbolic (isProduct.symbols_eq_zero isNumber)

/-- A power of a symbolic expression is stored as it is. -/
theorem construct_power
    (table : SymbolTable)
    (baseProduct : base.IsPowerProduct values product)
    (symbolic : product.symbols ≠ 0)
    (exponent : Expr) :
    table.construct Operator.pow [base, exponent] =
      .ok (.apply Operator.pow [base, exponent]) :=
  construct_stored table.specOf?_pow (List.cons_ne_nil _ _)
    (powerSpec.evaluateLiterals?_pair _
      (by rw [baseProduct.notLiteral symbolic, Bool.false_and]))
    rfl

end Expr.IsPowerProduct

end Construction

/-! ## Before collection -/

section Before

variable {values : String → Int} {table : SymbolTable} {expr : Expr}
  {product : PowerProduct}

namespace Expr.IsPowerProduct

/-- Sorting the operands keeps the product. -/
theorem result_commutativeOrder
    (isProduct : expr.IsPowerProduct values product)
    (table : SymbolTable) :
    (Transform.commutativeOrder?.result table expr).IsPowerProduct values
      product := by
  cases outcome : Transform.commutativeOrder? table table.construct expr with
  | none =>
      rw [result_of_none outcome]
      exact isProduct
  | some result =>
      rw [result_of_some outcome]
      cases isProduct with
      | literal nonzero fits | symbol fits | power baseProduct symbolic small fits =>
          cases outcome
      | product lhsProduct rhsProduct fits =>
          obtain ⟨built, construction, builtProduct⟩ :=
            lhsProduct.exists_construct table rhsProduct fits
          change (if _ then (table.construct Operator.mul _).toOption else none) =
            some result at outcome
          split at outcome
          · rw [construction] at outcome
            cases outcome
            exact builtProduct
          · cases outcome

/-- What keeps the product when it gives a result keeps it otherwise too. -/
theorem getD
    (isProduct : expr.IsPowerProduct values product)
    {outcome : Option Expr}
    (keeps :
      ∀ {result}, outcome = some result → result.IsPowerProduct values product) :
    (outcome.getD expr).IsPowerProduct values product := by
  cases outcome with
  | none =>
      exact isProduct
  | some result =>
      exact keeps rfl

/-- Dropping factors and exponents of one keeps the product. -/
theorem of_stripIdentities?
    (isProduct : expr.IsPowerProduct values product)
    {result : Expr}
    (stripped :
      Transform.stripIdentities? table table.construct expr = some result) :
    result.IsPowerProduct values product := by
  induction isProduct generalizing result with
  | literal nonzero fits | symbol fits =>
      cases stripped
  | @product lhs rhs first second lhsProduct rhsProduct fits lhsHypothesis
      rhsHypothesis =>
      rw [Transform.stripIdentities?, table.specOf?_mul] at stripped
      dsimp only at stripped
      split at stripped
      · rename_i unit
        cases unit
        cases stripped
        rw [lhsProduct.eq_one, one_mul]
        exact rhsProduct.getD rhsHypothesis
      · split at stripped
        · rename_i unit
          cases unit
          cases stripped
          rw [rhsProduct.eq_one, mul_one]
          exact lhsProduct.getD lhsHypothesis
        · cases stripped
  | @power base product count baseProduct symbolic small fits baseHypothesis =>
      rw [Transform.stripIdentities?, table.specOf?_pow] at stripped
      dsimp only at stripped
      rw [if_neg (by intro same; cases same)] at stripped
      split at stripped
      · rename_i unit
        have one : (1 : Float) = floatOfInt count :=
          Expr.number.inj (Option.some.inj unit)
        rw [← floatOfInt_one] at one
        have first : (1 : Int) = count :=
          floatOfInt_injective (by decide) small one
        obtain rfl : 1 = count := Int.ofNat.inj first
        cases stripped
        rw [pow_one]
        exact baseProduct.getD baseHypothesis
      · cases stripped

/-- Evaluating literals keeps the product. -/
theorem of_evaluateNumeric?
    (isProduct : expr.IsPowerProduct values product)
    {result : Expr}
    (evaluated :
      Transform.evaluateNumeric? table table.construct expr = some result) :
    result.IsPowerProduct values product := by
  cases isProduct with
  | literal nonzero fits | symbol fits =>
      cases evaluated
  | @product lhs rhs first second lhsProduct rhsProduct fits =>
      by_cases literals : (lhs.isNumber && rhs.isNumber) = true
      · obtain ⟨value, outcome, isProduct⟩ :=
          lhsProduct.exists_evaluated (Operator.mul.symbol?.getD "") rhsProduct fits
            literals
        rw [Transform.evaluateNumeric?, table.specOf?_mul] at evaluated
        simp only [Option.bind_eq_bind, Option.bind_some, outcome,
          Except.toOption, Option.some.injEq] at evaluated
        exact evaluated ▸ isProduct
      · rw [Transform.evaluateNumeric?_pair table.construct
          (Bool.eq_false_iff.mpr literals)] at evaluated
        cases evaluated
  | power baseProduct symbolic small fits =>
      rw [Transform.evaluateNumeric?_pair table.construct
        (by rw [baseProduct.notLiteral symbolic, Bool.false_and])] at evaluated
      cases evaluated

/-- Collecting powers makes the collected product. -/
theorem isCollected_result
    (isProduct : expr.IsPowerProduct values product)
    (table : SymbolTable) :
    (Transform.convertPowers?.result table expr).IsCollected product := by
  have collects
      (applies : (expr.isApplyOf Operator.mul || expr.isBinaryOf Operator.pow) = true) :
      (Transform.convertPowers?.result table expr).IsCollected product := by
    obtain ⟨factors, collected, holds⟩ := isProduct.exists_of? table
    obtain ⟨rebuilt, rebuilds, isCollected⟩ :=
      holds.exists_rebuild? table isProduct.nonzero isProduct.fits
    have outcome :
        Transform.convertPowers? table table.construct expr = some rebuilt := by
      rw [Transform.convertPowers?, if_pos applies, collected]
      exact rebuilds
    rw [result_of_some outcome]
    exact isCollected
  cases isProduct with
  | literal nonzero fits =>
      exact isCollected_literal nonzero
  | symbol fits =>
      exact isCollected_symbol _
  | product lhsProduct rhsProduct fits =>
      exact collects rfl
  | power baseProduct symbolic small fits =>
      exact collects rfl

end Expr.IsPowerProduct

end Before

/-! ## After collection -/

/-- The rules after the one that collects powers. -/
def rulesAfterCollection : List Rule :=
  catalogue.drop 4

section After

variable {values : String → Int} {table : SymbolTable} {expr : Expr}
  {product : PowerProduct} {names : List String}

/-- The literals of a collected product with symbols: the coefficient, unless it is one. -/
def coefficientLiterals
    (product : PowerProduct) : List Expr :=
  if product.coefficient = 1 then [] else [whole product.coefficient]

theorem literals_collected
    {chain : Expr}
    (named : names ≠ [])
    (isChain :
      IsChainOf Operator.mul (sortCanonically (operandsOf product names)) chain) :
    (Chain.flatten Operator.mul chain).filter isNumber =
      coefficientLiterals product := by
  have filtered := (sortCanonically_perm (operandsOf product names)).filter isNumber
  rw [literals_operandsOf] at filtered
  rw [isChain.flatten_eq, coefficientLiterals]
  by_cases one : product.coefficient = 1
  · rw [if_neg (by simp [one, named])] at filtered
    rw [if_pos one, filtered.eq_nil]
  · rw [if_pos (.inl one)] at filtered
    rw [if_neg one, List.perm_singleton.mp filtered]

theorem foldedConstants?_coefficientLiterals
    (product : PowerProduct)
    (name : String) :
    Transform.foldedConstants? productSpec name (coefficientLiterals product) =
      some (coefficientLiterals product) := by
  unfold coefficientLiterals
  split <;> rfl

theorem absorbing?_coefficientLiterals
    (nonzero : product.coefficient ≠ 0)
    (small : product.coefficient.natAbs < 2 ^ 53) :
    Transform.absorbing? productSpec (coefficientLiterals product) = none := by
  apply Transform.absorbing?_eq_none
  intro zero declared same
  rw [zero_product] at declared
  cases declared
  unfold coefficientLiterals at same
  split at same
  · cases same
  · exact nonzero (whole_injective small (by decide) (List.singleton_inj.mp same))

/-- A coefficient that is written is not one, so it stays. -/
theorem keptLiterals_coefficientLiterals
    (small : product.coefficient.natAbs < 2 ^ 53)
    (others : List Expr) :
    Transform.keptLiterals productSpec others (coefficientLiterals product) =
      coefficientLiterals product := by
  unfold coefficientLiterals
  by_cases one : product.coefficient = 1
  · rw [if_pos one]
    rfl
  · rw [if_neg one, Transform.keptLiterals,
      isIdentity_whole (by decide) small effectiveIdentity_product,
      decide_eq_false one, Bool.false_and, if_neg Bool.false_ne_true]

/-- Regrouping leaves a collected product alone. -/
theorem reassociate?_collected
    {lhs rhs : Expr}
    (table : SymbolTable)
    (builder : Builder)
    (nonzero : product.coefficient ≠ 0)
    (small : product.coefficient.natAbs < 2 ^ 53)
    (isChain :
      IsChainOf Operator.mul (sortCanonically (operandsOf product names))
        (.apply Operator.mul [lhs, rhs])) :
    Transform.reassociate? table builder (.apply Operator.mul [lhs, rhs]) =
      none := by
  have permuted := sortCanonically_perm (operandsOf product names)
  have named : names ≠ [] := by
    rintro rfl
    have operands : operandsOf product [] = [whole product.coefficient] := by
      simp [operandsOf]
    rw [operands] at isChain
    have isLiteral := isChain.unique (isChainOf_singleton rfl)
    cases isLiteral
  have literals := literals_collected named isChain
  have folded :
      Transform.literals? productSpec Operator.mul (.apply Operator.mul [lhs, rhs]) =
        some (coefficientLiterals product) := by
    rw [Transform.literals?]
    change Transform.foldedConstants? productSpec _ (List.filter isNumber _) = _
    rw [literals]
    exact foldedConstants?_coefficientLiterals product _
  have sorted :
      sortCanonically
          (coefficientLiterals product ++
            Transform.nonliterals Operator.mul (.apply Operator.mul [lhs, rhs])) =
        Chain.flatten Operator.mul (.apply Operator.mul [lhs, rhs]) := by
    rw [← literals, Transform.nonliterals, isChain.flatten_eq]
    exact canonicalCompare_linearOn_plainlyNamed.sortBy_eq_of_perm
      (fun item member =>
        (isSingleFactor_of_mem
          (permuted.mem_iff.mp
            ((List.filter_append_perm _ _).mem_iff.mp member))).plainlyNamed)
      ((List.filter_append_perm _ _).trans permuted)
  rw [Transform.reassociate?_eq table.specOf?_mul rfl rfl,
    Transform.regrouping?_of_literals? folded
      (absorbing?_coefficientLiterals nonzero small),
    keptLiterals_coefficientLiterals small, sorted, Transform.rebuilding?, if_pos ⟨rfl, isChain.isNested⟩]
  rfl

/-- The rules after collection leave a power alone. -/
theorem visited_power
    (table : SymbolTable)
    (base exponent : Expr) :
    visited table rulesAfterCollection (.apply Operator.pow [base, exponent]) =
      .apply Operator.pow [base, exponent] := by
  apply visited_of_waits
  intro rule member
  simp only [rulesAfterCollection, catalogue, List.drop_succ_cons, List.drop_zero,
    List.mem_cons, List.not_mem_nil, or_false] at member
  rcases member with rfl | rfl | rfl | rfl | rfl | rfl | rfl | rfl <;> rfl

/-- The rules after collection leave a product of several operands alone. -/
theorem visited_chain
    {first second : Expr}
    {rest : List Expr}
    (table : SymbolTable)
    (nonzero : product.coefficient ≠ 0)
    (small : product.coefficient.natAbs < 2 ^ 53)
    (flat :
      sortCanonically (operandsOf product names) = first :: second :: rest)
    (isChain :
      IsChainOf Operator.mul (sortCanonically (operandsOf product names))
        (nested Operator.mul first (second :: rest))) :
    visited table rulesAfterCollection (nested Operator.mul first (second :: rest)) =
      nested Operator.mul first (second :: rest) := by
  have members
      {item : Expr}
      (member : item ∈ first :: second :: rest) :
      item ∈ operandsOf product names := by
    rw [← flat] at member
    exact (sortCanonically_perm _).mem_iff.mp member
  have firstSingle := isSingleFactor_of_mem (members List.mem_cons_self)
  have laterOther
      {op : Expr}
      (other : op ≠ Operator.mul)
      (secondOther : second.isApplyOf op = false) :
      (nested Operator.mul second rest).isApplyOf op = false := by
    cases rest with
    | nil =>
        exact secondOther
    | cons third rest =>
        exact decide_eq_false other.symm
  have secondMember : second ∈ first :: second :: rest := by
    simp
  have secondSingle := isSingleFactor_of_mem (members secondMember)
  have laterNotSum := laterOther (by decide) secondSingle.notSum
  have laterNotQuotient := laterOther (by decide) secondSingle.notQuotient
  have firstNotZero :=
    ne_zero_of_mem_operandsOf nonzero small (members List.mem_cons_self)
  have laterNotZero : nested Operator.mul second rest ≠ whole 0 := by
    cases rest with
    | nil =>
        exact ne_zero_of_mem_operandsOf nonzero small (members secondMember)
    | cons third rest =>
        nofun
  apply visited_of_waits
  intro rule member
  simp only [rulesAfterCollection, catalogue, List.drop_succ_cons, List.drop_zero,
    List.mem_cons, List.not_mem_nil, or_false] at member
  rcases member with rfl | rfl | rfl | rfl | rfl | rfl | rfl | rfl
  · rfl
  · simp [nested, Transform.mulOverAdd?, Transform.distribute?, operands?_pair,
      operands?_eq_none_of_not_isApplyOf firstSingle.notSum,
      operands?_eq_none_of_not_isApplyOf laterNotSum]
  · rfl
  · simp [nested, Transform.cancelDivision?, Transform.cancelProduct?, operands?_pair,
      operands?_eq_none_of_not_isApplyOf firstSingle.notQuotient,
      operands?_eq_none_of_not_isApplyOf laterNotQuotient]
  · rfl
  · change productSpec.absorbed? [first, nested Operator.mul second rest] = none
    rw [absorbed?_product, if_neg]
    rw [List.mem_pair]
    rintro (same | same)
    · exact firstNotZero same.symm
    · exact laterNotZero same.symm
  · exact reassociate?_collected table table.construct nonzero small isChain
  · rfl

/-- The rules after collection leave a collected product alone. -/
theorem Expr.IsCollected.visited_eq
    (isCollected : expr.IsCollected product)
    (small : product.coefficient.natAbs < 2 ^ 53)
    (table : SymbolTable) :
    visited table rulesAfterCollection expr = expr := by
  obtain ⟨names, distinct, members, isChain⟩ := isCollected.exists_names
  obtain ⟨first, rest, flat, rfl⟩ :=
    exists_nested_of_isRightNested isChain.isNested
  rw [isChain.flatten_eq] at flat
  cases rest with
  | nil =>
      have leaf
          {item : Expr}
          (isLeaf : item.isLeaf = true) :
          visited table rulesAfterCollection item = item :=
        visited_of_waits fun rule member =>
          transform?_of_isLeaf (List.mem_of_mem_drop member) table
            table.construct isLeaf
      have member : first ∈ operandsOf product names := by
        rw [← (sortCanonically_perm _).mem_iff, flat]
        exact List.mem_cons_self
      rw [nested]
      rcases mem_operandsOf member with ⟨name, -, rfl⟩ | rfl
      · rcases powerOf_cases name (product.symbols.count name) with
          ⟨same, -⟩ | same
        · rw [same]
          exact leaf rfl
        · rw [same]
          exact visited_power table _ _
      · exact leaf rfl
  | cons second rest =>
      exact visited_chain table isCollected.nonzero small flat isChain

end After

/-- Visiting a product of powers collects it. -/
theorem Expr.IsPowerProduct.isCollected_visited
    {values : String → Int}
    {expr : Expr}
    {product : PowerProduct}
    (isProduct : expr.IsPowerProduct values product)
    (table : SymbolTable) :
    (visited table catalogue expr).IsCollected product := by
  have sorted := isProduct.result_commutativeOrder table
  have stripped :
      (Transform.result Transform.stripIdentities? table _).IsPowerProduct values
        product :=
    sorted.getD sorted.of_stripIdentities?
  have evaluated :
      (Transform.evaluateNumeric?.result table _).IsPowerProduct values product :=
    stripped.getD stripped.of_evaluateNumeric?
  have collected := evaluated.isCollected_result table
  have kept :=
    collected.visited_eq isProduct.fits.coefficient_lt table
  exact kept.symm ▸ collected

end SymbolicAlgebra
