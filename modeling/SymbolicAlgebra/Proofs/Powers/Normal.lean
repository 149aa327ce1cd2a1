import SymbolicAlgebra.Proofs.Chain.Building
import SymbolicAlgebra.Proofs.Powers.Collection

/-!
# Collected products

Factors are rebuilt as the chain of the coefficient and the powers, one for every symbol.  This chain is
determined by the product of powers that the factors hold, and it is an expression of this product.
-/

namespace SymbolicAlgebra

open SymbolicAlgebra.Expr

/-- The operand that a power of a symbol contributes. -/
def powerOf
    (name : String)
    (count : Nat) : Expr :=
  if count = 1 then
    .symbol name
  else
    .apply Operator.pow [.symbol name, .whole count]

/-- The operands of a product: a power for each name, and the coefficient unless it is one beside powers. -/
def operandsOf
    (product : PowerProduct)
    (names : List String) : List Expr :=
  names.map (fun name => powerOf name (product.symbols.count name)) ++
    if product.coefficient ≠ 1 ∨ names = [] then
      [.whole product.coefficient]
    else
      []

/-- The expression is the sorted chain of the coefficient and a power for each symbol. -/
structure Expr.IsCollected
    (expr : Expr)
    (product : PowerProduct) : Prop where
  nonzero :
    product.coefficient ≠ 0
  exists_names :
    ∃ names : List String,
      names.Nodup ∧ (∀ name, name ∈ names ↔ name ∈ product.symbols) ∧
        IsChainOf Operator.mul (sortCanonically (operandsOf product names)) expr

section Operands

variable {product : PowerProduct} {names : List String} {item : Expr}
  {values : String → Int}

theorem powerOf_cases
    (name : String)
    (count : Nat) :
    powerOf name count = .symbol name ∧ count = 1 ∨
      powerOf name count = .apply Operator.pow [.symbol name, .whole count] := by
  rw [powerOf]
  split
  · rename_i one
    exact .inl ⟨rfl, one⟩
  · exact .inr rfl

/-- An operand is a power of a symbol or the coefficient. -/
theorem mem_operandsOf
    (member : item ∈ operandsOf product names) :
    (∃ name ∈ names, item = powerOf name (product.symbols.count name)) ∨
      item = .whole product.coefficient := by
  rcases List.mem_append.mp member with isPower | isCoefficient
  · obtain ⟨name, isName, rfl⟩ := List.mem_map.mp isPower
    exact .inl ⟨name, isName, rfl⟩
  · split at isCoefficient
    · exact .inr (List.mem_singleton.mp isCoefficient)
    · cases isCoefficient

theorem operandsOf_ne_nil
    (product : PowerProduct)
    (names : List String) :
    operandsOf product names ≠ [] := by
  cases names with
  | nil =>
      simp [operandsOf]
  | cons name names =>
      simp [operandsOf]

/-- The expression is no product, sum or quotient, and nothing in it is named like something else. -/
structure Expr.IsSingleFactor
    (item : Expr) : Prop where
  notProduct :
    item.isApplyOf Operator.mul = false
  notSum :
    item.isApplyOf Operator.add = false
  notQuotient :
    item.isApplyOf Operator.div = false
  plainlyNamed :
    item.PlainlyNamed

theorem isSingleFactor_of_mem
    (member : item ∈ operandsOf product names) :
    item.IsSingleFactor := by
  rcases mem_operandsOf member with ⟨name, -, rfl⟩ | rfl
  · rcases powerOf_cases name (product.symbols.count name) with ⟨same, -⟩ | same
    · rw [same]
      exact ⟨rfl, rfl, rfl, by simp [PlainlyNamed, wildcards]⟩
    · rw [same]
      exact ⟨rfl, rfl, rfl, by simp [PlainlyNamed, wildcards, wildcardsOfArgs, whole]⟩
  · exact ⟨rfl, rfl, rfl, by simp [PlainlyNamed, wildcards, whole]⟩

/-- There is at most one literal among the operands. -/
theorem literals_operandsOf
    (product : PowerProduct)
    (names : List String) :
    (operandsOf product names).filter isNumber =
      if product.coefficient ≠ 1 ∨ names = [] then
        [.whole product.coefficient]
      else
        [] := by
  have noLiterals :
      (names.map fun name =>
          powerOf name (product.symbols.count name)).filter isNumber =
        [] := by
    rw [List.filter_eq_nil_iff]
    intro item member
    obtain ⟨name, -, rfl⟩ := List.mem_map.mp member
    rcases powerOf_cases name (product.symbols.count name) with ⟨same, -⟩ | same <;>
      simp [same, isNumber, number?]
  rw [operandsOf, List.filter_append, noLiterals, List.nil_append]
  split <;> rfl

end Operands

/-! ## Rebuilding -/

section Rebuilding

variable {table : SymbolTable} {values : String → Int} {product : PowerProduct}
  {names : List String} {symbols : Multiset String} {factors : Factors}

/-- Every symbol with an exponent other than zero contributes its power. -/
theorem operands?_powersOf
    (small : ∀ name, symbols.count name < 2 ^ 53)
    (names : List String) :
    Factors.operands? table.construct (powersOf symbols names) =
      some ((names.filter (· ∈ symbols)).map fun name =>
        powerOf name (symbols.count name)) := by
  induction names with
  | nil =>
      rfl
  | cons name names inductionHypothesis =>
      have nameSmall : ((symbols.count name : Nat) : Int).natAbs < 2 ^ 53 :=
        small name
      have isZero :
          (whole (symbols.count name)).number?.any (· == 0) =
            decide (name ∉ symbols) := by
        simp [whole, number?, floatOfInt_beq_zero nameSmall]
      have isOne :
          (whole (symbols.count name)).number?.any (· == 1) =
            decide (symbols.count name = 1) := by
        simp [whole, number?, floatOfInt_beq_one nameSmall]
      have stored :
          table.construct Operator.pow [.symbol name, whole (symbols.count name)] =
            .ok (.apply Operator.pow [.symbol name, whole (symbols.count name)]) :=
        construct_stored table.specOf?_pow (List.cons_ne_nil _ _)
          (powerSpec.evaluateLiterals?_pair _ rfl) rfl
      change Factors.operands? table.construct (_ :: powersOf symbols names) = _
      rw [Factors.operands?, inductionHypothesis]
      simp only [Option.bind_eq_bind, Option.bind_some, isZero, isOne, stored]
      by_cases member : name ∈ symbols
      · rw [List.filter_cons_of_pos (by simpa using member), List.map_cons]
        by_cases one : symbols.count name = 1
        · simp [member, one, powerOf]
        · simp [member, one, powerOf, Except.toOption]
      · rw [List.filter_cons_of_neg (by simpa using member)]
        simp [member]

theorem ne_zero_of_mem_operandsOf
    {item : Expr}
    (nonzero : product.coefficient ≠ 0)
    (small : product.coefficient.natAbs < 2 ^ 53)
    (member : item ∈ operandsOf product names) :
    item ≠ whole 0 := by
  rcases mem_operandsOf member with ⟨name, -, rfl⟩ | rfl
  · rcases powerOf_cases name (product.symbols.count name) with ⟨same, -⟩ | same
    · rw [same]
      nofun
    · rw [same]
      nofun
  · exact fun same => nonzero (whole_injective small (by decide) same)

/-- The sorted operands of a product are built as they are. -/
theorem exists_build_operandsOf
    (table : SymbolTable)
    (nonzero : product.coefficient ≠ 0)
    (small : product.coefficient.natAbs < 2 ^ 53)
    (names : List String) :
    ∃ chain,
      Chain.build table.construct Operator.mul
          (sortCanonically (operandsOf product names)) =
        .ok chain ∧
          IsChainOf Operator.mul (sortCanonically (operandsOf product names))
            chain := by
  have oneLiteral : ((operandsOf product names).filter isNumber).length ≤ 1 := by
    rw [literals_operandsOf]
    split <;> simp
  have zeroAbsent : .number 0 ∉ operandsOf product names := by
    intro member
    exact ne_zero_of_mem_operandsOf nonzero small member
      (congrArg number floatOfInt_zero.symm)
  have chains : table.Chains Operator.mul (sortCanonically (operandsOf product names)) :=
    chains_sortedProduct (operandsOf_ne_nil product names)
      (fun item member => (isSingleFactor_of_mem member).notProduct) zeroAbsent oneLiteral
  exact chains.exists_build zeroSingle_product

/-- Factors are rebuilt as the collected product that they hold. -/
theorem Factors.Holds.exists_rebuild?
    (holds : factors.Holds product)
    (table : SymbolTable)
    (nonzero : product.coefficient ≠ 0)
    (fits : product.Fits values) :
    ∃ expr,
      factors.rebuild? table.construct = some expr ∧
        expr.IsCollected product := by
  obtain ⟨names, distinct, covers, powers⟩ := holds.exists_names
  have small := fits.coefficient_lt
  let present := names.filter (· ∈ product.symbols)
  obtain ⟨chain, built, isChain⟩ :=
    exists_build_operandsOf table nonzero small present
  have members (name : String) : name ∈ present ↔ name ∈ product.symbols := by
    rw [List.mem_filter, decide_eq_true_iff]
    exact ⟨And.right, fun member => ⟨covers name member, member⟩⟩
  refine ⟨chain, ?_, nonzero, present, distinct.filter _, members, isChain⟩
  have literal :
      ofFloat (floatOfInt product.coefficient) = whole product.coefficient :=
    ofInt_eq_number (fitsFloat_of_le (Nat.le_of_lt small))
  have operands :
      (if floatOfInt product.coefficient != 1 ||
            (present.map fun name =>
              powerOf name (product.symbols.count name)).isEmpty then
          (present.map fun name =>
              powerOf name (product.symbols.count name)) ++
            [ofFloat (floatOfInt product.coefficient)]
        else
          present.map fun name => powerOf name (product.symbols.count name)) =
        operandsOf product present := by
    rw [literal, bne, floatOfInt_beq_one small, operandsOf]
    by_cases listed : product.coefficient ≠ 1 ∨ present = []
    · rw [if_pos (by simpa using listed), if_pos listed]
    · rw [if_neg (by simpa using listed), if_neg listed, List.append_nil]
  rw [Factors.rebuild?, holds.coefficient_eq, powers, floatOfInt_isFinite small,
    floatOfInt_beq_zero small, operands?_powersOf fits.count_lt]
  simp only [nonzero, decide_false, Bool.not_true, Bool.false_eq_true, if_false,
    Option.bind_eq_bind, Option.bind_some]
  rw [operands, built]
  rfl

end Rebuilding

/-! ## One collected form -/

section Collected

variable {values : String → Int} {product : PowerProduct} {expr expr' : Expr}
  {names : List String}

theorem Expr.isCollected_literal
    {number : Int}
    (nonzero : number ≠ 0) :
    (whole number).IsCollected (.literal number) := by
  have operands : operandsOf (.literal number) [] = [whole number] := by
    simp [operandsOf]
  refine ⟨nonzero, [], List.nodup_nil, by simp, ?_⟩
  rw [operands]
  exact isChainOf_singleton rfl

theorem Expr.isCollected_symbol
    (name : String) :
    (symbol name).IsCollected (.symbol name) := by
  have operands : operandsOf (.symbol name) [name] = [.symbol name] := by
    simp [operandsOf, powerOf]
  refine ⟨one_ne_zero, [name], List.nodup_singleton name, by simp, ?_⟩
  rw [operands]
  exact isChainOf_singleton rfl

/-- There is one collected form of a product. -/
theorem Expr.IsCollected.unique
    (isCollected : expr.IsCollected product)
    (isCollected' : expr'.IsCollected product) :
    expr = expr' := by
  obtain ⟨names, distinct, members, isChain⟩ := isCollected.exists_names
  obtain ⟨names', distinct', members', isChain'⟩ := isCollected'.exists_names
  have permuted : names.Perm names' :=
    (List.perm_ext_iff_of_nodup distinct distinct').mpr fun name =>
      (members name).trans (members' name).symm
  have empty : names = [] ↔ names' = [] := by
    rw [← List.length_eq_zero_iff, permuted.length_eq, List.length_eq_zero_iff]
  have operands :
      (operandsOf product names).Perm (operandsOf product names') := by
    simp only [operandsOf, empty]
    exact (permuted.map _).append_right _
  have sorted :
      sortCanonically (operandsOf product names) =
        sortCanonically (operandsOf product names') :=
    canonicalCompare_linearOn_plainlyNamed.sortBy_eq_of_perm
      (fun item member => (isSingleFactor_of_mem member).plainlyNamed) operands
  rw [sorted] at isChain
  exact isChain.unique isChain'

/-- Without symbols the collected form is a literal. -/
theorem Expr.IsCollected.symbols_ne_zero
    (isCollected : expr.IsCollected product)
    (notLiteral : expr.isNumber = false) :
    product.symbols ≠ 0 := by
  intro none
  obtain ⟨names, -, members, isChain⟩ := isCollected.exists_names
  have empty : names = [] := by
    rw [List.eq_nil_iff_forall_not_mem]
    intro name member
    rw [members, none] at member
    exact Multiset.notMem_zero name member
  have operands : operandsOf product names = [whole product.coefficient] := by
    simp [operandsOf, empty]
  rw [operands] at isChain
  rw [isChain.unique (isChainOf_singleton rfl)] at notLiteral
  cases notLiteral

/-- The powers of all symbols multiply to the symbols. -/
theorem prod_powers
    (distinct : names.Nodup)
    (members : ∀ name, name ∈ names ↔ name ∈ product.symbols) :
    (names.map fun name =>
        PowerProduct.symbol name ^ product.symbols.count name).prod =
      .ofSymbols product.symbols := by
  have multiplied
      (names : List String)
      (count : String → Nat) :
      (names.map fun name => PowerProduct.symbol name ^ count name).prod =
        .ofSymbols (names.map fun name => count name • {name}).sum := by
    induction names with
    | nil =>
        rfl
    | cons name names inductionHypothesis =>
        rw [List.map_cons, List.prod_cons, inductionHypothesis]
        exact PowerProduct.ext (by simp) (by simp)
  have sameNames : names.toFinset = product.symbols.toFinset := by
    ext name
    rw [List.mem_toFinset, Multiset.mem_toFinset, members]
  rw [multiplied, ← List.sum_toFinset _ distinct, sameNames,
    Multiset.toFinset_sum_count_nsmul_eq]

/-- What the operands of a product multiply, one by one. -/
def partsOf
    (product : PowerProduct)
    (names : List String) : List PowerProduct :=
  names.map (fun name =>
      PowerProduct.symbol name ^ product.symbols.count name) ++
    if product.coefficient ≠ 1 ∨ names = [] then
      [.literal product.coefficient]
    else
      []

theorem prod_partsOf
    (distinct : names.Nodup)
    (members : ∀ name, name ∈ names ↔ name ∈ product.symbols) :
    (partsOf product names).prod = product := by
  rw [partsOf, List.prod_append, prod_powers distinct members]
  split
  · exact PowerProduct.ext (by simp) (by simp)
  · rename_i unlisted
    have one := not_not.mp (not_or.mp unlisted).1
    exact PowerProduct.ext (by simp [one]) (by simp)

/-- An operand multiplies a power of a symbol or the coefficient. -/
theorem isPowerProduct_powerOf
    {name : String}
    {count : Nat}
    (positive : count ≠ 0)
    (small : count < 2 ^ 53)
    (fits : (PowerProduct.symbol name ^ count).Fits values) :
    (powerOf name count).IsPowerProduct values
      (PowerProduct.symbol name ^ count) := by
  have symbolFits : (PowerProduct.symbol name).Fits values := by
    obtain ⟨count, rfl⟩ := Nat.exists_eq_succ_of_ne_zero positive
    rw [pow_succ'] at fits
    exact fits.left (by simp)
  rcases powerOf_cases name count with ⟨same, one⟩ | same
  · rw [same, one, pow_one]
    exact .symbol symbolFits
  · rw [same]
    exact .power (.symbol symbolFits) (Multiset.singleton_ne_zero name) small fits

/-- A chain multiplies what its operands multiply. -/
theorem isPowerProduct_nested
    {first : Expr}
    {rest : List Expr}
    {products : List PowerProduct}
    (multiply : List.Forall₂ (IsPowerProduct values) (first :: rest) products)
    (fits : products.prod.Fits values) :
    (nested Operator.mul first rest).IsPowerProduct values products.prod := by
  induction rest generalizing first products with
  | nil =>
      obtain ⟨product, _, isProduct, nothing, rfl⟩ :=
        List.forall₂_cons_left_iff.mp multiply
      cases nothing
      rw [List.prod_singleton]
      exact isProduct
  | cons second rest inductionHypothesis =>
      obtain ⟨product, others, isProduct, multiplyOthers, rfl⟩ :=
        List.forall₂_cons_left_iff.mp multiply
      rw [List.prod_cons] at fits ⊢
      exact .product isProduct
        (inductionHypothesis multiplyOthers (fits.right isProduct.nonzero)) fits

/-- The operands of a product multiply its parts. -/
theorem forall₂_operandsOf
    (nonzero : product.coefficient ≠ 0)
    (members : ∀ name, name ∈ names ↔ name ∈ product.symbols)
    (fits : product.Fits values)
    (partFits : ∀ part ∈ partsOf product names, part.Fits values) :
    List.Forall₂ (IsPowerProduct values) (operandsOf product names)
      (partsOf product names) := by
  obtain ⟨powersFit, coefficientFits⟩ := List.forall_mem_append.mp partFits
  refine List.rel_append ?_ ?_
  · rw [List.forall₂_map_left_iff, List.forall₂_map_right_iff, List.forall₂_same]
    intro name member
    exact isPowerProduct_powerOf
      (Multiset.count_ne_zero.mpr ((members name).mp member))
      (fits.count_lt name) (powersFit _ (List.mem_map_of_mem member))
  · split
    · rename_i listed
      rw [if_pos listed] at coefficientFits
      exact .cons
        (.literal nonzero (List.forall_mem_singleton.mp coefficientFits)) .nil
    · exact .nil

/-- A collected product is an expression of the product. -/
theorem Expr.IsCollected.isPowerProduct
    (isCollected : expr.IsCollected product)
    (fits : product.Fits values) :
    expr.IsPowerProduct values product := by
  obtain ⟨names, distinct, members, isChain⟩ := isCollected.exists_names
  have multiplied := prod_partsOf distinct members
  have multiply : List.Forall₂ (IsPowerProduct values) _ (partsOf product names) :=
    forall₂_operandsOf isCollected.nonzero members fits fun part =>
      fits.of_mem isCollected.nonzero multiplied
  obtain ⟨sorted, sortedMultiply, permuted⟩ :=
    List.perm_comp_forall₂ (sortCanonically_perm (operandsOf product names)) multiply
  obtain ⟨first, rest, flat, rfl⟩ :=
    exists_nested_of_isRightNested isChain.isNested
  rw [isChain.flatten_eq] at flat
  rw [flat] at sortedMultiply
  have sameProduct : sorted.prod = product :=
    permuted.prod_eq.trans multiplied
  rw [← sameProduct]
  exact isPowerProduct_nested sortedMultiply (sameProduct ▸ fits)

end Collected

end SymbolicAlgebra
