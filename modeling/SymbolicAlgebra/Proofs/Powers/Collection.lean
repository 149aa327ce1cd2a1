import SymbolicAlgebra.Proofs.Factor.Basic
import SymbolicAlgebra.Proofs.Powers.Product

/-!
# Collecting powers

Expressions of products and natural powers over symbols and integers are collected exactly: the coefficient is
that of the product of powers, and every symbol has its exponent.
-/

namespace SymbolicAlgebra

open SymbolicAlgebra.Expr

/--
The expression multiplies literals, symbols and natural powers of symbolic expressions to the product, and so
do all of its parts.  Every one of them fits, and no literal is zero.
-/
inductive Expr.IsPowerProduct
    (values : String → Int) : Expr → PowerProduct → Prop where
  | literal
      {number : Int}
      (nonzero : number ≠ 0)
      (fits : (PowerProduct.literal number).Fits values) :
      IsPowerProduct values (whole number) (.literal number)
  | symbol
      {name : String}
      (fits : (PowerProduct.symbol name).Fits values) :
      IsPowerProduct values (symbol name) (.symbol name)
  | product
      {lhs rhs : Expr}
      {first second : PowerProduct}
      (lhsProduct : IsPowerProduct values lhs first)
      (rhsProduct : IsPowerProduct values rhs second)
      (fits : (first * second).Fits values) :
      IsPowerProduct values (apply Operator.mul [lhs, rhs]) (first * second)
  | power
      {base : Expr}
      {product : PowerProduct}
      {count : Nat}
      (baseProduct : IsPowerProduct values base product)
      (symbolic : product.symbols ≠ 0)
      (small : count < 2 ^ 53)
      (fits : (product ^ count).Fits values) :
      IsPowerProduct values (apply Operator.pow [base, whole count])
        (product ^ count)

section PowerProduct

variable {values : String → Int} {expr : Expr} {product : PowerProduct}

theorem Expr.IsPowerProduct.fits
    (isProduct : expr.IsPowerProduct values product) :
    product.Fits values := by
  cases isProduct with
  | literal nonzero fits | symbol fits | product lhsProduct rhsProduct fits
  | power baseProduct symbolic small fits =>
      exact fits

theorem Expr.IsPowerProduct.nonzero
    (isProduct : expr.IsPowerProduct values product) :
    product.coefficient ≠ 0 := by
  induction isProduct with
  | literal nonzero fits =>
      exact nonzero
  | symbol fits =>
      exact one_ne_zero
  | product lhsProduct rhsProduct fits lhsHypothesis rhsHypothesis =>
      exact mul_ne_zero lhsHypothesis rhsHypothesis
  | power baseProduct symbolic small fits baseHypothesis =>
      exact pow_ne_zero _ baseHypothesis

theorem Expr.IsPowerProduct.symbols_eq_zero
    (isProduct : expr.IsPowerProduct values product)
    (isNumber : expr.isNumber = true) :
    product.symbols = 0 := by
  cases isProduct with
  | literal nonzero fits =>
      rfl
  | _ =>
      cases isNumber

end PowerProduct

/-! ## Exponents -/

section Exponents

variable {first second : Nat}

theorem evaluateLiterals?_power
    (name : String)
    {base : Int}
    {count : Nat}
    (baseSmall : base.natAbs < 2 ^ 53)
    (countSmall : count < 2 ^ 53)
    (small : (base ^ count).natAbs < 2 ^ 53) :
    powerSpec.evaluateLiterals? name [whole base, whole count] =
      some (.ok (whole (base ^ count))) :=
  congrArg
    (fun outcome : Except EvalFailure Expr =>
      some (outcome.mapError
        (ExprError.evaluation name (floatOfInt base) (floatOfInt count))))
    (evaluate_pow baseSmall countSmall small)

theorem construct_sum_wholes
    (table : SymbolTable)
    (small : first + second < 2 ^ 53) :
    table.construct Operator.add [whole first, whole second] =
      .ok (whole (first + second : Nat)) :=
  construct_evaluated table.specOf?_add (List.cons_ne_nil _ _)
    (evaluateLiterals?_sum _ (by omega) (by omega) (by omega))

theorem construct_product_wholes
    (table : SymbolTable)
    (firstSmall : first < 2 ^ 53)
    (secondSmall : second < 2 ^ 53)
    (small : first * second < 2 ^ 53) :
    table.construct Operator.mul [whole first, whole second] =
      .ok (whole (first * second : Nat)) :=
  construct_evaluated table.specOf?_mul (List.cons_ne_nil _ _)
    (evaluateLiterals?_product _ firstSmall secondSmall small)

/-- Exponents of nested powers are multiplied. -/
theorem scaleExponent?_wholes
    (table : SymbolTable)
    (firstSmall : first < 2 ^ 53)
    (secondSmall : second < 2 ^ 53)
    (small : first * second < 2 ^ 53) :
    scaleExponent? table.construct (whole first) (whole second) =
      some (whole (first * second : Nat)) := by
  have isOne
      {count : Nat}
      (small : count < 2 ^ 53) :
      (whole count).number?.any (· == 1) = decide (count = 1) := by
    simp [whole, number?, floatOfInt_beq_one (show (count : Int).natAbs < 2 ^ 53 from small)]
  rw [scaleExponent?, isOne firstSmall, isOne secondSmall]
  by_cases firstOne : first = 1
  · rw [if_pos (decide_eq_true firstOne), firstOne, Nat.one_mul]
  · rw [if_neg (by simpa using firstOne)]
    by_cases secondOne : second = 1
    · rw [if_pos (decide_eq_true secondOne), secondOne, Nat.mul_one]
    · rw [if_neg (by simpa using secondOne),
        construct_product_wholes table firstSmall secondSmall small]
      rfl

end Exponents

/-! ## Collecting -/

/-- The powers of symbols with their exponents. -/
def powersOf
    (symbols : Multiset String)
    (names : List String) : List (Expr × Expr) :=
  names.map fun name => (.symbol name, .whole (symbols.count name))

/-- The factors hold the coefficient of the product and the exponents of all its symbols. -/
structure Factors.Holds
    (factors : Factors)
    (product : PowerProduct) : Prop where
  coefficient_eq :
    factors.coefficient = floatOfInt product.coefficient
  exists_names :
    ∃ names : List String,
      names.Nodup ∧ (∀ name ∈ product.symbols, name ∈ names) ∧
        factors.powers = powersOf product.symbols names

section Insertion

variable {table : SymbolTable} {symbols : Multiset String}
  {names : List String} {name : String} {count : Nat}

theorem powersOf_congr
    {symbols' : Multiset String}
    (same : ∀ name ∈ names, symbols.count name = symbols'.count name) :
    powersOf symbols names = powersOf symbols' names :=
  List.map_congr_left fun name member => by rw [same name member]

theorem count_add_nsmul
    (symbols : Multiset String)
    (other name : String)
    (count : Nat) :
    (symbols + count • {name}).count other =
      symbols.count other + if other = name then count else 0 := by
  simp [Multiset.count_singleton]

/-- The exponent of a symbol that is there is increased. -/
theorem insertPower?_of_mem
    (distinct : names.Nodup)
    (member : name ∈ names)
    (small : symbols.count name + count < 2 ^ 53) :
    Factors.insertPower? table.construct (.symbol name) (whole count)
        (powersOf symbols names) =
      some (powersOf (symbols + count • {name}) names) := by
  induction names with
  | nil =>
      cases member
  | cons first rest inductionHypothesis =>
      obtain ⟨fresh, restDistinct⟩ := List.nodup_cons.mp distinct
      by_cases same : first = name
      · subst same
        have kept :
            powersOf (symbols + count • {first}) rest = powersOf symbols rest := by
          apply powersOf_congr
          intro other isOther
          rw [count_add_nsmul, if_neg (ne_of_mem_of_not_mem isOther fresh),
            Nat.add_zero]
        have increased :
            (symbols + count • {first}).count first =
              symbols.count first + count := by
          rw [count_add_nsmul, if_pos rfl]
        simp only [powersOf, List.map_cons] at kept ⊢
        rw [kept, increased]
        simp [Factors.insertPower?, addExponents?,
          construct_sum_wholes table small, Except.toOption]
      · have inRest : name ∈ rest :=
          (List.mem_cons.mp member).resolve_left (Ne.symm same)
        have later := inductionHypothesis restDistinct inRest
        have kept :
            (symbols + count • {name}).count first = symbols.count first := by
          rw [count_add_nsmul, if_neg same, Nat.add_zero]
        simp only [powersOf, List.map_cons] at later ⊢
        rw [kept]
        simp [Factors.insertPower?, same, later]

/-- The exponent of a symbol is increased, or put last if there is none. -/
theorem exists_insertPower?
    (distinct : names.Nodup)
    (covers : ∀ name ∈ symbols, name ∈ names)
    (small : symbols.count name + count < 2 ^ 53) :
    ∃ names' : List String,
      names'.Nodup ∧ (∀ other ∈ symbols + count • {name}, other ∈ names') ∧
        Factors.insertPower? table.construct (.symbol name) (whole count)
            (powersOf symbols names) =
          some (powersOf (symbols + count • {name}) names') := by
  have isName
      {other : String}
      (member : other ∈ count • ({name} : Multiset String)) :
      other = name :=
    Multiset.mem_singleton.mp (Multiset.mem_of_mem_nsmul member)
  by_cases member : name ∈ names
  · refine ⟨names, distinct, ?_, insertPower?_of_mem distinct member small⟩
    intro other isOther
    rcases Multiset.mem_add.mp isOther with isSymbol | inserted
    · exact covers other isSymbol
    · exact isName inserted ▸ member
  · refine ⟨names ++ [name], ?_, ?_, ?_⟩
    · rw [List.nodup_append_comm]
      exact List.nodup_cons.mpr ⟨member, distinct⟩
    · intro other isOther
      rw [List.mem_append, List.mem_singleton]
      rcases Multiset.mem_add.mp isOther with isSymbol | inserted
      · exact .inl (covers other isSymbol)
      · exact .inr (isName inserted)
    · have fresh :
          Expr.symbol name ∉ (powersOf symbols names).map (·.1) := by
        simpa [powersOf] using member
      have kept :
          powersOf (symbols + count • {name}) names = powersOf symbols names := by
        apply powersOf_congr
        intro other isOther
        rw [count_add_nsmul, if_neg (ne_of_mem_of_not_mem isOther member),
          Nat.add_zero]
      have absent : symbols.count name = 0 :=
        Multiset.count_eq_zero.mpr (mt (covers name) member)
      have inserted : (symbols + count • {name}).count name = count := by
        rw [count_add_nsmul, if_pos rfl, absent, Nat.zero_add]
      rw [Factors.insertPower?_of_notMem fresh, ← kept]
      simp [powersOf, Multiset.count_singleton, absent]

end Insertion

section Collection

variable {table : SymbolTable} {values : String → Int} {factors : Factors}
  {held product : PowerProduct} {expr : Expr} {count : Nat}

/-- A literal power of a literal goes into the coefficient. -/
theorem Factors.Holds.push?_literal
    {number : Int}
    (holds : factors.Holds held)
    (heldNonzero : held.coefficient ≠ 0)
    (nonzero : number ≠ 0)
    (numberFits : (PowerProduct.literal number).Fits values)
    (small : count < 2 ^ 53)
    (fits : (held * PowerProduct.literal number ^ count).Fits values) :
    ∃ factors',
      Factors.push? table.construct factors (whole number) (whole count) =
          some factors' ∧
        factors'.Holds (held * PowerProduct.literal number ^ count) := by
  have powerNonzero : number ^ count ≠ 0 :=
    pow_ne_zero count nonzero
  have numberSmall : number.natAbs < 2 ^ 53 :=
    numberFits.coefficient_lt
  have powerSmall : (number ^ count).natAbs < 2 ^ 53 :=
    (fits.right heldNonzero).coefficient_lt
  have productSmall : (held.coefficient * number ^ count).natAbs < 2 ^ 53 :=
    fits.coefficient_lt
  refine ⟨{ factors with
    coefficient := factors.coefficient * power (floatOfInt number) (floatOfInt count) },
    rfl, ?_, ?_⟩
  · rw [holds.coefficient_eq, power_floatOfInt numberSmall small powerSmall,
      floatOfInt_mul heldNonzero powerNonzero productSmall]
    rfl
  · simpa using holds.exists_names

/-- A power of a symbol is multiplied into the powers. -/
theorem Factors.Holds.exists_push?_symbol
    {name : String}
    (holds : factors.Holds held)
    (fits : (held * PowerProduct.symbol name ^ count).Fits values) :
    ∃ factors',
      Factors.push? table.construct factors (.symbol name) (whole count) =
          some factors' ∧
        factors'.Holds (held * PowerProduct.symbol name ^ count) := by
  obtain ⟨names, distinct, covers, powers⟩ := holds.exists_names
  have small : held.symbols.count name + count < 2 ^ 53 := by
    have counted := fits.count_lt name
    simpa using counted
  obtain ⟨names', distinct', covers', inserted⟩ :=
    exists_insertPower? distinct covers small
  refine ⟨{ factors with
    powers := powersOf (held.symbols + count • {name}) names' }, ?_, ?_, ?_⟩
  · rw [Factors.push?_of_not_literals rfl, powers, inserted]
    rfl
  · rw [holds.coefficient_eq]
    simp
  · exact ⟨names', distinct', covers', rfl⟩

/-- Collecting a power of a product multiplies it into the factors. -/
theorem Expr.IsPowerProduct.exists_collect?
    (isProduct : expr.IsPowerProduct values product)
    (holds : factors.Holds held)
    (nonzero : held.coefficient ≠ 0)
    (small : count < 2 ^ 53)
    (fits : (held * product ^ count).Fits values) :
    ∃ factors',
      Factors.collect? table.construct factors expr (whole count) =
          some factors' ∧
        factors'.Holds (held * product ^ count) := by
  induction isProduct generalizing factors held count with
  | literal numberNonzero numberFits =>
      exact holds.push?_literal nonzero numberNonzero numberFits small fits
  | symbol symbolFits =>
      exact holds.exists_push?_symbol fits
  | @product lhs rhs first second lhsProduct rhsProduct productFits lhsHypothesis
      rhsHypothesis =>
      rw [mul_pow, ← mul_assoc] at fits ⊢
      obtain ⟨factors', lhsCollected, holds'⟩ :=
        lhsHypothesis holds nonzero small
          (fits.left (pow_ne_zero count rhsProduct.nonzero))
      obtain ⟨factors'', rhsCollected, holds''⟩ :=
        rhsHypothesis holds'
          (mul_ne_zero nonzero (pow_ne_zero count lhsProduct.nonzero)) small fits
      refine ⟨factors'', ?_, holds''⟩
      simp only [Factors.collect?, Factors.collectArgs?, lhsCollected,
        rhsCollected, if_true]
  | @power base product inner baseProduct symbolic innerSmall powerFits
      baseHypothesis =>
      rw [← pow_mul, Nat.mul_comm] at fits ⊢
      have combinedSmall : count * inner < 2 ^ 53 := by
        have card := (fits.right nonzero).card_lt
        rw [PowerProduct.symbols_pow, Multiset.card_nsmul] at card
        exact Nat.lt_of_le_of_lt
          (Nat.le_mul_of_pos_right _ (Multiset.card_pos.mpr symbolic)) card
      obtain ⟨factors', collected, holds'⟩ :=
        baseHypothesis holds nonzero combinedSmall fits
      refine ⟨factors', ?_, holds'⟩
      have combined :=
        scaleExponent?_wholes table small innerSmall combinedSmall
      simp only [Factors.collect?, combined, collected]
      rfl

/-- The factors of a product of powers hold it. -/
theorem Expr.IsPowerProduct.exists_of?
    (isProduct : expr.IsPowerProduct values product)
    (table : SymbolTable) :
    ∃ factors,
      Factors.of? table.construct expr = some factors ∧
        factors.Holds product := by
  have empty : Factors.one.Holds 1 :=
    ⟨floatOfInt_one.symm, [], List.nodup_nil, by simp, rfl⟩
  have fits : (1 * product ^ 1).Fits values := by
    rw [one_mul, pow_one]
    exact isProduct.fits
  have collects :=
    @IsPowerProduct.exists_collect? table values Factors.one 1 product expr 1
      isProduct empty one_ne_zero (by decide) fits
  rw [one_mul, pow_one] at collects
  have one : whole (1 : Nat) = .number 1 :=
    congrArg Expr.number floatOfInt_one
  rwa [one] at collects

end Collection

end SymbolicAlgebra
