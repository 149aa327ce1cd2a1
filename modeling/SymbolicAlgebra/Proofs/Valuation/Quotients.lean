import SymbolicAlgebra.Proofs.Valuation.Factors
import SymbolicAlgebra.Rule.Arithmetic

/-!
# The rules for products and quotients keep values

One rule collects the factors of products and powers, another one multiplies quotients out and cancels
common factors.  In a field, each of them replaces a node by an expression with the same value, as long as
factors, denominators and bases of powers are not zero, exponents are integers, and none of the
operations on literals that it performs rounds.
-/

namespace SymbolicAlgebra

namespace Transform

/-- The steps of collecting the factors of a product or power. -/
def conversionSteps
    (table : SymbolTable)
    (node : Expr) : List Step :=
  if node.isApplyOf Operator.mul || node.isBinaryOf Operator.pow then
    Factors.steps table node ++
      match Factors.of? table.construct node with
      | some factors => factors.rebuildingSteps table
      | none => []
  else
    []

/-- The steps of multiplying a quotient with a factor. -/
def quotientProductSteps
    (table : SymbolTable)
    (factor numerator denominator : Expr) : List Step :=
  if factor = denominator then
    []
  else
    (table.evaluationsThen Operator.mul [factor, numerator] fun product =>
      table.evaluations Operator.div [product, denominator]).map .factor

/-- The steps of multiplying a product out that has a quotient among its two factors. -/
def productCancellationSteps
    (table : SymbolTable)
    (lhs rhs : Expr) : List Step :=
  match rhs.operands? Operator.div with
  | some (numerator, denominator) =>
    quotientProductSteps table lhs numerator denominator
  | none =>
    match lhs.operands? Operator.div with
    | some (numerator, denominator) =>
      quotientProductSteps table rhs numerator denominator
    | none => []

/-- The steps of dividing factors and writing the quotient as a product. -/
def factorDivisionSteps
    (table : SymbolTable)
    (dividend divisor : Factors) : List Step :=
  dividend.divisionSteps table divisor ++
    match dividend.divide? table.construct divisor with
    | some quotient => quotient.rebuildingSteps table
    | none => []

/-- The steps of cancelling a quotient: a reciprocal and a product, or the division of factors. -/
def quotientCancellationSteps
    (table : SymbolTable)
    (numerator denominator : Expr) : List Step :=
  match denominator with
  | .number divisor =>
    let reciprocal : Float := 1 / divisor
    if reciprocal.isFinite then
      .factor ⟨Operator.div, 1, divisor, .ofFloat reciprocal⟩ ::
        (table.evaluations Operator.mul
          [numerator, .ofFloat reciprocal]).map .factor
    else
      []
  | denominator =>
    Factors.steps table numerator ++
      match Factors.of? table.construct numerator with
      | some dividend =>
        Factors.steps table denominator ++
          match Factors.of? table.construct denominator with
          | some divisor => factorDivisionSteps table dividend divisor
          | none => []
      | none => []

/-- The steps of cancelling and normalizing quotients. -/
def cancellationSteps
    (table : SymbolTable)
    (node : Expr) : List Step :=
  match node.operands? Operator.mul with
  | some (lhs, rhs) => productCancellationSteps table lhs rhs
  | none =>
    match node.operands? Operator.div with
    | some (numerator, denominator) =>
      quotientCancellationSteps table numerator denominator
    | none => []

end Transform

/-- The rules that rewrite nothing but products, quotients and powers. -/
inductive MultiplicativeRule where
  | convertPowers
  | cancelDivision

namespace MultiplicativeRule

/-- What the rule makes of nodes. -/
def transform? : MultiplicativeRule → Transform
  | convertPowers => Transform.convertPowers?
  | cancelDivision => Transform.cancelDivision?

/-- The operations on literals that the rule performs at a node. -/
def steps
    (rule : MultiplicativeRule)
    (table : SymbolTable)
    (node : Expr) : List Step :=
  match rule with
  | convertPowers => Transform.conversionSteps table node
  | cancelDivision => Transform.cancellationSteps table node

end MultiplicativeRule

namespace Valuation

variable {F : Type*} [Field F] {valuation : Valuation F} {table : SymbolTable}

/-! ## Products and powers -/

/-- Collecting the factors of a product or power keeps its value. -/
theorem value_convertPowers?
    {node replacement : Expr}
    (regular : valuation.Regular node)
    (kept :
      ∀ step ∈ Transform.conversionSteps table node, step.Keeps valuation)
    (transformed :
      Transform.convertPowers? table table.construct node = some replacement) :
    valuation.value replacement = valuation.value node := by
  unfold Transform.convertPowers? at transformed
  unfold Transform.conversionSteps at kept
  split at transformed
  · rename_i applies
    rw [if_pos applies, List.forall_mem_append] at kept
    obtain ⟨factors, collected, rebuilt⟩ := Option.bind_eq_some_iff.mp transformed
    simp only [collected] at kept
    have multiplies := multiplies_of? regular kept.1 collected
    rw [value_rebuild? multiplies.integers kept.2 rebuilt, multiplies.value_eq]
  · cases transformed

/-! ## Quotients -/

/-- The operands of a regular quotient: the denominator is not zero. -/
theorem Regular.of_quotient
    {numerator denominator : Expr}
    (regular :
      valuation.Regular (.apply Operator.div [numerator, denominator])) :
    valuation.Regular numerator ∧ valuation.Regular denominator ∧
      valuation.value denominator ≠ 0 := by
  generalize shape : Expr.apply Operator.div [numerator, denominator] = expr
    at regular
  cases regular with
  | product regular nonzero =>
      simp at shape
  | quotient numeratorRegular denominatorRegular nonzero =>
      cases shape
      exact ⟨numeratorRegular, denominatorRegular, nonzero⟩
  | power isInteger baseRegular nonzero =>
      simp at shape
  | other notProduct notQuotient notPower =>
      subst shape
      cases notQuotient

theorem Regular.of_product
    {args : List Expr}
    (regular : valuation.Regular (.apply Operator.mul args)) :
    ∀ arg ∈ args, valuation.Regular arg := by
  generalize shape : Expr.apply Operator.mul args = expr at regular
  cases regular with
  | product regular nonzero =>
      cases shape
      exact regular
  | quotient numeratorRegular denominatorRegular nonzero =>
      simp at shape
  | power isInteger baseRegular nonzero =>
      simp at shape
  | other notProduct notQuotient notPower =>
      subst shape
      cases notProduct

theorem value_construct_product
    {lhs rhs result : Expr}
    (kept :
      ∀ evaluation ∈ table.evaluations Operator.mul [lhs, rhs],
        evaluation.Keeps valuation.value)
    (built : table.construct Operator.mul [lhs, rhs] = .ok result) :
    valuation.value result = valuation.value lhs * valuation.value rhs := by
  simpa using (suits_product table).value_construct kept built

/-- Multiplying a quotient with a factor keeps the value. -/
theorem value_multiplyQuotient?
    {factor numerator denominator result : Expr}
    (nonzero : valuation.value denominator ≠ 0)
    (kept :
      ∀ step ∈
          Transform.quotientProductSteps table factor numerator denominator,
        step.Keeps valuation)
    (multiplied :
      Transform.multiplyQuotient? table.construct factor numerator denominator =
        some result) :
    valuation.value result =
      valuation.value factor *
        (valuation.value numerator / valuation.value denominator) := by
  unfold Transform.multiplyQuotient? at multiplied
  unfold Transform.quotientProductSteps at kept
  split at multiplied
  · rename_i same
    cases multiplied
    rw [same, mul_div_cancel₀ _ nonzero]
  · rename_i different
    rw [if_neg different, List.forall_mem_map] at kept
    obtain ⟨product, productBuilt, built⟩ :=
      exists_of_bind_eq_ok (eq_ok_of_toOption multiplied)
    obtain ⟨keptProduct, keptQuotient⟩ :=
      (SymbolTable.forall_evaluationsThen productBuilt).mp kept
    rw [(suits_quotient table).value_construct keptQuotient built, value_quotient,
      value_construct_product keptProduct productBuilt, mul_div_assoc]

/-- Multiplying a product out that has a quotient among its factors keeps its value. -/
theorem value_cancelProduct?
    {lhs rhs result : Expr}
    (lhsRegular : valuation.Regular lhs)
    (rhsRegular : valuation.Regular rhs)
    (kept :
      ∀ step ∈ Transform.productCancellationSteps table lhs rhs,
        step.Keeps valuation)
    (cancelled :
      Transform.cancelProduct? table.construct lhs rhs = some result) :
    valuation.value result = valuation.value lhs * valuation.value rhs := by
  unfold Transform.cancelProduct? at cancelled
  unfold Transform.productCancellationSteps at kept
  split at cancelled
  · rename_i numerator denominator isQuotient
    simp only [isQuotient] at kept
    obtain rfl := Expr.operands?_eq_some isQuotient
    rw [value_multiplyQuotient? rhsRegular.of_quotient.2.2 kept cancelled,
      value_quotient]
  · rename_i notQuotient
    simp only [notQuotient] at kept
    split at cancelled
    · rename_i numerator denominator isQuotient
      simp only [isQuotient] at kept
      obtain rfl := Expr.operands?_eq_some isQuotient
      rw [value_multiplyQuotient? lhsRegular.of_quotient.2.2 kept cancelled,
        value_quotient, mul_comm]
    · cases cancelled

/-- Dividing the factors of the denominator out of those of the numerator keeps the value. -/
theorem value_factorDivision
    {numerator denominator result : Expr}
    {dividend divisor quotient : Factors}
    (dividendMultiplies :
      valuation.Multiplies Factors.one dividend (valuation.value numerator) 1)
    (divisorMultiplies :
      valuation.Multiplies Factors.one divisor (valuation.value denominator) 1)
    (nonzero : valuation.value denominator ≠ 0)
    (kept :
      ∀ step ∈ Transform.factorDivisionSteps table dividend divisor,
        step.Keeps valuation)
    (divided : dividend.divide? table.construct divisor = some quotient)
    (rebuilt : quotient.rebuild? table.construct = some result) :
    valuation.value result =
      valuation.value numerator / valuation.value denominator := by
  unfold Transform.factorDivisionSteps at kept
  simp only [divided, List.forall_mem_append] at kept
  obtain ⟨integers, value⟩ :=
    factorsValue_divide? dividendMultiplies.integers divisorMultiplies.integers
      (divisorMultiplies.nonzero nonzero (List.forall_mem_nil _)) kept.1 divided
  rw [value_rebuild? integers kept.2 rebuilt, value, dividendMultiplies.value_eq,
    divisorMultiplies.value_eq]

/-- Cancelling a quotient keeps its value. -/
theorem value_cancelQuotient?
    {numerator denominator result : Expr}
    (numeratorRegular : valuation.Regular numerator)
    (denominatorRegular : valuation.Regular denominator)
    (nonzero : valuation.value denominator ≠ 0)
    (kept :
      ∀ step ∈
          Transform.quotientCancellationSteps table numerator denominator,
        step.Keeps valuation)
    (cancelled :
      Transform.cancelQuotient? table.construct numerator denominator =
        some result) :
    valuation.value result =
      valuation.value numerator / valuation.value denominator := by
  unfold Transform.cancelQuotient? at cancelled
  unfold Transform.quotientCancellationSteps at kept
  split at cancelled
  · rename_i divisor
    dsimp only at cancelled kept
    split at cancelled
    · rename_i isFinite
      rw [if_pos isFinite, List.forall_mem_cons, List.forall_mem_map] at kept
      have reciprocal :
          valuation.literal (1 / divisor) = 1 / valuation.literal divisor := by
        simpa [Step.Keeps, Evaluation.Keeps, valuation.one] using kept.1
      rw [value_construct_product kept.2 (eq_ok_of_toOption cancelled),
        value_ofFloat, value_number, reciprocal, mul_one_div]
    · cases cancelled
  · rename_i notLiteral
    obtain ⟨dividend, numeratorCollected, cancelled⟩ :=
      Option.bind_eq_some_iff.mp cancelled
    obtain ⟨divisor, denominatorCollected, cancelled⟩ :=
      Option.bind_eq_some_iff.mp cancelled
    obtain ⟨quotient, divided, rebuilt⟩ := Option.bind_eq_some_iff.mp cancelled
    split at kept
    · exact (notLiteral _ rfl).elim
    · simp only [numeratorCollected, denominatorCollected,
        List.forall_mem_append] at kept
      exact value_factorDivision
        (multiplies_of? numeratorRegular kept.1 numeratorCollected)
        (multiplies_of? denominatorRegular kept.2.1 denominatorCollected)
        nonzero kept.2.2 divided rebuilt

/-- Cancelling and normalizing quotients keeps values. -/
theorem value_cancelDivision?
    {node replacement : Expr}
    (regular : valuation.Regular node)
    (kept :
      ∀ step ∈ Transform.cancellationSteps table node, step.Keeps valuation)
    (transformed :
      Transform.cancelDivision? table table.construct node = some replacement) :
    valuation.value replacement = valuation.value node := by
  unfold Transform.cancelDivision? at transformed
  unfold Transform.cancellationSteps at kept
  split at transformed
  · rename_i lhs rhs isProduct
    simp only [isProduct] at kept
    obtain rfl := Expr.operands?_eq_some isProduct
    have each := regular.of_product
    rw [value_cancelProduct? (each lhs (by simp)) (each rhs (by simp)) kept
      transformed]
    simp
  · rename_i notProduct
    simp only [notProduct] at kept
    split at transformed
    · rename_i numerator denominator isQuotient
      simp only [isQuotient] at kept
      obtain rfl := Expr.operands?_eq_some isQuotient
      obtain ⟨numeratorRegular, denominatorRegular, nonzero⟩ := regular.of_quotient
      rw [value_cancelQuotient? numeratorRegular denominatorRegular nonzero kept
        transformed, value_quotient]
    · cases transformed

end Valuation

/--
Each rule for products and quotients makes of every expression, while a simplification is under way, an
expression with the same value, in every field and for all values of literals and terms for which factors,
denominators and bases of powers are not zero, if exponents are integers and the operations on literals
that it performs keep values.
-/
theorem MultiplicativeRule.value_field
    {F : Type*}
    [Field F]
    {valuation : Valuation F}
    {table : SymbolTable}
    {rule : MultiplicativeRule}
    {node : Expr}
    (regular : valuation.Regular node)
    (kept : ∀ step ∈ rule.steps table node, step.Keeps valuation) :
    valuation.value (rule.transform?.result table node) =
      valuation.value node := by
  unfold Transform.result
  cases transformed : rule.transform? table table.construct node with
  | none =>
      rfl
  | some replacement =>
      cases rule with
      | convertPowers =>
          exact Valuation.value_convertPowers? regular kept transformed
      | cancelDivision =>
          exact Valuation.value_cancelDivision? regular kept transformed

/-- A power of the denominator is divided out of a product, where the exponents are subtracted. -/
theorem MultiplicativeRule.value_field_quotient :
    let valuation := Valuation.rational fun term => if term = .symbol "x" then 2 / 3 else 7
    let x := Expr.symbol "x"
    let y := Expr.symbol "y"
    let power (exponent : Float) := Expr.apply Operator.pow [y, .number exponent]
    let product (factor : Expr) :=
      Expr.apply Operator.mul [.number 2, .apply Operator.mul [x, factor]]
    let node := Expr.apply Operator.div [product (power 3), y]
    valuation.Regular node ∧
      cancelDivision.steps {} node =
        [.factor ⟨Operator.pow, 2, 1, .number 2⟩,
          .factor ⟨Operator.mul, 1, 2, .number 2⟩,
          .exponent ⟨Operator.add, 3, -1, .number 2⟩,
          .factor ⟨Operator.div, 2, 1, .number 2⟩] ∧
      cancelDivision.transform?.result {} node = product (power 2) ∧
      valuation.value (cancelDivision.transform?.result {} node) =
        valuation.value node := by
  intro valuation x y power product node
  have atom {expr : Expr} (isLeaf : expr.isLeaf = true) :
      valuation.Regular expr := by
    cases expr with
    | apply head args =>
        cases isLeaf
    | _ =>
        exact .other rfl rfl rfl
  have pair
      {lhs rhs : Expr}
      (lhsRegular : valuation.Regular lhs)
      (rhsRegular : valuation.Regular rhs)
      (lhsNonzero : valuation.value lhs ≠ 0)
      (rhsNonzero : valuation.value rhs ≠ 0) :
      valuation.Regular (.apply Operator.mul [lhs, rhs]) :=
    .product (by simpa using ⟨lhsRegular, rhsRegular⟩)
      (by simpa using ⟨lhsNonzero, rhsNonzero⟩)
  have isThree : (Expr.number 3).IsInteger 3 :=
    ⟨3, rfl, by decide +kernel⟩
  have cubeRegular : valuation.Regular (power 3) :=
    .power isThree (atom rfl) (by decide +kernel)
  have regular : valuation.Regular node :=
    .quotient
      (pair (atom rfl)
        (pair (atom rfl) cubeRegular (by decide +kernel) (by decide +kernel))
        (by decide +kernel) (by decide +kernel))
      (atom rfl) (by decide +kernel)
  have performed :
      cancelDivision.steps {} node =
        [.factor ⟨Operator.pow, 2, 1, .number 2⟩,
          .factor ⟨Operator.mul, 1, 2, .number 2⟩,
          .exponent ⟨Operator.add, 3, -1, .number 2⟩,
          .factor ⟨Operator.div, 2, 1, .number 2⟩] := by
    decide +kernel
  have kept : ∀ step ∈ cancelDivision.steps {} node, step.Keeps valuation := by
    rw [performed]
    simp only [List.forall_mem_cons, Step.Keeps]
    exact ⟨by decide +kernel, by decide +kernel, by decide +kernel,
      by decide +kernel, List.forall_mem_nil _⟩
  exact ⟨regular, performed, by decide +kernel, value_field regular kept⟩

end SymbolicAlgebra
