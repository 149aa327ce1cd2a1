import SymbolicAlgebra.Proofs.Factor.Basic
import SymbolicAlgebra.Proofs.Valuation.Basic

/-!
# Factors keep values

In a field with values for literals and terms, products, quotients and powers with integer exponents have
values.  Collecting the factors of an expression, dividing them by those of another one and writing them
as a product again keep values, as long as no base of a power is zero and none of the operations on
literals rounds: coefficients keep values, and exponents stay the integers that they are.
-/

namespace SymbolicAlgebra

/-! ## Steps on literals -/

/-- The integer that is written in an exponent: a literal, or a sum or product of two. -/
def Expr.exponent? : Expr → Option Int
  | .number value => integer? value
  | .apply op [.number first, .number second] =>
    if op = Operator.add then do
      return (← integer? first) + (← integer? second)
    else if op = Operator.mul then do
      return (← integer? first) * (← integer? second)
    else
      none
  | _ => none

/-- An operation on literals: one that stands in a product, or one on exponents. -/
inductive Step where
  | factor (evaluation : Evaluation)
  | exponent (evaluation : Evaluation)
deriving DecidableEq

/-- The steps of scaling an exponent. -/
def scaleSteps
    (table : SymbolTable)
    (outer inner : Expr) : List Step :=
  if outer.number?.any (· == 1) then
    []
  else if inner.number?.any (· == 1) then
    []
  else
    (table.evaluations Operator.mul [outer, inner]).map .exponent

/-- The step of adding two exponents. -/
def additionSteps
    (table : SymbolTable)
    (first second : Expr) : List Step :=
  (table.evaluations Operator.add [first, second]).map .exponent

namespace Factors

/-- The steps of multiplying one more power into a list. -/
def insertionSteps
    (table : SymbolTable)
    (base exponent : Expr) : (powers : List (Expr × Expr)) → List Step
  | [] => []
  | (base', exponent') :: rest =>
    if base' = base then
      additionSteps table exponent' exponent
    else
      insertionSteps table base exponent rest

/-- The steps of multiplying one more power into a product. -/
def pushSteps
    (table : SymbolTable)
    (factors : Factors)
    (base exponent : Expr) : List Step :=
  match base, exponent with
  | .number value, .number count =>
    [.factor ⟨Operator.pow, value, count, .ofFloat (power value count)⟩,
      .factor ⟨Operator.mul, factors.coefficient, power value count,
        .ofFloat (factors.coefficient * power value count)⟩]
  | base, exponent => insertionSteps table base exponent factors.powers

mutual

/-- The steps of multiplying `expr ** exponent` into a product. -/
def collectionSteps
    (table : SymbolTable)
    (factors : Factors)
    (expr exponent : Expr) : List Step :=
  match expr with
  | .apply head args =>
    if head = Operator.mul then
      collectionStepsOfArgs table factors args exponent
    else
      match args with
      | [base, inner] =>
        if head = Operator.pow then
          scaleSteps table exponent inner ++
            match scaleExponent? table.construct exponent inner with
            | some combined => collectionSteps table factors base combined
            | none => []
        else
          pushSteps table factors (.apply head [base, inner]) exponent
      | args => pushSteps table factors (.apply head args) exponent
  | leaf => pushSteps table factors leaf exponent

/-- The steps of multiplying all arguments into a product. -/
def collectionStepsOfArgs
    (table : SymbolTable)
    (factors : Factors)
    (args : List Expr)
    (exponent : Expr) : List Step :=
  match args with
  | [] => []
  | arg :: rest =>
    collectionSteps table factors arg exponent ++
      match collect? table.construct factors arg exponent with
      | some extended => collectionStepsOfArgs table extended rest exponent
      | none => []

end

/-- The steps of collecting the factors of an expression. -/
def steps
    (table : SymbolTable)
    (expr : Expr) : List Step :=
  collectionSteps table one expr (.number 1)

/-- The steps of dividing one power out of a list. -/
def removalSteps
    (table : SymbolTable)
    (base exponent : Expr) : (powers : List (Expr × Expr)) → List Step
  | [] => []
  | (base', exponent') :: rest =>
    if base' = base then
      scaleSteps table exponent (.number (-1)) ++
        match scaleExponent? table.construct exponent (.number (-1)) with
        | some negated => additionSteps table exponent' negated
        | none => []
    else
      removalSteps table base exponent rest

/-- The steps of dividing several powers out of a list. -/
def removalStepsOfAll
    (table : SymbolTable)
    (powers : List (Expr × Expr)) : (divisors : List (Expr × Expr)) → List Step
  | [] => []
  | (base, exponent) :: rest =>
    removalSteps table base exponent powers ++
      match removePower? table.construct base exponent powers with
      | some remaining => removalStepsOfAll table remaining rest
      | none => []

/-- The steps of dividing factors by others. -/
def divisionSteps
    (table : SymbolTable)
    (dividend divisor : Factors) : List Step :=
  if divisor.coefficient == 0 then
    []
  else
    removalStepsOfAll table dividend.powers divisor.powers ++
      [.factor ⟨Operator.div, dividend.coefficient, divisor.coefficient,
        .ofFloat (dividend.coefficient / divisor.coefficient)⟩]

/-- The steps of writing powers as operands. -/
def operandSteps
    (table : SymbolTable) : (powers : List (Expr × Expr)) → List Step
  | [] => []
  | (base, exponent) :: rest =>
    operandSteps table rest ++
      if exponent.number?.any (· == 0) then
        []
      else if exponent.number?.any (· == 1) then
        []
      else
        (table.evaluations Operator.pow [base, exponent]).map .factor

/-- The steps of writing factors as a product. -/
def rebuildingSteps
    (table : SymbolTable)
    (factors : Factors) : List Step :=
  if !factors.coefficient.isFinite then
    []
  else if factors.coefficient == 0 then
    []
  else
    operandSteps table factors.powers ++
      match operands? table.construct factors.powers with
      | some operands =>
        (Chain.evaluations table Operator.mul
          (Expr.sortCanonically (factors.operandsWithCoefficient operands))).map .factor
      | none => []

end Factors

/-! ## Values -/

namespace Valuation

variable {F : Type*} [Field F]

mutual

/-- The value of an expression: products, quotients and powers with an integer exponent are what they say,
and anything else is a literal or a term that nothing is known of. -/
def value
    (valuation : Valuation F) : Expr → F
  | .number number => valuation.literal number
  | .apply head args =>
    if head = Operator.mul then
      valuation.product args
    else
      match args with
      | [lhs, rhs] =>
        if head = Operator.div then
          valuation.value lhs / valuation.value rhs
        else if head = Operator.pow then
          match rhs.number?.bind integer? with
          | some exponent => valuation.value lhs ^ exponent
          | none => valuation.term (.apply head [lhs, rhs])
        else
          valuation.term (.apply head [lhs, rhs])
      | args => valuation.term (.apply head args)
  | leaf => valuation.term leaf

/-- The product of the values of all arguments. -/
def product
    (valuation : Valuation F) : List Expr → F
  | [] => 1
  | arg :: rest => valuation.value arg * valuation.product rest

end

variable (valuation : Valuation F)

theorem product_eq_prod
    (args : List Expr) :
    valuation.product args = (args.map valuation.value).prod := by
  induction args with
  | nil =>
      rw [product, List.map_nil, List.prod_nil]
  | cons arg rest inductionHypothesis =>
      rw [product, inductionHypothesis, List.map_cons, List.prod_cons]

@[simp]
theorem value_number
    (number : Float) :
    valuation.value (.number number) = valuation.literal number := by
  rw [value]

@[simp]
theorem value_ofFloat
    (number : Float) :
    valuation.value (.ofFloat number) = valuation.literal number := by
  rw [Expr.ofFloat, value_number, valuation.literal_ofFloat]

@[simp]
theorem value_product
    (args : List Expr) :
    valuation.value (.apply Operator.mul args) =
      (args.map valuation.value).prod := by
  unfold value
  exact (if_pos rfl).trans (valuation.product_eq_prod args)

@[simp]
theorem value_quotient
    (lhs rhs : Expr) :
    valuation.value (.apply Operator.div [lhs, rhs]) =
      valuation.value lhs / valuation.value rhs := by
  rw [value, if_neg (by decide), if_pos rfl]

theorem value_power
    (base : Expr)
    {count : Float}
    {exponent : Int}
    (integral : integer? count = some exponent) :
    valuation.value (.apply Operator.pow [base, .number count]) =
      valuation.value base ^ exponent := by
  rw [value, if_neg (by decide), if_neg (by decide), if_pos rfl]
  simp [Expr.number?, integral]

/-! ## Exponents -/

end Valuation

/-- The operation keeps the value of the factor or the integer of the exponent. -/
def Step.Keeps
    {F : Type*}
    [Field F]
    (valuation : Valuation F) : Step → Prop
  | factor evaluation => evaluation.Keeps valuation.value
  | exponent evaluation => evaluation.Keeps Expr.exponent?

/-- A literal with an integral value. -/
def Expr.IsInteger
    (expr : Expr)
    (whole : Int) : Prop :=
  ∃ count, expr = .number count ∧ integer? count = some whole

/-- Two literals are evaluated when an operator with an evaluator is applied to them. -/
theorem SymbolTable.evaluation_of_construct
    {table : SymbolTable}
    {head result : Expr}
    {lhs rhs : Float}
    {spec : OperatorSpec}
    {evaluator : Evaluator}
    (found : table.specOf? head = some spec)
    (declared : spec.evaluator = some evaluator)
    (constructed :
      table.construct head [.number lhs, .number rhs] = .ok result) :
    result.isLeaf = true ∧
      ⟨head, lhs, rhs, result⟩ ∈
        table.evaluations head [.number lhs, .number rhs] := by
  obtain ⟨-, constructs⟩ := construct_eq_ok_iff.mp constructed
  have evaluates (name : String) :
      spec.evaluateLiterals? name [.number lhs, .number rhs] ≠ none := by
    simp [OperatorSpec.evaluateLiterals?, OperatorSpec.evaluate?, declared]
  rw [found] at constructs
  cases constructs with
  | evaluated outcome =>
      obtain ⟨lhs', rhs', sameArgs, performed⟩ :=
        SymbolTable.exists_evaluation found outcome
      cases sameArgs
      exact ⟨OperatorSpec.isLeaf_of_evaluateLiterals? outcome, performed⟩
  | absorbed unevaluated absorbs =>
      exact (evaluates _ unevaluated).elim
  | stored unevaluated unabsorbed =>
      exact (evaluates _ unevaluated).elim

section Exponents

variable {F : Type*} [Field F] {valuation : Valuation F} {table : SymbolTable}
variable {first second result : Expr} {m n : Int}

/-- An exponent that is computed is the integer that its evaluation keeps. -/
theorem Expr.isInteger_of_construct
    {op : Expr}
    {spec : OperatorSpec}
    {evaluator : Evaluator}
    (found : table.specOf? op = some spec)
    (declared : spec.evaluator = some evaluator)
    {lhs rhs : Float}
    (kept :
      ∀ step ∈
          (table.evaluations op [.number lhs, .number rhs]).map Step.exponent,
        step.Keeps valuation)
    (constructed : table.construct op [.number lhs, .number rhs] = .ok result)
    (integral :
      (Expr.apply op [.number lhs, .number rhs]).exponent? = some n) :
    result.IsInteger n := by
  obtain ⟨isLeaf, performed⟩ :=
    SymbolTable.evaluation_of_construct found declared constructed
  have same : result.exponent? = some n :=
    (kept _ (List.mem_map_of_mem performed)).trans integral
  cases result with
  | number count =>
      exact ⟨count, rfl, same⟩
  | apply head args =>
      cases isLeaf
  | _ =>
      cases same

theorem isInteger_sum
    (firstInteger : first.IsInteger m)
    (secondInteger : second.IsInteger n)
    (kept : ∀ step ∈ additionSteps table first second, step.Keeps valuation)
    (added : addExponents? table.construct first second = some result) :
    result.IsInteger (m + n) := by
  obtain ⟨lhs, rfl, lhsIntegral⟩ := firstInteger
  obtain ⟨rhs, rfl, rhsIntegral⟩ := secondInteger
  refine Expr.isInteger_of_construct table.specOf?_add rfl kept
    (eq_ok_of_toOption added) ?_
  simp [Expr.exponent?, lhsIntegral, rhsIntegral]

theorem isInteger_product
    (firstInteger : first.IsInteger m)
    (secondInteger : second.IsInteger n)
    (kept : ∀ step ∈ scaleSteps table first second, step.Keeps valuation)
    (scaled : scaleExponent? table.construct first second = some result) :
    result.IsInteger (m * n) := by
  obtain ⟨lhs, rfl, lhsIntegral⟩ := firstInteger
  obtain ⟨rhs, rfl, rhsIntegral⟩ := secondInteger
  unfold scaleExponent? at scaled
  unfold scaleSteps at kept
  split at scaled
  · rename_i isOne
    cases scaled
    cases lhsIntegral.symm.trans (integer?_of_beq_one isOne)
    exact ⟨rhs, rfl, by rw [one_mul, rhsIntegral]⟩
  · rename_i notOne
    rw [if_neg notOne] at kept
    split at scaled
    · rename_i isOne
      cases scaled
      cases rhsIntegral.symm.trans (integer?_of_beq_one isOne)
      exact ⟨lhs, rfl, by rw [mul_one, lhsIntegral]⟩
    · rename_i notOne'
      rw [if_neg notOne'] at kept
      refine Expr.isInteger_of_construct table.specOf?_mul rfl kept
        (eq_ok_of_toOption scaled) ?_
      simp [Expr.exponent?, lhsIntegral, rhsIntegral]

end Exponents

namespace Valuation

variable {F : Type*} [Field F] {valuation : Valuation F} {table : SymbolTable}

theorem value_isInteger_power
    (base : Expr)
    {exponent : Expr}
    {n : Int}
    (isInteger : exponent.IsInteger n) :
    valuation.value (.apply Operator.pow [base, exponent]) =
      valuation.value base ^ n := by
  obtain ⟨count, rfl, integral⟩ := isInteger
  exact valuation.value_power base integral

/-! ## Powers -/

/-- The value of a product of powers. -/
def powersValue
    (valuation : Valuation F)
    (powers : List (Expr × Expr)) : F :=
  (powers.map fun power =>
    valuation.value (.apply Operator.pow [power.1, power.2])).prod

@[simp]
theorem powersValue_cons
    (power : Expr × Expr)
    (powers : List (Expr × Expr)) :
    valuation.powersValue (power :: powers) =
      valuation.value (.apply Operator.pow [power.1, power.2]) *
        valuation.powersValue powers :=
  List.prod_cons

/-- The value of a coefficient and powers together. -/
def factorsValue
    (valuation : Valuation F)
    (factors : Factors) : F :=
  valuation.literal factors.coefficient * valuation.powersValue factors.powers

/-- All exponents are integers. -/
def IntegerPowers
    (powers : List (Expr × Expr)) : Prop :=
  ∀ power ∈ powers, ∃ n, power.2.IsInteger n

/-- All bases have values other than zero. -/
def NonzeroBases
    (valuation : Valuation F)
    (powers : List (Expr × Expr)) : Prop :=
  ∀ power ∈ powers, valuation.value power.1 ≠ 0

/-- What becomes of factors that the power `amount ^ n` is multiplied into. -/
structure Multiplies
    (valuation : Valuation F)
    (factors factors' : Factors)
    (amount : F)
    (n : Int) : Prop where
  integers :
    IntegerPowers factors'.powers
  value :
    valuation.factorsValue factors' =
      valuation.factorsValue factors * amount ^ n
  nonzero :
    amount ≠ 0 → valuation.NonzeroBases factors.powers →
      valuation.NonzeroBases factors'.powers

/-- What becomes of powers that the power `amount ^ n` is multiplied into. -/
structure Scales
    (valuation : Valuation F)
    (powers powers' : List (Expr × Expr))
    (amount : F)
    (n : Int) : Prop where
  integers :
    IntegerPowers powers'
  value :
    valuation.powersValue powers' = valuation.powersValue powers * amount ^ n
  nonzero :
    amount ≠ 0 → valuation.NonzeroBases powers → valuation.NonzeroBases powers'

section Scales

variable {base exponent total : Expr} {m n : Int}
variable {power : Expr × Expr} {rest rest' : List (Expr × Expr)}

/-- The exponent of the first base is changed. -/
theorem Scales.head
    (nonzero : valuation.value base ≠ 0)
    (isInteger : exponent.IsInteger m)
    (totalInteger : total.IsInteger (m + n))
    (integers : IntegerPowers rest) :
    valuation.Scales ((base, exponent) :: rest) ((base, total) :: rest)
      (valuation.value base) n where
  integers :=
    List.forall_mem_cons.mpr ⟨⟨m + n, totalInteger⟩, integers⟩
  value := by
    rw [powersValue_cons, powersValue_cons, value_isInteger_power _ totalInteger,
      value_isInteger_power _ isInteger, zpow_add₀ nonzero]
    ring
  nonzero _ nonzeroBases :=
    List.forall_mem_cons.mpr (List.forall_mem_cons.mp nonzeroBases)

/-- The first power stays as it is. -/
theorem Scales.tail
    {amount : F}
    (isInteger : power.2.IsInteger m)
    (scales : valuation.Scales rest rest' amount n) :
    valuation.Scales (power :: rest) (power :: rest') amount n where
  integers :=
    List.forall_mem_cons.mpr ⟨⟨m, isInteger⟩, scales.integers⟩
  value := by
    rw [powersValue_cons, powersValue_cons, scales.value, mul_assoc]
  nonzero nonzero nonzeroBases := by
    obtain ⟨first, later⟩ := List.forall_mem_cons.mp nonzeroBases
    exact List.forall_mem_cons.mpr ⟨first, scales.nonzero nonzero later⟩

end Scales

/-- A power is multiplied into a list, where exponents of an equal base are added. -/
theorem Scales.of_insertPower?
    {base exponent : Expr}
    {n : Int}
    {powers powers' : List (Expr × Expr)}
    (isInteger : exponent.IsInteger n)
    (integers : IntegerPowers powers)
    (nonzero : valuation.value base ≠ 0 ∨ powers = [])
    (kept :
      ∀ step ∈ Factors.insertionSteps table base exponent powers,
        step.Keeps valuation)
    (inserted :
      Factors.insertPower? table.construct base exponent powers =
        some powers') :
    valuation.Scales powers powers' (valuation.value base) n := by
  induction powers generalizing powers' with
  | nil =>
      cases inserted
      refine ⟨List.forall_mem_singleton.mpr ⟨n, isInteger⟩, ?_,
        fun baseNonzero _ => List.forall_mem_singleton.mpr baseNonzero⟩
      rw [powersValue_cons, value_isInteger_power base isInteger]
      exact mul_comm _ _
  | cons power rest inductionHypothesis =>
      have baseNonzero : valuation.value base ≠ 0 :=
        nonzero.resolve_right (List.cons_ne_nil _ _)
      obtain ⟨⟨m, isInteger'⟩, restIntegers⟩ := List.forall_mem_cons.mp integers
      unfold Factors.insertPower? at inserted
      unfold Factors.insertionSteps at kept
      split at inserted
      · rename_i same
        rw [if_pos same] at kept
        obtain ⟨total, added, rfl⟩ := Option.map_eq_some_iff.mp inserted
        subst same
        exact .head baseNonzero isInteger' (isInteger_sum isInteger' isInteger kept added)
          restIntegers
      · rename_i different
        rw [if_neg different] at kept
        obtain ⟨rest', restInserted, rfl⟩ := Option.map_eq_some_iff.mp inserted
        exact .tail isInteger'
          (inductionHypothesis restIntegers (.inl baseNonzero) kept restInserted)

/-- A power is multiplied into a product. -/
theorem Multiplies.of_push?
    {base exponent : Expr}
    {n : Int}
    {factors factors' : Factors}
    (isInteger : exponent.IsInteger n)
    (integers : IntegerPowers factors.powers)
    (nonzero : valuation.value base ≠ 0 ∨ factors.powers = [])
    (kept :
      ∀ step ∈ Factors.pushSteps table factors base exponent,
        step.Keeps valuation)
    (pushed :
      Factors.push? table.construct factors base exponent = some factors') :
    valuation.Multiplies factors factors' (valuation.value base) n := by
  have inserts
      (kept :
        ∀ step ∈ Factors.insertionSteps table base exponent factors.powers,
          step.Keeps valuation)
      (pushed :
        (Factors.insertPower? table.construct base exponent factors.powers).map
            ({ factors with powers := · }) =
          some factors') :
      valuation.Multiplies factors factors' (valuation.value base) n := by
    obtain ⟨powers, inserted, rfl⟩ := Option.map_eq_some_iff.mp pushed
    have scales := Scales.of_insertPower? isInteger integers nonzero kept inserted
    refine ⟨scales.integers, ?_, scales.nonzero⟩
    rw [factorsValue, scales.value, ← mul_assoc]
    rfl
  obtain ⟨count, rfl, integral⟩ := isInteger
  cases base with
  | number literal =>
      cases pushed
      have powerKept :
          valuation.literal (power literal count) =
            valuation.literal literal ^ n := by
        simpa [Step.Keeps, Evaluation.Keeps, valuation.value_power _ integral]
          using kept _ List.mem_cons_self
      have productKept :
          valuation.literal (factors.coefficient * power literal count) =
            valuation.literal factors.coefficient *
              valuation.literal (power literal count) := by
        simpa [Step.Keeps, Evaluation.Keeps]
          using kept _ (List.mem_cons_of_mem _ (List.mem_singleton_self _))
      refine ⟨integers, ?_, fun _ nonzeroBases => nonzeroBases⟩
      simp only [factorsValue, productKept, powerKept, value_number]
      ring
  | _ =>
      exact inserts kept pushed

/-- Several arguments are multiplied into a product. -/
theorem Multiplies.trans
    {first second third : Factors}
    {amount amount' : F}
    {n : Int}
    (former : valuation.Multiplies first second amount n)
    (latter : valuation.Multiplies second third amount' n)
    (nonzero : amount ≠ 0)
    (nonzero' : amount' ≠ 0) :
    valuation.Multiplies first third (amount * amount') n where
  integers :=
    latter.integers
  value := by
    rw [latter.value, former.value, mul_zpow, mul_assoc]
  nonzero _ nonzeroBases :=
    latter.nonzero nonzero' (former.nonzero nonzero nonzeroBases)

/-! ## Regular expressions -/

/--
Factors, denominators and bases of powers have values other than zero, and exponents are integers.
Nothing is asked of the parts of other expressions.
-/
inductive Regular
    (valuation : Valuation F) : Expr → Prop where
  | product
      {args : List Expr}
      (regular : ∀ arg ∈ args, valuation.Regular arg)
      (nonzero : ∀ arg ∈ args, valuation.value arg ≠ 0) :
      Regular valuation (.apply Operator.mul args)
  | quotient
      {numerator denominator : Expr}
      (numeratorRegular : valuation.Regular numerator)
      (denominatorRegular : valuation.Regular denominator)
      (nonzero : valuation.value denominator ≠ 0) :
      Regular valuation (.apply Operator.div [numerator, denominator])
  | power
      {base exponent : Expr}
      {n : Int}
      (isInteger : exponent.IsInteger n)
      (baseRegular : valuation.Regular base)
      (nonzero : valuation.value base ≠ 0) :
      Regular valuation (.apply Operator.pow [base, exponent])
  | other
      {expr : Expr}
      (notProduct : expr.isApplyOf Operator.mul = false)
      (notQuotient : expr.isBinaryOf Operator.div = false)
      (notPower : expr.isBinaryOf Operator.pow = false) :
      Regular valuation expr

section Atom

variable {expr : Expr}

theorem collectionSteps_eq_pushSteps
    (notProduct : expr.isApplyOf Operator.mul = false)
    (notPower : expr.isBinaryOf Operator.pow = false)
    (table : SymbolTable)
    (factors : Factors)
    (exponent : Expr) :
    Factors.collectionSteps table factors expr exponent =
      Factors.pushSteps table factors expr exponent := by
  cases expr with
  | apply head args =>
      unfold Factors.collectionSteps
      rw [if_neg (of_decide_eq_false notProduct)]
      split
      · exact if_neg (by rintro rfl; cases notPower)
      · rfl
  | _ =>
      rfl

theorem Multiplies.of_collect?_atom
    {exponent : Expr}
    {n : Int}
    {factors factors' : Factors}
    (notProduct : expr.isApplyOf Operator.mul = false)
    (notPower : expr.isBinaryOf Operator.pow = false)
    (isInteger : exponent.IsInteger n)
    (integers : IntegerPowers factors.powers)
    (nonzero : valuation.value expr ≠ 0 ∨ factors.powers = [])
    (kept :
      ∀ step ∈ Factors.collectionSteps table factors expr exponent,
        step.Keeps valuation)
    (collected :
      Factors.collect? table.construct factors expr exponent = some factors') :
    valuation.Multiplies factors factors' (valuation.value expr) n := by
  rw [Factors.collect?_eq_push? notProduct notPower] at collected
  rw [collectionSteps_eq_pushSteps notProduct notPower] at kept
  exact .of_push? isInteger integers nonzero kept collected

end Atom

/-- Collecting arguments that are not zero multiplies the power of their product. -/
theorem Multiplies.of_collectArgs?
    {args : List Expr}
    {exponent : Expr}
    {n : Int}
    {factors factors' : Factors}
    (each :
      ∀ arg ∈ args, ∀ {factors factors' : Factors},
        IntegerPowers factors.powers →
          (∀ step ∈ Factors.collectionSteps table factors arg exponent,
            step.Keeps valuation) →
            Factors.collect? table.construct factors arg exponent =
                some factors' →
              valuation.Multiplies factors factors' (valuation.value arg) n)
    (nonzero : ∀ arg ∈ args, valuation.value arg ≠ 0)
    (integers : IntegerPowers factors.powers)
    (kept :
      ∀ step ∈ Factors.collectionStepsOfArgs table factors args exponent,
        step.Keeps valuation)
    (collected :
      Factors.collectArgs? table.construct factors args exponent =
        some factors') :
    valuation.Multiplies factors factors' (args.map valuation.value).prod n := by
  induction args generalizing factors with
  | nil =>
      cases collected
      exact ⟨integers, by simp, fun _ nonzeroBases => nonzeroBases⟩
  | cons arg rest inductionHypothesis =>
      obtain ⟨argEach, restEach⟩ := List.forall_mem_cons.mp each
      obtain ⟨argNonzero, restNonzero⟩ := List.forall_mem_cons.mp nonzero
      unfold Factors.collectArgs? at collected
      unfold Factors.collectionStepsOfArgs at kept
      split at collected
      · rename_i extended argCollected
        simp only [argCollected, List.forall_mem_append] at kept
        have first := argEach integers kept.1 argCollected
        have later :=
          inductionHypothesis restEach restNonzero first.integers kept.2 collected
        refine first.trans later argNonzero (List.prod_ne_zero ?_)
        simpa using restNonzero
      · cases collected

/-- Collecting the factors of a regular expression multiplies the power of its value. -/
theorem Multiplies.of_collect?
    {expr exponent : Expr}
    {n : Int}
    {factors factors' : Factors}
    (regular : valuation.Regular expr)
    (isInteger : exponent.IsInteger n)
    (integers : IntegerPowers factors.powers)
    (nonzero : valuation.value expr ≠ 0 ∨ factors.powers = [])
    (kept :
      ∀ step ∈ Factors.collectionSteps table factors expr exponent,
        step.Keeps valuation)
    (collected :
      Factors.collect? table.construct factors expr exponent = some factors') :
    valuation.Multiplies factors factors' (valuation.value expr) n := by
  induction regular generalizing exponent n factors factors' with
  | @product args regular nonzeroArgs inductionHypothesis =>
      unfold Factors.collect? at collected
      unfold Factors.collectionSteps at kept
      rw [if_pos rfl] at collected kept
      rw [value_product]
      refine .of_collectArgs? (fun arg isArg _ _ integers kept collected => ?_)
        nonzeroArgs integers kept collected
      exact inductionHypothesis arg isArg isInteger integers
        (.inl (nonzeroArgs arg isArg)) kept collected
  | quotient numeratorRegular denominatorRegular denominatorNonzero =>
      exact .of_collect?_atom rfl rfl isInteger integers nonzero kept collected
  | @power base inner m innerInteger baseRegular baseNonzero inductionHypothesis =>
      unfold Factors.collect? at collected
      unfold Factors.collectionSteps at kept
      rw [if_neg (by decide)] at collected kept
      dsimp only at collected kept
      rw [if_pos rfl] at collected kept
      rw [List.forall_mem_append] at kept
      split at collected
      · rename_i combined scaled
        simp only [scaled] at kept
        have combinedInteger :=
          isInteger_product isInteger innerInteger kept.1 scaled
        have multiplied :=
          inductionHypothesis combinedInteger integers (.inl baseNonzero) kept.2
            collected
        rw [value_isInteger_power base innerInteger]
        refine ⟨multiplied.integers, ?_, fun _ => multiplied.nonzero baseNonzero⟩
        rw [multiplied.value, ← zpow_mul, mul_comm m n]
      · cases collected
  | other notProduct notQuotient notPower =>
      exact .of_collect?_atom notProduct notPower isInteger integers nonzero kept
        collected

/-- The factors of a regular expression have its value. -/
theorem multiplies_of?
    {expr : Expr}
    {factors : Factors}
    (regular : valuation.Regular expr)
    (kept : ∀ step ∈ Factors.steps table expr, step.Keeps valuation)
    (collected : Factors.of? table.construct expr = some factors) :
    valuation.Multiplies Factors.one factors (valuation.value expr) 1 :=
  .of_collect? regular ⟨1, rfl, integer?_of_beq_one (by decide)⟩
    (List.forall_mem_nil _) (.inr rfl) kept collected

theorem Multiplies.value_eq
    {factors : Factors}
    {amount : F}
    (multiplies : valuation.Multiplies Factors.one factors amount 1) :
    valuation.factorsValue factors = amount := by
  have unit : valuation.factorsValue Factors.one = 1 := by
    rw [factorsValue, Factors.one, valuation.one, one_mul]
    rfl
  rw [multiplies.value, unit, one_mul, zpow_one]

/-! ## Division -/

/-- A power of a base that is not zero is divided out of a list. -/
theorem Scales.of_removePower?
    {base exponent : Expr}
    {n : Int}
    {powers powers' : List (Expr × Expr)}
    (isInteger : exponent.IsInteger n)
    (nonzero : valuation.value base ≠ 0)
    (integers : IntegerPowers powers)
    (kept :
      ∀ step ∈ Factors.removalSteps table base exponent powers,
        step.Keeps valuation)
    (removed :
      Factors.removePower? table.construct base exponent powers =
        some powers') :
    valuation.Scales powers powers' (valuation.value base) (-n) := by
  induction powers generalizing powers' with
  | nil =>
      cases removed
  | cons power rest inductionHypothesis =>
      obtain ⟨⟨m, isInteger'⟩, restIntegers⟩ := List.forall_mem_cons.mp integers
      unfold Factors.removePower? at removed
      unfold Factors.removalSteps at kept
      split at removed
      · rename_i same
        rw [if_pos same, List.forall_mem_append] at kept
        obtain ⟨negated, negates, removed⟩ := Option.bind_eq_some_iff.mp removed
        obtain ⟨total, added, removed⟩ := Option.bind_eq_some_iff.mp removed
        cases removed
        subst same
        simp only [negates] at kept
        have minusOne : (Expr.number (-1)).IsInteger (-1) :=
          ⟨-1, rfl, by decide +kernel⟩
        have negatedInteger := isInteger_product isInteger minusOne kept.1 negates
        rw [mul_neg_one] at negatedInteger
        exact .head nonzero isInteger'
          (isInteger_sum isInteger' negatedInteger kept.2 added) restIntegers
      · rename_i different
        rw [if_neg different] at kept
        obtain ⟨rest', restRemoved, rfl⟩ := Option.map_eq_some_iff.mp removed
        exact .tail isInteger' (inductionHypothesis restIntegers kept restRemoved)

/-- Powers of bases that are not zero are divided out of a list. -/
theorem powersValue_removeAll
    {powers powers' divisors : List (Expr × Expr)}
    (integers : IntegerPowers powers)
    (divisorIntegers : IntegerPowers divisors)
    (nonzeroBases : valuation.NonzeroBases divisors)
    (kept :
      ∀ step ∈ Factors.removalStepsOfAll table powers divisors,
        step.Keeps valuation)
    (removed :
      divisors.foldlM
          (fun powers power =>
            Factors.removePower? table.construct power.1 power.2 powers)
          powers =
        some powers') :
    IntegerPowers powers' ∧
      valuation.powersValue powers' =
        valuation.powersValue powers / valuation.powersValue divisors := by
  induction divisors generalizing powers with
  | nil =>
      cases removed
      exact ⟨integers, (div_one _).symm⟩
  | cons power rest inductionHypothesis =>
      obtain ⟨⟨n, isInteger⟩, restIntegers⟩ := List.forall_mem_cons.mp divisorIntegers
      obtain ⟨nonzero, restNonzero⟩ := List.forall_mem_cons.mp nonzeroBases
      obtain ⟨remaining, first, later⟩ := Option.bind_eq_some_iff.mp removed
      unfold Factors.removalStepsOfAll at kept
      simp only [first, List.forall_mem_append] at kept
      have scales := Scales.of_removePower? isInteger nonzero integers kept.1 first
      obtain ⟨integers', value'⟩ :=
        inductionHypothesis scales.integers restIntegers restNonzero kept.2 later
      refine ⟨integers', ?_⟩
      rw [value', scales.value, powersValue_cons, value_isInteger_power _ isInteger,
        zpow_neg, ← div_eq_mul_inv, div_div]

/-- Factors are divided by factors whose bases are not zero. -/
theorem factorsValue_divide?
    {dividend divisor quotient : Factors}
    (integers : IntegerPowers dividend.powers)
    (divisorIntegers : IntegerPowers divisor.powers)
    (nonzeroBases : valuation.NonzeroBases divisor.powers)
    (kept :
      ∀ step ∈ Factors.divisionSteps table dividend divisor,
        step.Keeps valuation)
    (divided :
      dividend.divide? table.construct divisor = some quotient) :
    IntegerPowers quotient.powers ∧
      valuation.factorsValue quotient =
        valuation.factorsValue dividend / valuation.factorsValue divisor := by
  unfold Factors.divide? at divided
  unfold Factors.divisionSteps at kept
  split at divided
  · cases divided
  · rename_i nonzero
    rw [if_neg nonzero, List.forall_mem_append] at kept
    obtain ⟨powers, removed, divided⟩ := Option.bind_eq_some_iff.mp divided
    cases divided
    obtain ⟨integers', powersDivided⟩ :=
      powersValue_removeAll integers divisorIntegers nonzeroBases kept.1 removed
    have coefficientDivided :
        valuation.literal (dividend.coefficient / divisor.coefficient) =
          valuation.literal dividend.coefficient /
            valuation.literal divisor.coefficient := by
      simpa [Step.Keeps, Evaluation.Keeps]
        using kept.2 _ (List.mem_singleton_self _)
    refine ⟨integers', ?_⟩
    simp only [factorsValue, powersDivided, coefficientDivided]
    exact div_mul_div_comm _ _ _ _

/-! ## Rebuilding -/

theorem folds_product
    (valuation : Valuation F) :
    Folds valuation.value Operator.mul (· * ·) 1 :=
  valuation.value_product

theorem suits_product
    (table : SymbolTable) :
    table.Suits valuation.value Operator.mul :=
  valuation.folds_product.suits_product
    ((valuation.value_number 0).trans (valuation.zero (by decide))) table

theorem suits_quotient
    (table : SymbolTable) :
    table.Suits valuation.value Operator.div :=
  table.suits_of_undeclared rfl rfl rfl

theorem suits_power
    (table : SymbolTable) :
    table.Suits valuation.value Operator.pow :=
  table.suits_of_undeclared rfl rfl rfl

/-- The operands that powers are written as are worth what the powers are. -/
theorem prod_operands?
    {powers : List (Expr × Expr)}
    {operands : List Expr}
    (integers : IntegerPowers powers)
    (kept : ∀ step ∈ Factors.operandSteps table powers, step.Keeps valuation)
    (written : Factors.operands? table.construct powers = some operands) :
    (operands.map valuation.value).prod = valuation.powersValue powers := by
  induction powers generalizing operands with
  | nil =>
      cases written
      rfl
  | cons power rest inductionHypothesis =>
      obtain ⟨base, exponent⟩ := power
      obtain ⟨⟨n, isInteger⟩, restIntegers⟩ := List.forall_mem_cons.mp integers
      unfold Factors.operands? at written
      unfold Factors.operandSteps at kept
      rw [List.forall_mem_append] at kept
      obtain ⟨following, restWritten, written⟩ := Option.bind_eq_some_iff.mp written
      have restValue := inductionHypothesis restIntegers kept.1 restWritten
      rw [powersValue_cons, ← restValue]
      split at written
      · rename_i isZero
        cases written
        obtain ⟨count, rfl, integral⟩ := isInteger
        rw [valuation.value_power base (integer?_of_beq_zero isZero), zpow_zero,
          one_mul]
      · rename_i notZero
        split at written
        · rename_i isOne
          cases written
          obtain ⟨count, rfl, integral⟩ := isInteger
          rw [valuation.value_power base (integer?_of_beq_one isOne), zpow_one]
          rfl
        · rename_i notOne
          rw [if_neg notZero, if_neg notOne] at kept
          obtain ⟨operand, built, written⟩ := Option.bind_eq_some_iff.mp written
          cases written
          rw [List.map_cons, List.prod_cons,
            (suits_power table).value_construct
              (fun evaluation performed => kept.2 _ (List.mem_map_of_mem performed))
              (eq_ok_of_toOption built)]

/-- A coefficient is left out beside other operands if it is one. -/
theorem prod_operandsWithCoefficient
    (valuation : Valuation F)
    (factors : Factors)
    (operands : List Expr) :
    ((factors.operandsWithCoefficient operands).map valuation.value).prod =
      valuation.literal factors.coefficient *
        (operands.map valuation.value).prod := by
  unfold Factors.operandsWithCoefficient
  split
  · rw [List.map_append, List.prod_append, List.map_singleton,
      List.prod_singleton, value_ofFloat, mul_comm]
  · rename_i omitted
    have isOne : (factors.coefficient == 1) = true := by
      rw [Bool.or_eq_true, not_or, bne, Bool.not_eq_true', Bool.not_eq_false]
        at omitted
      exact omitted.1
    rw [eq_one_of_beq isOne, valuation.one, one_mul]

/-- The product that factors are written as is worth what the factors are. -/
theorem value_rebuild?
    {factors : Factors}
    {result : Expr}
    (integers : IntegerPowers factors.powers)
    (kept : ∀ step ∈ Factors.rebuildingSteps table factors, step.Keeps valuation)
    (rebuilt : factors.rebuild? table.construct = some result) :
    valuation.value result = valuation.factorsValue factors := by
  unfold Factors.rebuild? at rebuilt
  unfold Factors.rebuildingSteps at kept
  split at rebuilt
  · cases rebuilt
  · rename_i isFinite
    rw [if_neg isFinite] at kept
    split at rebuilt
    · rename_i isZero
      cases rebuilt
      rw [factorsValue, valuation.zero isZero, zero_mul, value_number,
        valuation.zero (by decide)]
    · rename_i notZero
      obtain ⟨operands, written, built⟩ := Option.bind_eq_some_iff.mp rebuilt
      rw [if_neg notZero, List.forall_mem_append] at kept
      simp only [written] at kept
      have chained :
          valuation.value result =
            ((Expr.sortCanonically (factors.operandsWithCoefficient operands)).map
              valuation.value).prod :=
        valuation.folds_product.value_build (suits_product table)
          (fun evaluation performed => kept.2 _ (List.mem_map_of_mem performed))
          (eq_ok_of_toOption built)
      have sorted :=
        ((Expr.sortBy_perm Expr.canonicalCompare
          (factors.operandsWithCoefficient operands)).map valuation.value).prod_eq
      rw [chained]
      refine sorted.trans ?_
      rw [prod_operandsWithCoefficient, prod_operands? integers kept.1 written]
      rfl

end Valuation

end SymbolicAlgebra
