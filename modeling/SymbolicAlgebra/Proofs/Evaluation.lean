import SymbolicAlgebra.Proofs.Stability.Term
import SymbolicAlgebra.Substitution

/-!
# Numbers for symbols

An expression of arithmetic and bitwise operators has a value once its symbols have numbers: the operands
are evaluated from left to right and then the operator is, and the first evaluation that fails is the
outcome.  Substituting the numbers builds every application anew, bottom-up, and comes to the same outcome.
-/

namespace SymbolicAlgebra

open SymbolicAlgebra.Expr

/-- The standard operators that compute a number from two numbers. -/
def arithmeticOperators : List String :=
  ["+", "-", "*", "/", "**", "&", "|", "^", "<<", ">>"]

namespace Expr

/-- Expressions of these operators, with two operands each, over symbols and numbers. -/
inductive IsArithmetic : Expr → Prop where
  | symbol
      (name : String) :
      IsArithmetic (symbol name)
  | number
      (value : Float) :
      IsArithmetic (number value)
  | node
      {name : String}
      {lhs rhs : Expr}
      (operator : name ∈ arithmeticOperators)
      (lhsArithmetic : IsArithmetic lhs)
      (rhsArithmetic : IsArithmetic rhs) :
      IsArithmetic (apply (symbol name) [lhs, rhs])

/-- The names of the symbols among the operands. -/
def inputs : Expr → List String
  | symbol name => [name]
  | apply _ [lhs, rhs] => lhs.inputs ++ rhs.inputs
  | _ => []

/-- The value under values of the symbols: both operands are evaluated first, the left one before the
right one, and then the operator computes its value from theirs. -/
def evaluate
    (values : Substitution) : Expr → Except ExprError Expr
  | symbol name => .ok ((values.find? (symbol name)).getD (symbol name))
  | apply (symbol name) [lhs, rhs] => do
    let first ← lhs.evaluate values
    let second ← rhs.evaluate values
    let outcome? :=
      (standardSpec? name).bind (·.evaluateLiterals? name [first, second])
    outcome?.getD (.ok (apply (symbol name) [first, second]))
  | expr => .ok expr

end Expr

/-! ## Operators -/

namespace Evaluator

theorem exists_number_of_finite
    {value : Float}
    {result : Expr}
    (succeeds : finite value = .ok result) :
    ∃ literal, result = .number literal := by
  unfold finite at succeeds
  split at succeeds
  · cases succeeds
    exact ⟨_, rfl⟩
  · cases succeeds

/-- Whether the evaluator computes a truth value. -/
def isComparison : Evaluator → Bool
  | less | greater | lessEqual | greaterEqual => true
  | _ => false

/-- Evaluators other than comparisons compute numbers. -/
theorem exists_number_of_evaluate
    {evaluator : Evaluator}
    (notComparison : evaluator.isComparison = false)
    {lhs rhs : Float}
    {result : Expr}
    (succeeds : evaluator.evaluate lhs rhs = .ok result) :
    ∃ literal, result = .number literal := by
  cases evaluator with
  | add | sub | mul =>
      exact exists_number_of_finite succeeds
  | div | pow =>
      simp only [evaluate] at succeeds
      split at succeeds
      · cases succeeds
      · exact exists_number_of_finite succeeds
  | bitAnd | bitOr | bitXor | shiftRight =>
      obtain ⟨first, -, succeeds⟩ := exists_of_bind_eq_ok succeeds
      obtain ⟨second, -, succeeds⟩ := exists_of_bind_eq_ok succeeds
      exact exists_number_of_finite succeeds
  | shiftLeft =>
      obtain ⟨first, -, succeeds⟩ := exists_of_bind_eq_ok succeeds
      obtain ⟨count, -, succeeds⟩ := exists_of_bind_eq_ok succeeds
      split at succeeds
      · exact exists_number_of_finite succeeds
      · cases succeeds
  | less | greater | lessEqual | greaterEqual =>
      cases notComparison

end Evaluator

/-- An arithmetic operator has an evaluator, which is no comparison. -/
theorem exists_evaluator_of_arithmetic
    {name : String}
    (operator : name ∈ arithmeticOperators) :
    ∃ spec evaluator,
      standardSpec? name = some spec ∧ spec.evaluator = some evaluator ∧
        evaluator.isComparison = false := by
  simp only [arithmeticOperators, List.mem_cons, List.not_mem_nil, or_false]
    at operator
  rcases operator with
    rfl | rfl | rfl | rfl | rfl | rfl | rfl | rfl | rfl | rfl <;>
  exact ⟨_, _, rfl, rfl, rfl⟩

theorem exists_number_of_isNumber
    {expr : Expr}
    (isNumber : expr.isNumber = true) :
    ∃ value, expr = .number value := by
  cases expr with
  | number value =>
      exact ⟨value, rfl⟩
  | _ =>
      cases isNumber

/-- An arithmetic operator computes a number from two numbers, if it does not fail. -/
theorem exists_evaluateLiterals?_arithmetic
    {name : String}
    (operator : name ∈ arithmeticOperators)
    (lhs rhs : Float) :
    ∃ spec outcome,
      standardSpec? name = some spec ∧
        spec.evaluateLiterals? name [.number lhs, .number rhs] = some outcome ∧
          ∀ {result}, outcome = .ok result → ∃ value, result = .number value := by
  obtain ⟨spec, evaluator, standard, declared, notComparison⟩ :=
    exists_evaluator_of_arithmetic operator
  cases evaluated : spec.evaluateLiterals? name [.number lhs, .number rhs] with
  | none =>
      rcases OperatorSpec.evaluateLiterals?_eq_none_iff.mp evaluated with
        noEvaluator | notLiterals
      · rw [declared] at noEvaluator
        cases noEvaluator
      · exact (notLiterals ⟨lhs, rhs, rfl⟩).elim
  | some outcome =>
      refine ⟨spec, outcome, standard, evaluated, ?_⟩
      rintro result rfl
      obtain ⟨evaluator', sameEvaluator, computed⟩ :=
        Option.map_eq_some_iff.mp evaluated
      cases declared.symm.trans sameEvaluator
      obtain ⟨first, -, succeeds⟩ :=
        exists_of_bind_eq_ok (eq_ok_of_mapError computed)
      obtain ⟨second, -, succeeds⟩ := exists_of_bind_eq_ok succeeds
      exact Evaluator.exists_number_of_evaluate notComparison succeeds

theorem SymbolTable.specOf?_standard
    (table : SymbolTable)
    {name : String}
    {spec : OperatorSpec}
    (standard : standardSpec? name = some spec) :
    table.specOf? (symbol name) = some spec := by
  simp [specOf?, spec?, lookup?, standard]

/-! ## Substitution -/

namespace Expr

variable {values : Substitution}

/-- Evaluation of an application, given the values of its operands. -/
theorem evaluate_apply
    {name : String}
    {lhs rhs first second : Expr}
    {spec : OperatorSpec}
    {outcome : Except ExprError Expr}
    (lhsEvaluated : lhs.evaluate values = .ok first)
    (rhsEvaluated : rhs.evaluate values = .ok second)
    (standard : standardSpec? name = some spec)
    (evaluated : spec.evaluateLiterals? name [first, second] = some outcome) :
    (apply (symbol name) [lhs, rhs]).evaluate values = outcome := by
  simp only [evaluate, lhsEvaluated, rhsEvaluated, ok_bind, standard,
    Option.bind_some, evaluated, Option.getD_some]

end Expr

namespace Substitution

/-- Every symbol of the expression has a number. -/
def AssignsNumbers
    (values : Substitution)
    (expr : Expr) : Prop :=
  ∀ name ∈ expr.inputs, ∃ value, values.find? (symbol name) = some (number value)

/-- No arithmetic operator is a key. -/
def SparesOperators
    (values : Substitution) : Prop :=
  ∀ name ∈ arithmeticOperators, values.find? (symbol name) = none

/-- Nothing that a literal or an application of the expression evaluates to stands for something else. -/
def KeepsValues
    (values : Substitution)
    (expr : Expr) : Prop :=
  ∀ part, expr.contains part = true → part.symbol? = none →
    ∀ value, part.evaluate values = .ok value →
      ∀ other, values.find? value = some other → other = value

variable {values : Substitution}

section

variable {head lhs rhs : Expr}

theorem AssignsNumbers.left
    (assigns : values.AssignsNumbers (.apply head [lhs, rhs])) :
    values.AssignsNumbers lhs :=
  fun name isInput => assigns name (List.mem_append_left _ isInput)

theorem AssignsNumbers.right
    (assigns : values.AssignsNumbers (.apply head [lhs, rhs])) :
    values.AssignsNumbers rhs :=
  fun name isInput => assigns name (List.mem_append_right _ isInput)

end

theorem KeepsValues.arg
    {head arg : Expr}
    {args : List Expr}
    (keeps : values.KeepsValues (.apply head args))
    (isArg : arg ∈ args) :
    values.KeepsValues arg :=
  fun part isPart =>
    keeps part (contains_apply.mpr (.inr (.inr ⟨arg, isArg, isPart⟩)))

/-- A number that stands for nothing else is visited in vain. -/
theorem replacement?_number
    {value : Float}
    (kept :
      ∀ other, values.find? (number value) = some other → other = number value) :
    values.replacement? (number value) = none ∨
      values.replacement? (number value) = some (number value) := by
  unfold replacement?
  cases found : values.find? (number value) with
  | none =>
      exact .inl rfl
  | some other =>
      rw [kept other found]
      exact .inr rfl

end Substitution

/-- An application of which an operand is replaced is built anew, and then visited. -/
theorem Expr.walk_touched
    {build : Builder}
    {visit : Expr → Except ExprError (Option Expr)}
    {head lhs rhs : Expr}
    {lhs' rhs' : Option Expr}
    (headWalked : head.walk build visit = .ok none)
    (lhsWalked : lhs.walk build visit = .ok lhs')
    (rhsWalked : rhs.walk build visit = .ok rhs')
    (touched : (lhs'.isNone && rhs'.isNone) = false) :
    (apply head [lhs, rhs]).walk build visit = (do
      let result ← build head [lhs'.getD lhs, rhs'.getD rhs]
      let replaced ← visit result
      pure (replaced <|> some result)) := by
  simp only [walk, headWalked, walkArgs_pair lhsWalked rhsWalked, touched,
    rebuild, Bool.false_eq_true, if_false, ok_bind, Option.isNone_some,
    Bool.and_false, Option.getD_none, Option.getD_some]
  cases build head [lhs'.getD lhs, rhs'.getD rhs] <;> rfl

/-- An arithmetic expression evaluates to numbers only. -/
theorem Expr.IsArithmetic.exists_number
    {values : Substitution}
    {expr result : Expr}
    (isArithmetic : expr.IsArithmetic)
    (assigns : values.AssignsNumbers expr)
    (succeeds : expr.evaluate values = .ok result) :
    ∃ value, result = .number value := by
  induction isArithmetic generalizing result with
  | symbol name =>
      obtain ⟨value, found⟩ := assigns name (by simp [inputs])
      simp only [evaluate, found, Option.getD_some] at succeeds
      cases succeeds
      exact ⟨value, rfl⟩
  | number value =>
      cases succeeds
      exact ⟨value, rfl⟩
  | node operator lhsArithmetic rhsArithmetic lhsHypothesis rhsHypothesis =>
      have whole := succeeds
      rw [evaluate] at succeeds
      obtain ⟨first, lhsEvaluated, succeeds⟩ := exists_of_bind_eq_ok succeeds
      obtain ⟨second, rhsEvaluated, -⟩ := exists_of_bind_eq_ok succeeds
      obtain ⟨lhs, rfl⟩ := lhsHypothesis assigns.left lhsEvaluated
      obtain ⟨rhs, rfl⟩ := rhsHypothesis assigns.right rhsEvaluated
      obtain ⟨spec, outcome, standard, evaluated, isNumber⟩ :=
        exists_evaluateLiterals?_arithmetic operator lhs rhs
      exact isNumber
        ((evaluate_apply lhsEvaluated rhsEvaluated standard evaluated).symm.trans
          whole)

/-- No value stands for something else if no number is a key. -/
theorem Expr.IsArithmetic.keepsValues
    {values : Substitution}
    {expr : Expr}
    (isArithmetic : expr.IsArithmetic)
    (assigns : values.AssignsNumbers expr)
    (noNumber : ∀ value, values.find? (.number value) = none) :
    values.KeepsValues expr := by
  have keptNumber {result other : Expr}
      (isNumber : ∃ value, result = .number value)
      (found : values.find? result = some other) :
      other = result := by
    obtain ⟨value, rfl⟩ := isNumber
    rw [noNumber value] at found
    cases found
  intro part isPart notSymbol value evaluated other found
  refine keptNumber ?_ found
  induction isArithmetic with
  | symbol name =>
      cases (of_decide_eq_true isPart : Expr.symbol name = part)
      cases notSymbol
  | number literal =>
      cases (of_decide_eq_true isPart : Expr.number literal = part)
      cases evaluated
      exact ⟨literal, rfl⟩
  | node operator lhsArithmetic rhsArithmetic lhsHypothesis rhsHypothesis =>
      rcases contains_apply.mp isPart with rfl | isHead | ⟨arg, isArg, inArg⟩
      · exact (IsArithmetic.node operator lhsArithmetic rhsArithmetic).exists_number
          assigns evaluated
      · cases (of_decide_eq_true isHead : Expr.symbol _ = part)
        cases notSymbol
      · rcases List.mem_pair.mp isArg with rfl | rfl
        · exact lhsHypothesis assigns.left inArg
        · exact rhsHypothesis assigns.right inArg

/-- How evaluation and the walk of a substitution end alike: with the same error, or with the same number,
where everything but a literal is replaced. -/
inductive Evaluates
    (workspace : Workspace)
    (values : Substitution)
    (expr : Expr) : Prop where
  | fails
      (error : ExprError)
      (evaluated : expr.evaluate values = .error error)
      (walked :
        expr.walk workspace.apply (fun node => pure (values.replacement? node)) =
          .error error)
  | ends
      (value : Float)
      (replaced : Option Expr)
      (evaluated : expr.evaluate values = .ok (.number value))
      (walked :
        expr.walk workspace.apply (fun node => pure (values.replacement? node)) =
          .ok replaced)
      (becomes : replaced.getD expr = .number value)
      (untouched : replaced.isNone = true → expr.isNumber = true)

section Substitution

variable {workspace : Workspace} {values : Substitution}

/-- Two numbers are evaluated when their operator is applied to them. -/
theorem Workspace.apply_numbers
    {name : String}
    {lhs rhs : Float}
    {spec : OperatorSpec}
    {outcome : Except ExprError Expr}
    (standard : standardSpec? name = some spec)
    (evaluated :
      spec.evaluateLiterals? name [.number lhs, .number rhs] = some outcome) :
    workspace.apply (.symbol name) [.number lhs, .number rhs] = outcome := by
  have constructed :
      workspace.table.construct (.symbol name) [.number lhs, .number rhs] =
        outcome := by
    simp [SymbolTable.construct, workspace.table.specOf?_standard standard,
      Expr.symbol?, evaluated]
  cases outcome with
  | error error =>
      simp only [Workspace.apply, constructed]
      rfl
  | ok result =>
      simp only [Workspace.apply, constructed, ok_bind,
        OperatorSpec.isLeaf_of_evaluateLiterals? evaluated, if_true]
      rfl

/-- The operands of a stored application are not both literals. -/
theorem SymbolTable.Stores.not_literals
    {table : SymbolTable}
    {name : String}
    {lhs rhs : Expr}
    (operator : name ∈ arithmeticOperators)
    (stores : table.Stores (.symbol name) [lhs, rhs]) :
    (lhs.isNumber && rhs.isNumber) = false := by
  obtain ⟨spec, evaluator, standard, declared, -⟩ :=
    exists_evaluator_of_arithmetic operator
  have unevaluated := stores.unevaluated (table.specOf?_standard standard)
  rw [OperatorSpec.evaluateLiterals?_eq_none_iff, declared] at unevaluated
  by_contra literals
  rw [Bool.not_eq_false, Bool.and_eq_true_iff] at literals
  obtain ⟨lhsLiteral, lhsSame⟩ := exists_number_of_isNumber literals.1
  obtain ⟨rhsLiteral, rhsSame⟩ := exists_number_of_isNumber literals.2
  rcases unevaluated with noEvaluator | notLiterals
  · cases noEvaluator
  · exact notLiterals ⟨lhsLiteral, rhsLiteral, by rw [lhsSame, rhsSame]⟩

/-- An expression evaluates if the walk replaces it by its value. -/
theorem Evaluates.replaced
    {expr : Expr}
    (value : Float)
    (evaluated : expr.evaluate values = .ok (.number value))
    (walked :
      expr.walk workspace.apply (fun node => pure (values.replacement? node)) =
        .ok (some (.number value))) :
    Evaluates workspace values expr :=
  .ends value _ evaluated walked rfl fun untouched =>
    absurd untouched Bool.false_ne_true

/-- An application of which a walk leaves the outcome of its operator evaluates. -/
theorem Evaluates.of_outcome
    {name : String}
    {lhs rhs : Expr}
    {outcome : Except ExprError Expr}
    (keeps : values.KeepsValues (.apply (.symbol name) [lhs, rhs]))
    (isNumber : ∀ {result}, outcome = .ok result → ∃ value, result = .number value)
    (evaluated :
      (Expr.apply (.symbol name) [lhs, rhs]).evaluate values = outcome)
    (walked :
      (Expr.apply (.symbol name) [lhs, rhs]).walk workspace.apply
          (fun node => pure (values.replacement? node)) =
        (do
          let result ← outcome
          let replaced ← pure (values.replacement? result)
          pure (replaced <|> some result))) :
    Evaluates workspace values (.apply (.symbol name) [lhs, rhs]) := by
  cases outcome with
  | error error =>
      exact .fails error evaluated walked
  | ok result =>
      obtain ⟨value, rfl⟩ := isNumber rfl
      have kept :=
        keeps (.apply (.symbol name) [lhs, rhs]) (contains_apply.mpr (.inl rfl)) rfl
          _ evaluated
      refine .replaced value evaluated ?_
      rcases Substitution.replacement?_number kept with unvisited | visited
      · rw [walked, ok_bind, unvisited]
        rfl
      · rw [walked, ok_bind, visited]
        rfl

/-- An application evaluates if its operands do: it is built anew of their values. -/
theorem Evaluates.node
    {name : String}
    {lhs rhs : Expr}
    (operator : name ∈ arithmeticOperators)
    (notLiterals : (lhs.isNumber && rhs.isNumber) = false)
    (spares : values.SparesOperators)
    (keeps : values.KeepsValues (.apply (.symbol name) [lhs, rhs]))
    (lhsEvaluates : Evaluates workspace values lhs)
    (rhsEvaluates : Evaluates workspace values rhs) :
    Evaluates workspace values (.apply (.symbol name) [lhs, rhs]) := by
  have operatorWalked :
      (symbol name).walk workspace.apply
          (fun node => pure (values.replacement? node)) =
        .ok none := by
    simp only [walk, Substitution.replacement?, spares name operator]
    rfl
  cases lhsEvaluates with
  | fails error evaluated walked =>
      refine .fails error ?_ ?_
      · rw [evaluate, evaluated]
        rfl
      · rw [walk, operatorWalked, walkArgs, walked]
        rfl
  | ends first lhs' lhsEvaluated lhsWalked lhsBecomes lhsUntouched =>
    cases rhsEvaluates with
    | fails error evaluated walked =>
        refine .fails error ?_ ?_
        · rw [evaluate, lhsEvaluated, evaluated]
          rfl
        · rw [walk, operatorWalked, walkArgs, lhsWalked, walkArgs, walked]
          rfl
    | ends second rhs' rhsEvaluated rhsWalked rhsBecomes rhsUntouched =>
        obtain ⟨spec, outcome, standard, outcomeEvaluated, isNumber⟩ :=
          exists_evaluateLiterals?_arithmetic operator first second
        have touched : (lhs'.isNone && rhs'.isNone) = false := by
          by_contra untouched
          rw [Bool.not_eq_false, Bool.and_eq_true_iff] at untouched
          rw [lhsUntouched untouched.1, rhsUntouched untouched.2] at notLiterals
          cases notLiterals
        have walked :=
          walk_touched operatorWalked lhsWalked rhsWalked touched
        rw [lhsBecomes, rhsBecomes,
          Workspace.apply_numbers standard outcomeEvaluated] at walked
        exact .of_outcome keeps isNumber
          (evaluate_apply lhsEvaluated rhsEvaluated standard outcomeEvaluated) walked

/-- The part does not apply anything to two literals. -/
def Expr.IsUnevaluated
    (part : Expr) : Prop :=
  ∀ head lhs rhs, part = apply head [lhs, rhs] → (lhs.isNumber && rhs.isNumber) = false

/-- No arithmetic operator is applied to two literals in a stable expression. -/
theorem Expr.IsArithmetic.everywhere_isUnevaluated
    {expr : Expr}
    (isArithmetic : expr.IsArithmetic)
    (stable : expr.StableIn workspace.table) :
    expr.Everywhere IsUnevaluated := by
  induction isArithmetic with
  | symbol name | number value =>
      exact .of_isLeaf rfl nofun
  | @node name lhs rhs operator lhsArithmetic rhsArithmetic lhsHypothesis rhsHypothesis =>
      obtain ⟨stores, -, argsStable⟩ := StableIn.apply_iff.mp stable
      refine Everywhere.apply_iff.mpr ⟨?_, .of_isLeaf rfl nofun, ?_⟩
      · intro head lhs rhs same
        cases same
        exact stores.not_literals operator
      · intro arg isArg
        rcases List.mem_pair.mp isArg with rfl | rfl
        · exact lhsHypothesis (argsStable arg isArg)
        · exact rhsHypothesis (argsStable arg isArg)

/-- An arithmetic expression without operators of two literals evaluates as the walk of its substitution ends. -/
theorem Expr.IsArithmetic.evaluates_of_unevaluated
    {expr : Expr}
    (isArithmetic : expr.IsArithmetic)
    (unevaluated : expr.Everywhere IsUnevaluated)
    (assigns : values.AssignsNumbers expr)
    (spares : values.SparesOperators)
    (keeps : values.KeepsValues expr) :
    Evaluates workspace values expr := by
  induction isArithmetic with
  | symbol name =>
      obtain ⟨value, found⟩ := assigns name (by simp [inputs])
      refine .replaced value ?_ ?_
      · simp [evaluate, found]
      · simp [walk, Substitution.replacement?, found, wildcard?]
        rfl
  | number value =>
      have kept := keeps (.number value) (by simp [contains]) rfl _ rfl
      rcases Substitution.replacement?_number kept with unvisited | visited
      · refine .ends value none rfl ?_ rfl fun _ => rfl
        simp only [walk, unvisited]
        rfl
      · refine .replaced value rfl ?_
        simp only [walk, visited]
        rfl
  | @node name lhs rhs operator lhsArithmetic rhsArithmetic lhsHypothesis rhsHypothesis =>
      obtain ⟨notLiterals, -, argsUnevaluated⟩ := Everywhere.apply_iff.mp unevaluated
      exact .node operator (notLiterals _ lhs rhs rfl) spares keeps
        (lhsHypothesis (argsUnevaluated lhs (by simp)) assigns.left (keeps.arg (by simp)))
        (rhsHypothesis (argsUnevaluated rhs (by simp)) assigns.right
          (keeps.arg (by simp)))

/-- A stable arithmetic expression evaluates as the walk of its substitution ends. -/
theorem Expr.IsArithmetic.evaluates
    {expr : Expr}
    (isArithmetic : expr.IsArithmetic)
    (stable : expr.StableIn workspace.table)
    (assigns : values.AssignsNumbers expr)
    (spares : values.SparesOperators)
    (keeps : values.KeepsValues expr) :
    Evaluates workspace values expr :=
  isArithmetic.evaluates_of_unevaluated
    (isArithmetic.everywhere_isUnevaluated stable) assigns spares keeps

/-- The walk of a substitution ends with the value if the expression evaluates. -/
theorem Evaluates.substitute_eq
    {expr result : Expr}
    (evaluates : Evaluates workspace values expr)
    (evaluated : expr.evaluate values = .ok result) :
    workspace.substitute values expr = .ok result := by
  cases evaluates with
  | fails error failed walked =>
      cases failed.symm.trans evaluated
  | ends value replaced ends walked becomes untouched =>
      cases ends.symm.trans evaluated
      rw [Workspace.substitute, walked, ok_bind, becomes]
      rfl

end Substitution

/--
Substituting numbers for the symbols of a stable arithmetic expression is evaluation, operand by operand
and operator by operator: it gives the same number, or the error of the first evaluation that fails,
provided that no operator is a key and no value that comes about stands for something else.
-/
theorem Workspace.substitute_eq_evaluate
    {workspace : Workspace}
    {values : Substitution}
    {expr : Expr}
    (isArithmetic : expr.IsArithmetic)
    (stable : expr.StableIn workspace.table)
    (assigns : values.AssignsNumbers expr)
    (spares : values.SparesOperators)
    (keeps : values.KeepsValues expr) :
    workspace.substitute values expr = expr.evaluate values ∧
      ∀ {result}, expr.evaluate values = .ok result →
        ∃ value, result = .number value := by
  cases isArithmetic.evaluates stable assigns spares keeps with
  | fails error evaluated walked =>
      rw [substitute, walked, evaluated]
      exact ⟨rfl, nofun⟩
  | ends value replaced evaluated walked becomes =>
      rw [substitute, walked, evaluated, ok_bind, becomes]
      exact ⟨rfl, fun same => ⟨value, by cases same; rfl⟩⟩

theorem Expr.StableIn.of_lookup?
    {table : SymbolTable}
    {name : String}
    (inUse : (table.lookup? name).isSome = true) :
    (symbol name).StableIn table :=
  Everywhere.of_isLeaf rfl inUse

/-- What is built of two stable operands is stable. -/
theorem Expr.StableIn.of_construct
    {table : SymbolTable}
    {name : String}
    {lhs rhs result : Expr}
    (constructed : table.construct (symbol name) [lhs, rhs] = .ok result)
    (inUse : (table.lookup? name).isSome = true)
    (lhsStable : lhs.StableIn table)
    (rhsStable : rhs.StableIn table) :
    result.StableIn table := by
  refine (closedUnderBuilding table).built (of_lookup? inUse) ?_ constructed
  simpa using ⟨lhsStable, rhsStable⟩

/-- The quotient `(x + y) / x` where `x` is two and `y` is three. -/
theorem Workspace.substitute_eq_evaluate_quotient :
    let workspace : Workspace := { table := ⟨[("x", none), ("y", none)]⟩ }
    let x := Expr.symbol "x"
    let y := Expr.symbol "y"
    let values : Substitution := ⟨[(x, .number 2), (y, .number 3)]⟩
    let sum := Expr.apply Operator.add [x, y]
    let expr := Expr.apply Operator.div [sum, x]
    expr.IsArithmetic ∧ expr.StableIn workspace.table ∧
      values.AssignsNumbers expr ∧ values.SparesOperators ∧
      values.KeepsValues expr ∧ expr.evaluate values = .ok (.number 2.5) ∧
      workspace.substitute values expr = expr.evaluate values := by
  intro workspace x y values sum expr
  have isArithmetic : expr.IsArithmetic :=
    .node (by decide) (.node (by decide) (.symbol "x") (.symbol "y")) (.symbol "x")
  have sumBuilt : workspace.table.construct Operator.add [x, y] = .ok sum := by
    decide +kernel
  have exprBuilt : workspace.table.construct Operator.div [sum, x] = .ok expr := by
    decide +kernel
  have stable : expr.StableIn workspace.table :=
    .of_construct exprBuilt rfl
      (.of_construct sumBuilt rfl (.of_lookup? rfl) (.of_lookup? rfl))
      (.of_lookup? rfl)
  have assigns : values.AssignsNumbers expr := by
    have inputs : expr.inputs = ["x", "y", "x"] := rfl
    simp only [Substitution.AssignsNumbers, inputs, List.forall_mem_cons]
    exact ⟨⟨2, rfl⟩, ⟨3, rfl⟩, ⟨2, rfl⟩, nofun⟩
  have spares : values.SparesOperators := by
    unfold Substitution.SparesOperators
    decide +kernel
  have keeps : values.KeepsValues expr :=
    isArithmetic.keepsValues assigns fun value => rfl
  exact ⟨isArithmetic, stable, assigns, spares, keeps, by decide +kernel,
    (substitute_eq_evaluate isArithmetic stable assigns spares keeps).1⟩

/-- The sum of one and two is three, which stands for seven. -/
theorem Workspace.substitute_ne_evaluate :
    ¬∀ (workspace : Workspace)
        (values : Substitution)
        (expr : Expr),
      expr.IsArithmetic → expr.StableIn workspace.table →
        values.AssignsNumbers expr → values.SparesOperators →
          workspace.substitute values expr = expr.evaluate values := by
  intro evaluates
  let workspace : Workspace := { table := ⟨[("x", none), ("y", none)]⟩ }
  let x := Expr.symbol "x"
  let y := Expr.symbol "y"
  let values : Substitution :=
    ⟨[(x, .number 1), (y, .number 2), (.number 3, .number 7)]⟩
  let sum := Expr.apply Operator.add [x, y]
  have sumBuilt : workspace.table.construct Operator.add [x, y] = .ok sum := by
    decide +kernel
  have assigns : values.AssignsNumbers sum := by
    have inputs : sum.inputs = ["x", "y"] := rfl
    simp only [Substitution.AssignsNumbers, inputs, List.forall_mem_cons]
    exact ⟨⟨1, rfl⟩, ⟨2, rfl⟩, nofun⟩
  have spares : values.SparesOperators := by
    unfold Substitution.SparesOperators
    decide +kernel
  have substituted : workspace.substitute values sum = .ok (.number 7) := by
    decide +kernel
  have evaluated : sum.evaluate values = .ok (.number 3) := by
    decide +kernel
  have same :=
    evaluates workspace values sum (.node (by decide) (.symbol "x") (.symbol "y"))
      (.of_construct sumBuilt rfl (.of_lookup? rfl) (.of_lookup? rfl))
      assigns spares
  rw [substituted, evaluated] at same
  exact absurd same (by decide +kernel)

end SymbolicAlgebra
