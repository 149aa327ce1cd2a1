import SymbolicAlgebra.Construction

/-!
# What a raw term can be

A raw term is the value of two literals, an absorbing argument, or the application itself, with its
arguments in order if the head is commutative.
-/

namespace SymbolicAlgebra

theorem eq_ok_of_mapError
    {ε ε' α : Type}
    {outcome : Except ε α}
    {translate : ε → ε'}
    {value : α}
    (succeeds : outcome.mapError translate = .ok value) :
    outcome = .ok value := by
  cases outcome with
  | error failure =>
      cases succeeds
  | ok other =>
      cases succeeds
      rfl

/-- A finite literal or a truth value. -/
inductive Expr.IsValue : Expr → Prop where
  | number
      {value : Float}
      (isFinite : value.isFinite = true) :
      IsValue (number value)
  | boolean
      (value : Bool) :
      IsValue (boolean value)

theorem Expr.IsValue.isLeaf
    {expr : Expr}
    (isValue : expr.IsValue) :
    expr.isLeaf = true := by
  cases isValue <;> rfl

/-- The literal of a finite float is a value. -/
theorem Expr.isValue_ofFloat
    {value : Float}
    (isFinite : value.isFinite = true) :
    (ofFloat value).IsValue := by
  unfold ofFloat
  split
  · exact .number (by decide)
  · exact .number isFinite

namespace Evaluator

theorem isValue_of_bind
    {α : Type}
    {operand : Except EvalFailure α}
    {next : α → Except EvalFailure Expr}
    (each :
      ∀ {value result}, next value = .ok result → result.IsValue)
    {result : Expr}
    (succeeds : operand >>= next = .ok result) :
    result.IsValue := by
  cases operand with
  | error failure =>
      cases succeeds
  | ok value =>
      exact each succeeds

theorem isValue_of_finite
    {value : Float}
    {result : Expr}
    (succeeds : finite value = .ok result) :
    result.IsValue := by
  unfold finite at succeeds
  split at succeeds
  · rename_i isFinite
    cases succeeds
    exact Expr.isValue_ofFloat isFinite
  · cases succeeds

/-- An operator makes a finite literal or a truth value of two literals. -/
theorem isValue_of_evaluate
    {evaluator : Evaluator}
    {lhs rhs : Float}
    {result : Expr}
    (succeeds : evaluator.evaluate lhs rhs = .ok result) :
    result.IsValue := by
  cases evaluator with
  | add | sub | mul =>
      exact isValue_of_finite succeeds
  | div | pow =>
      simp only [evaluate] at succeeds
      split at succeeds
      · cases succeeds
      · exact isValue_of_finite succeeds
  | bitAnd | bitOr | bitXor =>
      exact isValue_of_bind (isValue_of_bind isValue_of_finite) succeeds
  | shiftLeft =>
      refine isValue_of_bind (isValue_of_bind ?_) succeeds
      intro count result succeeds
      split at succeeds
      · exact isValue_of_finite succeeds
      · cases succeeds
  | shiftRight =>
      exact isValue_of_bind (isValue_of_bind isValue_of_finite) succeeds
  | less | greater | lessEqual | greaterEqual =>
      cases succeeds
      exact .boolean _

end Evaluator

namespace Expr

theorem sortBy_pair
    {order : Expr → Expr → Ordering}
    {first second : Expr}
    (inOrder : order second first ≠ .lt) :
    sortBy order [first, second] = [first, second] := by
  simp [sortBy, insertDescending, inOrder]

theorem sortBy_pair_swap
    {order : Expr → Expr → Ordering}
    {first second : Expr}
    (outOfOrder : order second first = .lt) :
    sortBy order [first, second] = [second, first] := by
  simp [sortBy, insertDescending, outOfOrder]

theorem sortBy_pair_cases
    (order : Expr → Expr → Ordering)
    (first second : Expr) :
    sortBy order [first, second] = [first, second] ∨
      sortBy order [first, second] = [second, first] := by
  by_cases outOfOrder : order second first = .lt
  · exact .inr (sortBy_pair_swap outOfOrder)
  · exact .inl (sortBy_pair outOfOrder)

end Expr

namespace OperatorSpec

/-- What two literals are evaluated to is a value. -/
theorem isValue_of_evaluateLiterals?
    {spec : OperatorSpec}
    {name : String}
    {args : List Expr}
    {result : Expr}
    (evaluated : spec.evaluateLiterals? name args = some (.ok result)) :
    result.IsValue := by
  unfold evaluateLiterals? at evaluated
  split at evaluated
  · obtain ⟨evaluator, -, computed⟩ := Option.map_eq_some_iff.mp evaluated
    have succeeds := eq_ok_of_mapError computed
    exact Evaluator.isValue_of_bind
      (Evaluator.isValue_of_bind Evaluator.isValue_of_evaluate) succeeds
  · cases evaluated

theorem isLeaf_of_evaluateLiterals?
    {spec : OperatorSpec}
    {name : String}
    {args : List Expr}
    {result : Expr}
    (evaluated : spec.evaluateLiterals? name args = some (.ok result)) :
    result.isLeaf = true :=
  (isValue_of_evaluateLiterals? evaluated).isLeaf

/-- Nothing is evaluated unless the arguments are two literal numbers. -/
theorem evaluateLiterals?_eq_none
    (spec : OperatorSpec)
    (name : String)
    {args : List Expr}
    (notLiterals : ¬∃ lhs rhs, args = [.number lhs, .number rhs]) :
    spec.evaluateLiterals? name args = none := by
  unfold evaluateLiterals?
  split
  · rename_i lhs rhs
    exact (notLiterals ⟨lhs, rhs, rfl⟩).elim
  · rfl

/-- Nothing is evaluated unless both operands are literals. -/
theorem evaluateLiterals?_pair
    (spec : OperatorSpec)
    (name : String)
    {lhs rhs : Expr}
    (notLiterals : (lhs.isNumber && rhs.isNumber) = false) :
    spec.evaluateLiterals? name [lhs, rhs] = none := by
  apply spec.evaluateLiterals?_eq_none
  rintro ⟨first, second, same⟩
  cases same
  cases notLiterals

/-- Nothing is evaluated if there is no evaluator, or if the arguments are no two literals. -/
theorem evaluateLiterals?_eq_none_iff
    {spec : OperatorSpec}
    {name : String}
    {args : List Expr} :
    spec.evaluateLiterals? name args = none ↔
      spec.evaluator = none ∨ ¬∃ lhs rhs, args = [.number lhs, .number rhs] := by
  constructor
  · intro unevaluated
    by_cases literals : ∃ lhs rhs, args = [.number lhs, .number rhs]
    · obtain ⟨lhs, rhs, rfl⟩ := literals
      exact .inl (Option.map_eq_none_iff.mp unevaluated)
    · exact .inr literals
  · rintro (noEvaluator | notLiterals)
    · unfold evaluateLiterals?
      split
      · exact Option.map_eq_none_iff.mpr noEvaluator
      · rfl
    · exact evaluateLiterals?_eq_none spec name notLiterals

theorem absorbed?_pair_eq_none
    {spec : OperatorSpec}
    {lhs rhs : Expr}
    (lhsUnabsorbed : spec.zero ≠ some lhs)
    (rhsUnabsorbed : spec.zero ≠ some rhs) :
    spec.absorbed? [lhs, rhs] = none := by
  rw [absorbed?, Option.filter_eq_none_iff]
  intro zero declared contained
  have member := List.contains_iff_mem.mp contained
  simp only [List.mem_cons, List.not_mem_nil, or_false] at member
  rcases member with rfl | rfl
  · exact lhsUnabsorbed declared
  · exact rhsUnabsorbed declared

/-- The arguments as an application stores them. -/
def ordered
    (spec : OperatorSpec)
    (head : Expr)
    (args : List Expr) : List Expr :=
  if spec.commutative then
    Expr.sortBy (Expr.operandCompare head) args
  else
    args

/-- An application stores its own arguments. -/
theorem ordered_perm
    (spec : OperatorSpec)
    (head : Expr)
    (args : List Expr) :
    (spec.ordered head args).Perm args := by
  unfold ordered
  split
  · exact Expr.sortBy_perm _ _
  · exact .refl _

/-- Two operands are stored as they are or the other way round. -/
theorem ordered_pair
    (spec : OperatorSpec)
    (head first second : Expr) :
    spec.ordered head [first, second] = [first, second] ∨
      spec.ordered head [first, second] = [second, first] := by
  unfold ordered
  split
  · exact Expr.sortBy_pair_cases _ first second
  · exact .inl rfl

end OperatorSpec

/-- The ways in which a head with the given properties and its arguments become a raw term. -/
inductive Constructs
    (head : Expr)
    (args : List Expr) : Option OperatorSpec → Expr → Prop where
  | plain :
      Constructs head args none (.apply head args)
  | evaluated
      {spec : OperatorSpec}
      {result : Expr}
      (outcome :
        spec.evaluateLiterals? (head.symbol?.getD "") args =
          some (.ok result)) :
      Constructs head args (some spec) result
  | absorbed
      {spec : OperatorSpec}
      {zero : Expr}
      (unevaluated :
        spec.evaluateLiterals? (head.symbol?.getD "") args = none)
      (absorbs : spec.absorbed? args = some zero) :
      Constructs head args (some spec) zero
  | stored
      {spec : OperatorSpec}
      (unevaluated :
        spec.evaluateLiterals? (head.symbol?.getD "") args = none)
      (unabsorbed : spec.absorbed? args = none) :
      Constructs head args (some spec) (.apply head (spec.ordered head args))

/-- A raw term exists for arguments only, and comes about in one of these ways. -/
theorem construct_eq_ok_iff
    {table : SymbolTable}
    {head result : Expr}
    {args : List Expr} :
    table.construct head args = .ok result ↔
      args ≠ [] ∧ Constructs head args (table.specOf? head) result := by
  unfold SymbolTable.construct
  constructor
  · intro constructed
    split at constructed
    · cases constructed
    · rename_i nonempty
      refine ⟨by simpa using nonempty, ?_⟩
      split at constructed
      · rename_i noSpec
        cases constructed
        rw [noSpec]
        exact .plain
      · rename_i spec found
        rw [found]
        split at constructed
        · rename_i outcome evaluated
          subst constructed
          exact .evaluated evaluated
        · rename_i unevaluated
          split at constructed
          · rename_i zero absorbs
            cases constructed
            exact .absorbed unevaluated absorbs
          · rename_i unabsorbed
            have stored : Constructs head args (some spec) _ :=
              .stored unevaluated unabsorbed
            unfold OperatorSpec.ordered at stored
            split at constructed
            · rename_i commutative
              cases constructed
              rw [if_pos commutative] at stored
              exact stored
            · rename_i notCommutative
              cases constructed
              rw [if_neg notCommutative] at stored
              exact stored
  · rintro ⟨nonempty, constructs⟩
    rw [if_neg (by simpa using nonempty)]
    generalize table.specOf? head = spec? at constructs ⊢
    cases constructs with
    | plain =>
        rfl
    | evaluated outcome =>
        simp only [outcome]
    | absorbed unevaluated absorbs =>
        simp only [unevaluated, absorbs]
    | stored unevaluated unabsorbed =>
        simp only [unevaluated, unabsorbed, OperatorSpec.ordered]
        split <;> rfl

section Building

variable {table : SymbolTable}

/-- Two literals are replaced by their value. -/
theorem construct_evaluated
    {head result : Expr}
    {args : List Expr}
    {spec : OperatorSpec}
    (found : table.specOf? head = some spec)
    (nonempty : args ≠ [])
    (outcome :
      spec.evaluateLiterals? (head.symbol?.getD "") args = some (.ok result)) :
    table.construct head args = .ok result := by
  rw [construct_eq_ok_iff, found]
  exact ⟨nonempty, .evaluated outcome⟩

/-- What is neither evaluated nor absorbed is stored. -/
theorem construct_stored
    {head : Expr}
    {args : List Expr}
    {spec : OperatorSpec}
    (found : table.specOf? head = some spec)
    (nonempty : args ≠ [])
    (unevaluated :
      spec.evaluateLiterals? (head.symbol?.getD "") args = none)
    (unabsorbed : spec.absorbed? args = none) :
    table.construct head args =
      .ok (.apply head (spec.ordered head args)) := by
  rw [construct_eq_ok_iff, found]
  exact ⟨nonempty, .stored unevaluated unabsorbed⟩

end Building

/-- An application is stored with the arguments that it was built from. -/
theorem perm_of_construct
    {table : SymbolTable}
    {head head' : Expr}
    {args args' : List Expr}
    (zeroLeaf :
      ∀ {spec zero},
        table.specOf? head = some spec → spec.zero = some zero →
          zero.isLeaf = true)
    (constructed : table.construct head args = .ok (.apply head' args')) :
    head' = head ∧ args'.Perm args := by
  obtain ⟨-, constructs⟩ := construct_eq_ok_iff.mp constructed
  generalize found : table.specOf? head = spec? at constructs
  generalize built : Expr.apply head' args' = result at constructs
  cases constructs with
  | plain =>
      cases built
      exact ⟨rfl, .refl _⟩
  | evaluated outcome =>
      subst built
      cases OperatorSpec.isLeaf_of_evaluateLiterals? outcome
  | absorbed unevaluated absorbs =>
      subst built
      obtain ⟨declared, -⟩ := Option.filter_eq_some_iff.mp absorbs
      cases zeroLeaf found declared
  | stored unevaluated unabsorbed =>
      cases built
      exact ⟨rfl, OperatorSpec.ordered_perm _ _ _⟩

end SymbolicAlgebra
