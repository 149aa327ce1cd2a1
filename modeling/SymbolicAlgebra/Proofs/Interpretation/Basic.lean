import SymbolicAlgebra.Chain
import SymbolicAlgebra.Proofs.Construction
import SymbolicAlgebra.Proofs.Expr.Structure
import SymbolicAlgebra.Proofs.Simplification

/-!
# Interpretations

An interpretation gives every expression a value, and the value of an application depends on nothing
but its head and the values of its arguments.  It obeys an operator's properties if what the operator
declares is true of the values.  Building a raw term, flattening a chain and building one anew then
keep values, as long as the evaluations that they perform are true of the values as well.
-/

namespace SymbolicAlgebra

/-- Values for leaves, and what heads make of the values of their arguments. -/
structure Interpretation (Carrier : Type*) where
  leaf : Expr → Carrier
  apply : Expr → List Carrier → Carrier

/-- One use of an operator's evaluator: two literals and what they are replaced by. -/
structure Evaluation where
  head : Expr
  lhs : Float
  rhs : Float
  result : Expr
deriving DecidableEq

/-- The evaluation that building `head(args)` performs, if there is one and it succeeds. -/
def SymbolTable.evaluations
    (table : SymbolTable)
    (head : Expr)
    (args : List Expr) : List Evaluation :=
  match args, table.specOf? head with
  | [.number lhs, .number rhs], some spec =>
    match spec.evaluate? (head.symbol?.getD "") lhs rhs with
    | some (.ok result) => [⟨head, lhs, rhs, result⟩]
    | _ => []
  | _, _ => []

/-- The evaluations that building a chain performs. -/
def Chain.evaluations
    (table : SymbolTable)
    (op : Expr) : List Expr → List Evaluation
  | operand :: next :: rest =>
    evaluations table op (next :: rest) ++
      match build table.construct op (next :: rest) with
      | .ok chain => table.evaluations op [operand, chain]
      | .error _ => []
  | _ => []

/-- A successful evaluation is the one that building performs. -/
theorem SymbolTable.exists_evaluation
    {table : SymbolTable}
    {head result : Expr}
    {spec : OperatorSpec}
    {args : List Expr}
    (found : table.specOf? head = some spec)
    (outcome :
      spec.evaluateLiterals? (head.symbol?.getD "") args = some (.ok result)) :
    ∃ lhs rhs,
      args = [.number lhs, .number rhs] ∧
        ⟨head, lhs, rhs, result⟩ ∈ table.evaluations head args := by
  unfold OperatorSpec.evaluateLiterals? at outcome
  split at outcome
  · rename_i lhs rhs
    refine ⟨lhs, rhs, rfl, ?_⟩
    simp [evaluations, found, outcome]
  · cases outcome

/-- Every application in the expression, heads included, has an argument. -/
inductive Expr.WellFormed : Expr → Prop where
  | leaf
      {expr : Expr}
      (isLeaf : expr.isLeaf = true) :
      WellFormed expr
  | apply
      {head : Expr}
      {args : List Expr}
      (nonempty : args ≠ [])
      (headFormed : WellFormed head)
      (argsFormed : ∀ arg ∈ args, WellFormed arg) :
      WellFormed (.apply head args)

namespace Interpretation

variable {Carrier : Type*}

mutual

/-- The value of an expression. -/
def value
    (interpretation : Interpretation Carrier) : Expr → Carrier
  | .apply head args => interpretation.apply head (interpretation.values args)
  | leaf => interpretation.leaf leaf

/-- The values of all arguments. -/
def values
    (interpretation : Interpretation Carrier) : List Expr → List Carrier
  | [] => []
  | arg :: rest => interpretation.value arg :: interpretation.values rest

end

@[simp] theorem value_apply
    (interpretation : Interpretation Carrier)
    (head : Expr)
    (args : List Expr) :
    interpretation.value (.apply head args) =
      interpretation.apply head (args.map interpretation.value) := by
  have each : interpretation.values args = args.map interpretation.value := by
    induction args with
    | nil =>
        rfl
    | cons arg rest inductionHypothesis =>
        rw [values, inductionHypothesis, List.map_cons]
  rw [value, each]

/-- What an operator with the given properties declares is true of all values. -/
structure Obeys
    (interpretation : Interpretation Carrier)
    (head : Expr)
    (spec : OperatorSpec) : Prop where
  commutative :
    spec.commutative = true → ∀ {values values'},
      values.Perm values' →
        interpretation.apply head values = interpretation.apply head values'
  associative :
    spec.associative = true → ∃ operation : Carrier → Carrier → Carrier,
      (∀ first second third,
        operation (operation first second) third =
          operation first (operation second third)) ∧
      ∀ values last,
        interpretation.apply head (values ++ [last]) =
          values.foldr operation last
  leftIdentity :
    ∀ {neutral}, spec.effectiveLeftIdentity = some neutral → ∀ value,
      interpretation.apply head [interpretation.value neutral, value] = value
  rightIdentity :
    ∀ {neutral}, spec.effectiveRightIdentity = some neutral → ∀ value,
      interpretation.apply head [value, interpretation.value neutral] = value
  zero :
    ∀ {zero}, spec.zero = some zero → ∀ {values},
      interpretation.value zero ∈ values →
        interpretation.apply head values = interpretation.value zero

/-- The interpretation obeys the properties of every operator of the table. -/
def Models
    (interpretation : Interpretation Carrier)
    (table : SymbolTable) : Prop :=
  ∀ {head spec},
    table.specOf? head = some spec → interpretation.Obeys head spec

/-- An evaluation is true of the values. -/
def Respects
    (interpretation : Interpretation Carrier)
    (evaluation : Evaluation) : Prop :=
  interpretation.apply evaluation.head
      [interpretation.value (.number evaluation.lhs),
        interpretation.value (.number evaluation.rhs)] =
    interpretation.value evaluation.result

instance
    [DecidableEq Carrier]
    (interpretation : Interpretation Carrier)
    (evaluation : Evaluation) :
    Decidable (interpretation.Respects evaluation) :=
  inferInstanceAs (Decidable (_ = _))

variable {interpretation : Interpretation Carrier} {table : SymbolTable}

/-- A raw term has the value of the application that it stands for. -/
theorem value_construct
    (models : interpretation.Models table)
    {head result : Expr}
    {args : List Expr}
    (respected :
      ∀ evaluation ∈ table.evaluations head args,
        interpretation.Respects evaluation)
    (constructed : table.construct head args = .ok result) :
    interpretation.value result =
      interpretation.apply head (args.map interpretation.value) := by
  obtain ⟨-, constructs⟩ := construct_eq_ok_iff.mp constructed
  generalize found : table.specOf? head = spec? at constructs
  cases constructs with
  | plain =>
      exact interpretation.value_apply head args
  | evaluated outcome =>
      obtain ⟨lhs, rhs, rfl, performed⟩ :=
        SymbolTable.exists_evaluation found outcome
      exact (respected _ performed).symm
  | absorbed unevaluated absorbs =>
      obtain ⟨declared, member⟩ := Option.filter_eq_some_iff.mp absorbs
      refine ((models found).zero declared ?_).symm
      exact List.mem_map_of_mem (List.contains_iff_mem.mp member)
  | @stored spec unevaluated unabsorbed =>
      rw [value_apply, OperatorSpec.ordered]
      split
      · rename_i commutative
        exact (models found).commutative commutative
          ((Expr.sortBy_perm _ args).map interpretation.value)
      · rfl

/-! ## Associative operators -/

section Associative

variable {op : Expr} {spec : OperatorSpec}

/-- One argument stands for itself. -/
theorem Obeys.apply_singleton
    (obeys : interpretation.Obeys op spec)
    (associative : spec.associative = true)
    (value : Carrier) :
    interpretation.apply op [value] = value := by
  obtain ⟨operation, -, folds⟩ := obeys.associative associative
  exact folds [] value

/-- Some of the first arguments can be combined beforehand. -/
theorem Obeys.apply_cons_apply
    (obeys : interpretation.Obeys op spec)
    (associative : spec.associative = true)
    {values : List Carrier}
    (nonempty : values ≠ [])
    (later : List Carrier) :
    interpretation.apply op (interpretation.apply op values :: later) =
      interpretation.apply op (values ++ later) := by
  obtain ⟨operation, assoc, folds⟩ := obeys.associative associative
  have regroup (front : List Carrier) (last rest : Carrier) :
      operation (front.foldr operation last) rest =
        front.foldr operation (operation last rest) := by
    induction front with
    | nil =>
        rfl
    | cons first others inductionHypothesis =>
        simp only [List.foldr_cons, assoc, inductionHypothesis]
  obtain ⟨front, last, rfl⟩ :=
    (List.eq_nil_or_concat' values).resolve_left nonempty
  rcases List.eq_nil_or_concat' later with rfl | ⟨front', last', rfl⟩
  · rw [List.append_nil]
    exact folds [] _
  · rw [folds, ← List.cons_append, folds, ← List.append_assoc, folds,
      List.foldr_cons, regroup, List.append_assoc, List.foldr_append]
    rfl

/-- So can all arguments but the first. -/
theorem Obeys.apply_cons
    (obeys : interpretation.Obeys op spec)
    (associative : spec.associative = true)
    (value : Carrier)
    {later : List Carrier}
    (nonempty : later ≠ []) :
    interpretation.apply op (value :: later) =
      interpretation.apply op [value, interpretation.apply op later] := by
  obtain ⟨operation, -, folds⟩ := obeys.associative associative
  obtain ⟨front, last, rfl⟩ :=
    (List.eq_nil_or_concat' later).resolve_left nonempty
  rw [← List.cons_append, folds, folds]
  exact (folds [value] _).symm

end Associative

end Interpretation

end SymbolicAlgebra
