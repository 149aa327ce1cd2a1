import SymbolicAlgebra.Proofs.Interpretation.Basic
import SymbolicAlgebra.Proofs.Linear.Construction
import SymbolicAlgebra.Proofs.Number.Rational

/-!
# Values of expressions

Any function of expressions can be taken as their value.  Building keeps values if the value of an
application depends on nothing but what its head declares to be irrelevant, and if the evaluations
that are performed keep values.  An associative operator folds the values of its arguments, however
the arguments are nested.
-/

namespace SymbolicAlgebra

variable {Carrier : Type*} {value : Expr → Carrier} {table : SymbolTable}

/-- Both literals are replaced by something with the value of the application to them. -/
def Evaluation.Keeps
    (evaluation : Evaluation)
    (value : Expr → Carrier) : Prop :=
  value evaluation.result =
    value (.apply evaluation.head
      [.number evaluation.lhs, .number evaluation.rhs])

instance
    [DecidableEq Carrier]
    (value : Expr → Carrier)
    (evaluation : Evaluation) :
    Decidable (evaluation.Keeps value) :=
  inferInstanceAs (Decidable (_ = _))

/-- The evaluations of building a raw term, and then of what is done with it. -/
def SymbolTable.evaluationsThen
    (table : SymbolTable)
    (head : Expr)
    (args : List Expr)
    (next : Expr → List Evaluation) : List Evaluation :=
  table.evaluations head args ++
    match table.construct head args with
    | .ok result => next result
    | .error _ => []

theorem SymbolTable.forall_evaluationsThen
    {head result : Expr}
    {args : List Expr}
    {next : Expr → List Evaluation}
    {property : Evaluation → Prop}
    (constructed : table.construct head args = .ok result) :
    (∀ evaluation ∈ table.evaluationsThen head args next, property evaluation) ↔
      (∀ evaluation ∈ table.evaluations head args, property evaluation) ∧
        ∀ evaluation ∈ next result, property evaluation := by
  rw [SymbolTable.evaluationsThen, constructed, List.forall_mem_append]

/-- What the head declares is true of the values of its applications. -/
structure SymbolTable.Suits
    (table : SymbolTable)
    (value : Expr → Carrier)
    (head : Expr) : Prop where
  commutative :
    ∀ {spec},
      table.specOf? head = some spec → spec.commutative = true →
        ∀ {args args'},
          args.Perm args' → value (.apply head args) = value (.apply head args')
  zero :
    ∀ {spec zero},
      table.specOf? head = some spec → spec.zero = some zero →
        ∀ {args}, zero ∈ args → value (.apply head args) = value zero

/-- A raw term has the value of the application that it stands for. -/
theorem SymbolTable.Suits.value_construct
    {head result : Expr}
    {args : List Expr}
    (suits : table.Suits value head)
    (kept : ∀ evaluation ∈ table.evaluations head args, evaluation.Keeps value)
    (constructed : table.construct head args = .ok result) :
    value result = value (.apply head args) := by
  obtain ⟨-, constructs⟩ := construct_eq_ok_iff.mp constructed
  generalize found : table.specOf? head = spec? at constructs
  cases constructs with
  | plain =>
      rfl
  | evaluated outcome =>
      obtain ⟨lhs, rhs, rfl, performed⟩ :=
        SymbolTable.exists_evaluation found outcome
      exact kept _ performed
  | absorbed unevaluated absorbs =>
      obtain ⟨declared, member⟩ := Option.filter_eq_some_iff.mp absorbs
      exact (suits.zero found declared (List.contains_iff_mem.mp member)).symm
  | @stored spec unevaluated unabsorbed =>
      rw [OperatorSpec.ordered]
      split
      · rename_i commutative
        exact suits.commutative found commutative (Expr.sortBy_perm _ args)
      · rfl

/-- Nothing that could fail to be true is declared of an operator that is neither commutative nor absorbed. -/
theorem SymbolTable.suits_of_undeclared
    {head : Expr}
    {spec : OperatorSpec}
    (found : table.specOf? head = some spec)
    (notCommutative : spec.commutative = false)
    (noZero : spec.zero = none) :
    table.Suits value head where
  commutative found' declared := by
    cases found.symm.trans found'
    cases notCommutative.symm.trans declared
  zero found' declared := by
    cases found.symm.trans found'
    cases noZero.symm.trans declared

/-! ## Chains -/

/-- The value of an application folds the values of the arguments. -/
def Folds
    (value : Expr → Carrier)
    (op : Expr)
    (operation : Carrier → Carrier → Carrier)
    (unit : Carrier) : Prop :=
  ∀ args, value (.apply op args) = (args.map value).foldr operation unit

section Fold

variable {op : Expr} {operation : Carrier → Carrier → Carrier} {unit : Carrier}
variable [Std.LawfulIdentity operation unit]

/-- A value folds to itself. -/
theorem foldr_singleton_unit
    (single : Carrier) :
    [single].foldr operation unit = single :=
  Std.LawfulRightIdentity.right_id single

/-- A chain has the value that its operands fold to. -/
theorem Folds.value_build
    (folds : Folds value op operation unit)
    (suits : table.Suits value op)
    {operands : List Expr}
    {result : Expr}
    (kept :
      ∀ evaluation ∈ Chain.evaluations table op operands,
        evaluation.Keeps value)
    (built : Chain.build table.construct op operands = .ok result) :
    value result = (operands.map value).foldr operation unit := by
  induction operands generalizing result with
  | nil =>
      cases built
  | cons operand rest inductionHypothesis =>
      cases rest with
      | nil =>
          cases built
          exact (foldr_singleton_unit _).symm
      | cons next rest =>
          obtain ⟨chain, chainBuilt, built⟩ := exists_of_bind_eq_ok built
          simp only [Chain.evaluations, chainBuilt, List.forall_mem_append]
            at kept
          rw [suits.value_construct kept.2 built, folds, List.map_cons,
            List.foldr_cons, List.map_singleton, foldr_singleton_unit,
            inductionHypothesis kept.1 chainBuilt]
          rfl

variable [Std.Associative operation]

theorem foldr_append_unit
    (values later : List Carrier) :
    (values ++ later).foldr operation unit =
      operation (values.foldr operation unit) (later.foldr operation unit) := by
  have leftUnit :
      operation unit (later.foldr operation unit) = later.foldr operation unit :=
    Std.LawfulLeftIdentity.left_id _
  rw [List.foldr_append]
  conv_lhs => rw [← leftUnit, List.foldr_assoc]

/-- Flattening a chain keeps its value. -/
theorem Folds.foldr_flatten
    (folds : Folds value op operation unit)
    (expr : Expr) :
    ((Chain.flatten op expr).map value).foldr operation unit = value expr := by
  have single {expr : Expr} (other : expr.isApplyOf op = false) :
      ((Chain.flatten op expr).map value).foldr operation unit = value expr := by
    rw [Chain.flatten_of_not_isApplyOf other]
    exact foldr_singleton_unit _
  induction expr with
  | apply head args headHypothesis argsHypothesis =>
      by_cases same : head = op
      · subst same
        rw [Chain.flatten_apply, folds args]
        clear single headHypothesis
        induction args with
        | nil =>
            rfl
        | cons arg rest inductionHypothesis =>
            obtain ⟨first, later⟩ := List.forall_mem_cons.mp argsHypothesis
            rw [List.flatMap_cons, List.map_append, foldr_append_unit, first,
              inductionHypothesis later]
            rfl
      · exact single (decide_eq_false same)
  | _ =>
      exact single rfl

end Fold

/-- Multiplication is commutative, and zero absorbs everything. -/
theorem Folds.suits_product
    {M : Type*}
    [CommMonoidWithZero M]
    {value : Expr → M}
    (folds : Folds value Operator.mul (· * ·) 1)
    (zero : value (.number 0) = 0)
    (table : SymbolTable) :
    table.Suits value Operator.mul where
  commutative := by
    intro _ _ _ args args' permuted
    rw [folds, folds]
    exact (permuted.map value).prod_eq
  zero found declared _ member := by
    cases (table.specOf?_mul.symm.trans found)
    cases declared
    rw [folds, zero]
    exact List.prod_eq_zero (zero ▸ List.mem_map_of_mem member)

/-! ## Literals -/

/-- Values for literals, where zero and one are themselves, and for terms that nothing is known of. -/
structure Valuation
    (Carrier : Type*)
    [Zero Carrier]
    [One Carrier] where
  literal : Float → Carrier
  term : Expr → Carrier
  zero :
    ∀ {number}, (number == 0) = true → literal number = 0
  one :
    literal 1 = 1

namespace Valuation

variable [Zero Carrier] [One Carrier]

/-- The literal of a number holds the number, except that a negative zero is written as zero. -/
theorem literal_ofFloat
    (valuation : Valuation Carrier)
    (number : Float) :
    valuation.literal (if number == 0 then 0 else number) =
      valuation.literal number := by
  split
  · rename_i isZero
    rw [valuation.zero isZero, valuation.zero (by decide)]
  · rfl

/-- Literals as the rational numbers that they represent. -/
def rational
    (term : Expr → ℚ) : Valuation ℚ where
  literal := rationalOf
  term := term
  zero := rationalOf_of_beq_zero
  one := rationalOf_one

end Valuation

end SymbolicAlgebra
