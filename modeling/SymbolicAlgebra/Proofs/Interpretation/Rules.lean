import SymbolicAlgebra.Proofs.Interpretation.Words
import SymbolicAlgebra.Proofs.Regrouping

/-!
# The rules for declared properties keep values

Five rules consult nothing but the properties of a node's head.  In every interpretation that obeys
the properties of the operators, each of them replaces a node by an expression with the same value, as
long as the evaluations that it performs are true of the values.
-/

namespace SymbolicAlgebra

namespace Transform

/-- The evaluations that folding literals performs. -/
def foldEvaluations
    (table : SymbolTable)
    (op : Expr) : (total : Expr) → List Expr → List Evaluation
  | _, [] => []
  | total, next :: rest =>
    (table.evaluations op [total, next]).flatMap fun evaluation =>
      evaluation :: foldEvaluations table op evaluation.result rest

/-- The evaluations that folding the literals of a chain and building it anew performs. -/
def regroupingEvaluations
    (table : SymbolTable)
    (spec : OperatorSpec)
    (op node : Expr) : List Evaluation :=
  (match (Chain.flatten op node).filter (·.isNumber) with
    | first :: rest => foldEvaluations table op first rest
    | [] => []) ++
  match regrouping? spec op node with
  | some (.rebuilt operands) => Chain.evaluations table op operands
  | _ => []

/-- The evaluations that the rule for associative operators performs. -/
def reassociateEvaluations
    (table : SymbolTable)
    (op node : Expr) : List Evaluation :=
  match table.specOf? op with
  | none => []
  | some spec =>
    if !spec.associative then
      []
    else if spec.commutative then
      regroupingEvaluations table spec op node
    else if Chain.isRightNested op node then
      []
    else
      Chain.evaluations table op (Chain.flatten op node)

end Transform

/-- The rules that consult nothing but the properties of a node's head. -/
inductive SpecRule where
  | commutativeOrder
  | stripIdentities
  | evaluateNumeric
  | absorbZero
  | reassociate

namespace SpecRule

/-- What the rule makes of nodes. -/
def transform? : SpecRule → Transform
  | commutativeOrder => Transform.commutativeOrder?
  | stripIdentities => Transform.stripIdentities?
  | evaluateNumeric => Transform.evaluateNumeric?
  | absorbZero => Transform.absorbZero?
  | reassociate => Transform.reassociate?

/-- The evaluations that the rule performs at a node.  Identities and zeros are found without any, and
operands in order are not touched. -/
def evaluations
    (rule : SpecRule)
    (table : SymbolTable) : (node : Expr) → List Evaluation
  | .apply head args =>
    match rule with
    | commutativeOrder =>
      if Expr.isSortedBy (Expr.operandCompare head) args then
        []
      else
        table.evaluations head args
    | evaluateNumeric => table.evaluations head args
    | reassociate => Transform.reassociateEvaluations table head (.apply head args)
    | stripIdentities => []
    | absorbZero => []
  | _ => []

end SpecRule

namespace Interpretation

variable {Carrier : Type*} {interpretation : Interpretation Carrier}
variable {table : SymbolTable}

/-! ## Chains -/

section Chain

variable {op : Expr} {spec : OperatorSpec}

/-- The chain at a well-formed expression has an operand. -/
theorem flatten_ne_nil
    {expr : Expr}
    (wellFormed : expr.WellFormed) :
    Chain.flatten op expr ≠ [] := by
  induction wellFormed with
  | leaf isLeaf =>
      rename_i expr
      cases expr with
      | apply head args =>
          cases isLeaf
      | _ =>
          simp [Chain.flatten]
  | @apply head args nonempty headFormed argsFormed headHypothesis
      argsHypothesis =>
      by_cases same : head = op
      · subst same
        obtain ⟨arg, rest, rfl⟩ := List.exists_cons_of_ne_nil nonempty
        rw [Chain.flatten_apply, List.flatMap_cons]
        exact List.append_ne_nil_of_left_ne_nil
          (argsHypothesis arg List.mem_cons_self) _
      · simp [Chain.flatten, same]

/-- Flattening a chain keeps its value. -/
theorem apply_flatten
    (obeys : interpretation.Obeys op spec)
    (associative : spec.associative = true)
    {expr : Expr}
    (wellFormed : expr.WellFormed) :
    interpretation.apply op ((Chain.flatten op expr).map interpretation.value) =
      interpretation.value expr := by
  have flatArgs
      {args : List Expr}
      (argsFormed : ∀ arg ∈ args, arg.WellFormed)
      (each :
        ∀ arg ∈ args,
          interpretation.apply op
              ((Chain.flatten op arg).map interpretation.value) =
            interpretation.value arg)
      (nonempty : args ≠ []) :
      interpretation.apply op
          ((args.flatMap (Chain.flatten op)).map interpretation.value) =
        interpretation.apply op (args.map interpretation.value) := by
    induction args with
    | nil =>
        exact (nonempty rfl).elim
    | cons arg rest inductionHypothesis =>
        obtain ⟨argFormed, restFormed⟩ := List.forall_mem_cons.mp argsFormed
        obtain ⟨first, later⟩ := List.forall_mem_cons.mp each
        have argNonempty :
            (Chain.flatten op arg).map interpretation.value ≠ [] := by
          simpa using flatten_ne_nil argFormed
        rw [List.flatMap_cons, List.map_append,
          ← obeys.apply_cons_apply associative argNonempty, first, List.map_cons]
        cases rest with
        | nil =>
            rfl
        | cons next others =>
            have restNonempty :
                ((next :: others).flatMap (Chain.flatten op)).map
                  interpretation.value ≠ [] := by
              have nextFormed := restFormed next List.mem_cons_self
              simp [flatten_ne_nil nextFormed]
            rw [obeys.apply_cons associative _ restNonempty,
              inductionHypothesis restFormed later (by simp),
              ← obeys.apply_cons associative _ (by simp)]
  induction wellFormed with
  | leaf isLeaf =>
      rename_i expr
      have other : expr.isApplyOf op = false := by
        cases expr with
        | apply head args =>
            cases isLeaf
        | _ =>
            rfl
      rw [Chain.flatten_of_not_isApplyOf other]
      exact obeys.apply_singleton associative _
  | @apply head args nonempty headFormed argsFormed headHypothesis
      argsHypothesis =>
      by_cases same : head = op
      · subst same
        rw [Chain.flatten_apply, value_apply]
        exact flatArgs argsFormed argsHypothesis nonempty
      · have other : (Expr.apply head args).isApplyOf op = false :=
          decide_eq_false same
        rw [Chain.flatten_of_not_isApplyOf other]
        exact obeys.apply_singleton associative _

/-- A chain built from operands has the value that they combine to. -/
theorem value_build
    (models : interpretation.Models table)
    (found : table.specOf? op = some spec)
    (associative : spec.associative = true)
    {operands : List Expr}
    {result : Expr}
    (respected :
      ∀ evaluation ∈ Chain.evaluations table op operands,
        interpretation.Respects evaluation)
    (built : Chain.build table.construct op operands = .ok result) :
    interpretation.value result =
      interpretation.apply op (operands.map interpretation.value) := by
  have obeys : interpretation.Obeys op spec := models found
  induction operands generalizing result with
  | nil =>
      cases built
  | cons operand rest inductionHypothesis =>
      cases rest with
      | nil =>
          cases built
          exact (obeys.apply_singleton associative _).symm
      | cons next rest =>
          obtain ⟨chain, chainBuilt, built⟩ := exists_of_bind_eq_ok built
          simp only [Chain.evaluations, chainBuilt, List.forall_mem_append]
            at respected
          rw [value_construct models respected.2 built, List.map_cons,
            List.map_singleton, inductionHypothesis respected.1 chainBuilt]
          exact (obeys.apply_cons associative _ (by simp)).symm

/-- Folding literals keeps what they combine to. -/
theorem value_foldConstants?
    (models : interpretation.Models table)
    (found : table.specOf? op = some spec)
    (associative : spec.associative = true)
    {total literal : Expr}
    {rest : List Expr}
    (respected :
      ∀ evaluation ∈ Transform.foldEvaluations table op total rest,
        interpretation.Respects evaluation)
    (folded :
      Transform.foldConstants? spec (op.symbol?.getD "") total rest =
        some literal) :
    interpretation.value literal =
      interpretation.apply op ((total :: rest).map interpretation.value) := by
  have obeys : interpretation.Obeys op spec := models found
  induction rest generalizing total with
  | nil =>
      cases folded
      exact (obeys.apply_singleton associative _).symm
  | cons next rest inductionHypothesis =>
      obtain ⟨outcome, evaluated, continues⟩ := Option.bind_eq_some_iff.mp folded
      obtain ⟨value, succeeds, foldsRest⟩ := Option.bind_eq_some_iff.mp continues
      rw [eq_ok_of_toOption succeeds] at evaluated
      obtain ⟨lhs, rhs, sameArgs, performed⟩ :=
        SymbolTable.exists_evaluation found evaluated
      cases sameArgs
      split at foldsRest
      · rw [Transform.foldEvaluations, List.forall_mem_flatMap] at respected
        obtain ⟨here, later⟩ :=
          List.forall_mem_cons.mp (respected _ performed)
        rw [inductionHypothesis later foldsRest, List.map_cons, ← here,
          obeys.apply_cons_apply associative (by simp)]
        rfl
      · cases foldsRest

/-- Folded literals can stand for the literals of a chain, whatever else is combined with them. -/
theorem apply_literals?
    (models : interpretation.Models table)
    (found : table.specOf? op = some spec)
    (associative : spec.associative = true)
    {node : Expr}
    {literals : List Expr}
    (respected :
      ∀ evaluation ∈ Transform.regroupingEvaluations table spec op node,
        interpretation.Respects evaluation)
    (folded : Transform.literals? spec op node = some literals)
    (later : List Carrier) :
    interpretation.apply op (literals.map interpretation.value ++ later) =
      interpretation.apply op
        (((Chain.flatten op node).filter (·.isNumber)).map interpretation.value ++
          later) := by
  have obeys : interpretation.Obeys op spec := models found
  rw [Transform.regroupingEvaluations, List.forall_mem_append] at respected
  unfold Transform.literals? Transform.foldedConstants? at folded
  split at folded
  · rename_i first second rest several
    split at folded
    · obtain ⟨literal, folds, rfl⟩ := Option.map_eq_some_iff.mp folded
      rw [several] at respected ⊢
      rw [List.map_singleton,
        value_foldConstants? models found associative respected.1 folds]
      exact obeys.apply_cons_apply associative (by simp) later
    · cases folded
      rw [several]
  · cases folded
    rfl

/-- An identity can be left out beside other values. -/
theorem Obeys.apply_identity
    (obeys : interpretation.Obeys op spec)
    (commutative : spec.commutative = true)
    {literal : Expr}
    (neutral : Transform.isIdentity spec literal = true)
    (value : Carrier) :
    interpretation.apply op [interpretation.value literal, value] = value := by
  rcases Bool.or_eq_true_iff.mp neutral with left | right
  · exact obeys.leftIdentity (of_decide_eq_true left) value
  · rw [obeys.commutative commutative (.swap _ _ [])]
    exact obeys.rightIdentity (of_decide_eq_true right) value

/-- Dropping an identity keeps what literals and other operands combine to. -/
theorem apply_keptLiterals
    (obeys : interpretation.Obeys op spec)
    (associative : spec.associative = true)
    (commutative : spec.commutative = true)
    (others literals : List Expr) :
    interpretation.apply op
        ((Transform.keptLiterals spec others literals ++ others).map
          interpretation.value) =
      interpretation.apply op ((literals ++ others).map interpretation.value) := by
  unfold Transform.keptLiterals
  split
  · rename_i literal
    split
    · rename_i dropped
      obtain ⟨neutral, nonempty⟩ := Bool.and_eq_true_iff.mp dropped
      have beside : others.map interpretation.value ≠ [] := by
        simpa using nonempty
      rw [List.nil_append, List.singleton_append, List.map_cons,
        obeys.apply_cons associative _ beside,
        obeys.apply_identity commutative neutral]
    · rfl
  · rfl

/-- Regrouping a chain keeps its value. -/
theorem value_reassociateSorted?
    (models : interpretation.Models table)
    (found : table.specOf? op = some spec)
    (associative : spec.associative = true)
    (commutative : spec.commutative = true)
    {node replacement : Expr}
    (wellFormed : node.WellFormed)
    (respected :
      ∀ evaluation ∈ Transform.regroupingEvaluations table spec op node,
        interpretation.Respects evaluation)
    (transformed :
      Transform.reassociateSorted? spec table.construct op node =
        some replacement) :
    interpretation.value replacement = interpretation.value node := by
  have obeys : interpretation.Obeys op spec := models found
  rw [Transform.reassociateSorted?_eq] at transformed
  obtain ⟨regrouping, regroups, built⟩ := Option.bind_eq_some_iff.mp transformed
  have buildRespected := (List.forall_mem_append.mp respected).2
  rw [regroups] at buildRespected
  obtain ⟨literals, folded, outcome⟩ :=
    Transform.exists_literals_of_regrouping? regroups
  have combined :
      interpretation.apply op
          ((literals ++ Transform.nonliterals op node).map
            interpretation.value) =
        interpretation.value node := by
    rw [← apply_flatten obeys associative wellFormed, List.map_append,
      apply_literals? models found associative respected folded,
      ← List.map_append]
    exact obeys.commutative commutative
      ((List.filter_append_perm _ _).map interpretation.value)
  rcases outcome with ⟨zero, declared, rfl, rfl⟩ | rfl
  · cases built
    rw [← combined]
    exact (obeys.zero declared (by simp)).symm
  · rw [value_build models found associative buildRespected
        (eq_ok_of_toOption built), ← combined,
      ← apply_keptLiterals obeys associative commutative]
    exact obeys.commutative commutative
      ((Expr.sortBy_perm _ _).map interpretation.value)

end Chain

/-! ## The rules -/

/-- Sorting the operands of a commutative operator keeps the value. -/
theorem value_commutativeOrder?
    (models : interpretation.Models table)
    {head replacement : Expr}
    {args : List Expr}
    (respected :
      ∀ evaluation ∈
          SpecRule.commutativeOrder.evaluations table (.apply head args),
        interpretation.Respects evaluation)
    (transformed :
      Transform.commutativeOrder? table table.construct (.apply head args) =
        some replacement) :
    interpretation.value replacement =
      interpretation.value (.apply head args) := by
  simp only [Transform.commutativeOrder?] at transformed
  split at transformed
  · rename_i unsorted
    rw [Bool.and_eq_true_iff, Bool.not_eq_true'] at unsorted
    simp only [SpecRule.evaluations, unsorted.2] at respected
    rw [value_apply]
    exact value_construct models respected (eq_ok_of_toOption transformed)
  · cases transformed

/-- Dropping identities keeps the value. -/
theorem value_stripIdentities?
    (models : interpretation.Models table)
    (builder : Builder)
    (node : Expr) :
    interpretation.value
        ((Transform.stripIdentities? table builder node).getD node) =
      interpretation.value node := by
  induction node with
  | apply head args headHypothesis argsHypothesis =>
      unfold Transform.stripIdentities?
      split
      · rename_i head' lhs rhs same
        cases same
        split
        · rfl
        · rename_i spec found
          have obeys : interpretation.Obeys head spec := models found
          split
          · rename_i neutral
            rw [Option.getD_some, argsHypothesis rhs (by simp), value_apply]
            exact (obeys.leftIdentity neutral _).symm
          · split
            · rename_i neutral
              rw [Option.getD_some, argsHypothesis lhs (by simp), value_apply]
              exact (obeys.rightIdentity neutral _).symm
            · rfl
      · rfl
  | _ =>
      rfl

/-- An evaluation that is respected keeps the value. -/
theorem value_evaluateNumeric?
    {head replacement : Expr}
    {args : List Expr}
    (respected :
      ∀ evaluation ∈ table.evaluations head args,
        interpretation.Respects evaluation)
    (transformed :
      Transform.evaluateNumeric? table table.construct (.apply head args) =
        some replacement) :
    interpretation.value replacement =
      interpretation.value (.apply head args) := by
  obtain ⟨spec, found, evaluates⟩ := Option.bind_eq_some_iff.mp transformed
  obtain ⟨outcome, evaluated, succeeds⟩ := Option.bind_eq_some_iff.mp evaluates
  rw [eq_ok_of_toOption succeeds] at evaluated
  obtain ⟨lhs, rhs, rfl, performed⟩ :=
    SymbolTable.exists_evaluation found evaluated
  rw [value_apply]
  exact (respected _ performed).symm

/-- An absorbing argument has the value of the application. -/
theorem value_absorbZero?
    (models : interpretation.Models table)
    {head replacement : Expr}
    {args : List Expr}
    (transformed :
      Transform.absorbZero? table table.construct (.apply head args) =
        some replacement) :
    interpretation.value replacement =
      interpretation.value (.apply head args) := by
  obtain ⟨spec, found, absorbs⟩ := Option.bind_eq_some_iff.mp transformed
  obtain ⟨declared, member⟩ := Option.filter_eq_some_iff.mp absorbs
  have obeys : interpretation.Obeys head spec := models found
  rw [value_apply]
  refine (obeys.zero declared ?_).symm
  exact List.mem_map_of_mem (List.contains_iff_mem.mp member)

/-- Regrouping a chain of any associative operator keeps its value. -/
theorem value_reassociate?
    (models : interpretation.Models table)
    {head : Expr}
    {args : List Expr}
    {replacement : Expr}
    (wellFormed : (Expr.apply head args).WellFormed)
    (respected :
      ∀ evaluation ∈
          Transform.reassociateEvaluations table head (.apply head args),
        interpretation.Respects evaluation)
    (transformed :
      Transform.reassociate? table table.construct (.apply head args) =
        some replacement) :
    interpretation.value replacement =
      interpretation.value (.apply head args) := by
  rw [Transform.reassociateEvaluations] at respected
  rw [Transform.reassociate?] at transformed
  split at transformed
  · cases transformed
  · rename_i spec found
    simp only [found] at respected
    split at transformed
    · cases transformed
    · rename_i notExcluded
      have associative : spec.associative = true := by
        simpa using notExcluded
      rw [if_neg notExcluded] at respected
      split at transformed
      · rename_i commutative
        rw [if_pos commutative] at respected
        exact value_reassociateSorted? models found associative commutative
          wellFormed respected transformed
      · rename_i notCommutative
        split at transformed
        · cases transformed
        · rename_i notNested
          rw [if_neg notCommutative, if_neg notNested] at respected
          rw [value_build models found associative respected
            (eq_ok_of_toOption transformed)]
          exact apply_flatten (models found) associative wellFormed

end Interpretation

/--
Each of the rules that consult nothing but the properties of a node's head makes of every expression,
while a simplification is under way, an expression with the same value, in every interpretation that
obeys the properties of all operators and respects the evaluations that the rule performs.
-/
theorem SpecRule.value_result
    {Carrier : Type*}
    {interpretation : Interpretation Carrier}
    {table : SymbolTable}
    {rule : SpecRule}
    {node : Expr}
    (models : interpretation.Models table)
    (wellFormed : node.WellFormed)
    (respected :
      ∀ evaluation ∈ rule.evaluations table node,
        interpretation.Respects evaluation) :
    interpretation.value (rule.transform?.result table node) =
      interpretation.value node := by
  have ofReplacement
      (kept :
        ∀ {replacement},
          rule.transform? table table.construct node = some replacement →
            interpretation.value replacement = interpretation.value node) :
      interpretation.value (rule.transform?.result table node) =
        interpretation.value node := by
    unfold Transform.result
    cases transformed : rule.transform? table table.construct node with
    | none =>
        rfl
    | some replacement =>
        exact kept transformed
  apply ofReplacement
  intro replacement transformed
  cases node with
  | apply head args =>
      cases rule with
      | commutativeOrder =>
          exact Interpretation.value_commutativeOrder? models respected
            transformed
      | stripIdentities =>
          have stripped :=
            Interpretation.value_stripIdentities? models table.construct
              (.apply head args)
          change Transform.stripIdentities? table _ _ = _ at transformed
          rw [transformed] at stripped
          exact stripped
      | evaluateNumeric =>
          exact Interpretation.value_evaluateNumeric? respected transformed
      | absorbZero =>
          exact Interpretation.value_absorbZero? models transformed
      | reassociate =>
          exact Interpretation.value_reassociate? models wellFormed respected
            transformed
  | _ =>
      cases rule <;> cases transformed

/-- Regrouping a nest of sums evaluates two of its literals and keeps its word. -/
theorem SpecRule.value_result_ofWords :
    let interpretation := Interpretation.ofWords fun name => BitVec.ofNat 64 name.length
    let x := Expr.symbol "x"
    let y := Expr.symbol "y"
    let node :=
      Expr.apply Operator.add
        [.apply Operator.add [.number 5, y], .apply Operator.add [.number 3, x]]
    interpretation.Models {} ∧ node.WellFormed ∧
      reassociate.evaluations {} node =
        [⟨Operator.add, 5, 3, .number 8⟩] ∧
      reassociate.transform?.result {} node =
        .apply Operator.add [.number 8, .apply Operator.add [x, y]] ∧
      interpretation.value (reassociate.transform?.result {} node) =
        interpretation.value node := by
  intro interpretation x y node
  have models : interpretation.Models {} :=
    Interpretation.ofWords_models _
  have leaf {expr : Expr} (isLeaf : expr.isLeaf = true) : expr.WellFormed :=
    .leaf isLeaf
  have pair
      {lhs rhs : Expr}
      (lhsFormed : lhs.WellFormed)
      (rhsFormed : rhs.WellFormed) :
      (Expr.apply Operator.add [lhs, rhs]).WellFormed :=
    .apply (by simp) (leaf rfl) (by simpa using ⟨lhsFormed, rhsFormed⟩)
  have wellFormed : node.WellFormed :=
    pair (pair (leaf rfl) (leaf rfl)) (pair (leaf rfl) (leaf rfl))
  have performed :
      reassociate.evaluations {} node =
        [⟨Operator.add, 5, 3, .number 8⟩] := by
    decide +kernel
  have respected :
      ∀ evaluation ∈ reassociate.evaluations {} node,
        interpretation.Respects evaluation := by
    rw [performed, List.forall_mem_singleton]
    decide +kernel
  exact ⟨models, wellFormed, performed, by decide +kernel,
    value_result models wellFormed respected⟩

end SymbolicAlgebra
