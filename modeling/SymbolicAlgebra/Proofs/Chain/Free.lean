import SymbolicAlgebra.Proofs.Chain.Canonical

/-!
# Operators that are only commutative and associative

An operator without neutral and absorbing values and without an evaluator does nothing to its operands but
to put them in order.  However operands that are fixed points are combined by it, the outcome is their
right-nested chain in canonical order.
-/

namespace SymbolicAlgebra

open SymbolicAlgebra.Expr

/-- The operator is commutative and associative and has no other properties. -/
structure OperatorSpec.IsFree
    (spec : OperatorSpec) : Prop where
  commutative :
    spec.commutative = true
  associative :
    spec.associative = true
  identity :
    spec.identity = none
  leftIdentity :
    spec.leftIdentity = none
  rightIdentity :
    spec.rightIdentity = none
  zero :
    spec.zero = none
  evaluator :
    spec.evaluator = none

namespace OperatorSpec.IsFree

variable {spec : OperatorSpec}

theorem effectiveIdentity_eq_none
    (free : spec.IsFree) :
    spec.effectiveLeftIdentity = none ∧ spec.effectiveRightIdentity = none := by
  simp [effectiveLeftIdentity, effectiveRightIdentity, free.identity,
    free.leftIdentity, free.rightIdentity]

theorem absorbed?_eq_none
    (free : spec.IsFree)
    (args : List Expr) :
    spec.absorbed? args = none := by
  rw [absorbed?, free.zero, Option.filter_none]

theorem evaluateLiterals?_eq_none_of_free
    (free : spec.IsFree)
    (name : String)
    (args : List Expr) :
    spec.evaluateLiterals? name args = none := by
  unfold evaluateLiterals? evaluate?
  split
  · rw [free.evaluator, Option.map_none]
  · rfl

/-- Regrouping keeps all literals of a chain. -/
theorem regrouping?_eq
    (free : spec.IsFree)
    {op node : Expr}
    (plain : ∀ item ∈ Chain.flatten op node, item.PlainlyNamed) :
    Transform.regrouping? spec op node =
      Transform.rebuilding? op node
        (sortCanonically (Chain.flatten op node)) := by
  have literals :
      Transform.literals? spec op node =
        some ((Chain.flatten op node).filter (·.isNumber)) := by
    unfold Transform.literals? Transform.foldedConstants?
    split
    · rename_i several
      rw [several, free.evaluator]
      rfl
    · rfl
  have kept
      (literals : List Expr) :
      Transform.keptLiterals spec (Transform.nonliterals op node) literals =
        literals := by
    unfold Transform.keptLiterals
    split
    · simp [Transform.isIdentity, free.effectiveIdentity_eq_none]
    · rfl
  have unabsorbed :
      Transform.absorbing? spec ((Chain.flatten op node).filter (·.isNumber)) =
        none := by
    rw [Transform.absorbing?, free.zero, Option.filter_none]
  have operands :
      sortCanonically
          ((Chain.flatten op node).filter (·.isNumber) ++
            Transform.nonliterals op node) =
        sortCanonically (Chain.flatten op node) :=
    (canonicalCompare_linearOn_plainlyNamed.sortBy_eq_of_perm plain
      (List.filter_append_perm _ _).symm).symm
  rw [Transform.regrouping?_of_literals? literals unabsorbed, kept, operands]

end OperatorSpec.IsFree

/-- Every standard operator has an evaluator. -/
theorem isSome_evaluator_of_standardSpec?
    {name : String}
    {spec : OperatorSpec}
    (found : standardSpec? name = some spec) :
    spec.evaluator.isSome = true := by
  unfold standardSpec? at found
  split at found <;> cases found <;> rfl

section Free

variable {table : SymbolTable} {name : String} {spec : OperatorSpec}

/-- No standard operator is free. -/
theorem standardSpec?_eq_none
    (found : table.spec? name = some spec)
    (free : spec.IsFree) :
    standardSpec? name = none := by
  cases standard : standardSpec? name with
  | none =>
      rfl
  | some recorded =>
      have same : recorded = spec := by
        simpa [SymbolTable.spec?, SymbolTable.lookup?, standard] using found
      have evaluates := isSome_evaluator_of_standardSpec? standard
      rw [same, free.evaluator] at evaluates
      cases evaluates

/-- A fixed point with plain names that is no application of the operator. -/
structure IsOperand
    (table : SymbolTable)
    (op expr : Expr) : Prop where
  single :
    expr.isApplyOf op = false
  plainlyNamed :
    expr.PlainlyNamed
  fixed :
    pass table catalogue expr = .ok expr

/-- A free operator only regroups its operands. -/
theorem regroups_of_isFree
    (found : table.spec? name = some spec)
    (free : spec.IsFree) :
    Regroups table (.symbol name) (IsOperand table (.symbol name)) false := by
  have standard := standardSpec?_eq_none found free
  have specFound : table.specOf? (.symbol name) = some spec := found
  refine
    { isLeaf := rfl
      plainlyNamed := IsOperand.plainlyNamed
      single := IsOperand.single
      stores := ?_
      waits := ?_
      sorts := ?_
      collapses := ?_ }
  · intro lhs rhs _ _
    rw [construct_stored specFound (List.cons_ne_nil _ _)
      (free.evaluateLiterals?_eq_none_of_free _ _) (free.absorbed?_eq_none _),
      OperatorSpec.ordered, if_pos free.commutative]
  · intro lhs rhs _ _ rule member
    obtain ⟨powers, subtraction, distribution, conjunction, division, addition⟩ :=
      Transform.eq_none_of_notStandard standard table table.construct lhs rhs
    simp only [rulesBeforeRegrouping, catalogue, List.take_succ_cons,
      List.take_zero, List.tail_cons, List.mem_cons, List.not_mem_nil, or_false]
      at member
    rcases member with rfl | rfl | rfl | rfl | rfl | rfl | rfl | rfl | rfl
    · simp [Transform.stripIdentities?, specFound,
        free.effectiveIdentity_eq_none]
    · simp [Transform.evaluateNumeric?, specFound,
        free.evaluateLiterals?_eq_none_of_free]
    · exact powers
    · exact subtraction
    · exact distribution
    · exact conjunction
    · exact division
    · exact addition
    · simp [Transform.absorbZero?, specFound, free.absorbed?_eq_none]
  · intro lhs rhs lhsCombines rhsCombines
    have combines :
        Combines (.symbol name) (IsOperand table (.symbol name))
          (.apply (.symbol name) [lhs, rhs]) :=
      .node lhsCombines rhsCombines
    rw [Transform.reassociate?_eq specFound free.associative free.commutative,
      free.regrouping?_eq]
    intro item member
    exact (combines.kind_of_mem_flatten IsOperand.single member).plainlyNamed
  · intro lhs rhs _ _
    exact Transform.bitIdentities?_eq_none_of_notStandard standard table
      table.construct [lhs, rhs]

end Free

/-- A way of combining operands by binary applications. -/
inductive Grouping where
  | operand (expr : Expr)
  | join (lhs rhs : Grouping)

namespace Grouping

/-- The operands from left to right. -/
def operands : Grouping → List Expr
  | operand expr => [expr]
  | join lhs rhs => lhs.operands ++ rhs.operands

/-- Applies an operator as the grouping says. -/
def build
    (builder : Builder)
    (op : Expr) : Grouping → Except ExprError Expr
  | operand expr => .ok expr
  | join lhs rhs => do
    let lhs' ← lhs.build builder op
    let rhs' ← rhs.build builder op
    builder op [lhs', rhs']

/-- Grouping fixed points by an operator that only regroups them gives their canonical chain. -/
theorem exists_build_of_regroups
    {workspace : Workspace}
    {op : Expr}
    {kind : Expr → Prop}
    {idempotent : Bool}
    (regroups : Regroups workspace.table op kind idempotent)
    (enough : 2 ≤ workspace.ceiling)
    (fixed :
      ∀ item, kind item → pass workspace.table catalogue item = .ok item)
    {grouping : Grouping}
    (kinds : ∀ item ∈ grouping.operands, kind item) :
    ∃ result,
      grouping.build workspace.apply op = .ok result ∧
        IsCanonicalChain op kind idempotent grouping.operands result := by
  induction grouping with
  | operand expr =>
      exact ⟨expr, rfl,
        regroups.canonicalChain_operand (kinds expr List.mem_cons_self)⟩
  | join lhs rhs lhsHypothesis rhsHypothesis =>
      obtain ⟨lhsKinds, rhsKinds⟩ := List.forall_mem_append.mp kinds
      obtain ⟨lhs', lhsBuilt, lhsCanonical⟩ := lhsHypothesis lhsKinds
      obtain ⟨rhs', rhsBuilt, rhsCanonical⟩ := rhsHypothesis rhsKinds
      obtain ⟨result, applied, canonical⟩ :=
        regroups.exists_apply enough fixed lhsCanonical rhsCanonical
      refine ⟨result, ?_, canonical⟩
      rw [build, lhsBuilt, ok_bind, rhsBuilt, ok_bind, applied]

/--
However operands are grouped by a free operator and whatever their order, combining them succeeds and
gives their right-nested chain in canonical order.
-/
theorem build_eq_nested
    {workspace : Workspace}
    {name : String}
    {spec : OperatorSpec}
    {operands : List Expr}
    (enough : 2 ≤ workspace.ceiling)
    (found : workspace.table.spec? name = some spec)
    (free : spec.IsFree)
    (single : ∀ expr ∈ operands, expr.isApplyOf (.symbol name) = false)
    (plain : ∀ expr ∈ operands, expr.PlainlyNamed)
    (simplified : ∀ expr ∈ operands, workspace.simplify expr = .ok expr)
    {grouping : Grouping}
    (permuted : grouping.operands.Perm operands) :
    ∃ first rest,
      sortCanonically operands = first :: rest ∧
        grouping.build workspace.apply (.symbol name) =
          .ok (nested (.symbol name) first rest) := by
  have kinds :
      ∀ item ∈ grouping.operands,
        IsOperand workspace.table (.symbol name) item := by
    intro item member
    have inOperands := permuted.mem_iff.mp member
    exact ⟨single item inOperands, plain item inOperands,
      pass_of_simplify (simplified item inOperands)⟩
  obtain ⟨result, built, canonical⟩ :=
    exists_build_of_regroups (regroups_of_isFree found free) enough
      (fun _ => IsOperand.fixed) kinds
  have sameOrder :
      canonicalOperands false grouping.operands = sortCanonically operands :=
    canonicalCompare_linearOn_plainlyNamed.sortBy_eq_of_perm
      (fun item member => (kinds item member).plainlyNamed) permuted
  obtain ⟨first, rest, flat, rfl⟩ :=
    exists_nested_of_isRightNested canonical.isChain.isNested
  refine ⟨first, rest, ?_, built⟩
  rw [← sameOrder, ← canonical.isChain.flatten_eq, flat]

/-- A literal, an application to a wildcard and a symbol that occurs twice, in two different groupings. -/
theorem build_eq_nested_shuffled :
    let spec : OperatorSpec := { commutative := true, associative := true }
    let workspace : Workspace :=
      { table := ({} : SymbolTable).intern "merge" (some spec) }
    let merge := symbol "merge"
    let x := symbol "x"
    let call := apply (symbol "f") [wildcard ⟨0, "w"⟩]
    let chain :=
      apply merge [.number 2, .apply merge [x, .apply merge [x, call]]]
    (join (join (operand call) (operand x))
          (join (operand (.number 2)) (operand x))).build
        workspace.apply merge = .ok chain ∧
      (join (operand x)
          (join (operand x)
            (join (operand call) (operand (.number 2))))).build
        workspace.apply merge = .ok chain := by
  intro spec workspace merge x call chain
  have free : spec.IsFree :=
    ⟨rfl, rfl, rfl, rfl, rfl, rfl, rfl⟩
  have enough : 2 ≤ workspace.ceiling := by
    decide
  have single :
      ∀ expr ∈ [call, x, .number 2, x],
        expr.isApplyOf (.symbol "merge") = false := by
    decide
  have plain : ∀ expr ∈ [call, x, .number 2, x], expr.PlainlyNamed := by
    decide
  have simplified :
      ∀ expr ∈ [call, x, .number 2, x],
        workspace.simplify expr = .ok expr := by
    decide +kernel
  have sorted :
      sortCanonically [call, x, .number 2, x] = [.number 2, x, x, call] := by
    decide +kernel
  have combined
      {grouping : Grouping}
      (permuted : grouping.operands.Perm [call, x, .number 2, x]) :
      grouping.build workspace.apply merge = .ok chain := by
    obtain ⟨first, rest, sameOrder, built⟩ :=
      build_eq_nested enough rfl free single plain simplified permuted
    rw [sorted] at sameOrder
    cases sameOrder
    exact built
  exact ⟨combined (.refl _), combined (by decide)⟩

end Grouping

end SymbolicAlgebra
