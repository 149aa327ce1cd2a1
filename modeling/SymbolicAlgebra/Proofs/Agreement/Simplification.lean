import SymbolicAlgebra.Proofs.Agreement.Rules

/-!
# Simplification in tables that agree

Two tables that give the heads of a family the same properties build the same raw terms of its members.  Then passes
and whole simplifications of members are the same as well, and so are terms built in simplified form.
-/

namespace SymbolicAlgebra

open SymbolicAlgebra.Expr

/-- Two steps have the same outcome, and if it is a value, the value has the property. -/
structure SameOutcome
    {α : Type}
    (property : α → Prop)
    (first second : Except ExprError α) : Prop where
  same :
    first = second
  holds :
    ∀ value, first = .ok value → property value

namespace SameOutcome

variable {α β : Type} {property : α → Prop} {property' : β → Prop}

theorem pure
    {value : α}
    (holds : property value) :
    SameOutcome property (.ok value) (.ok value) :=
  ⟨rfl, fun _ same => Except.ok.inj same ▸ holds⟩

/-- Steps that follow each other. -/
theorem bind
    {first second : Except ExprError α}
    {next next' : α → Except ExprError β}
    (sooner : SameOutcome property first second)
    (later :
      ∀ value, property value → SameOutcome property' (next value) (next' value)) :
    SameOutcome property' (first >>= next) (second >>= next') := by
  obtain ⟨rfl, holds⟩ := sooner
  cases first with
  | error error =>
      exact ⟨rfl, nofun⟩
  | ok value =>
      exact later value (holds value rfl)

end SameOutcome

namespace AgreeOn

variable {family : Expr → Prop} {table table' : SymbolTable} {builder builder' : Builder}

/-- What agreeing surroundings build of members. -/
theorem sameOutcome_built
    (agree : AgreeOn family table table' builder builder')
    {head : Expr}
    {args : List Expr}
    (headMember : family head)
    (argMembers : ∀ arg ∈ args, family arg) :
    SameOutcome family (builder head args) (builder' head args) where
  same :=
    agree.built_eq headMember argMembers
  holds _ built :=
    agree.closed.built headMember argMembers built

/-! ## Visits -/

/-- Rules run one after the other treat members alike, and keep them members. -/
theorem transformAll
    (agree : AgreeOn family table table' builder builder')
    {rules : List Rule}
    (fromCatalogue : rules ⊆ catalogue)
    {node : Expr}
    (member : family node) :
    transformAll? (rules.map (·.transform? table builder)) node =
        transformAll? (rules.map (·.transform? table' builder')) node ∧
      family ((transformAll? (rules.map (·.transform? table builder)) node).getD node) := by
  induction rules generalizing node with
  | nil =>
      exact ⟨rfl, member⟩
  | cons rule rest inductionHypothesis =>
      obtain ⟨inCatalogue, restFromCatalogue⟩ := List.cons_subset.mp fromCatalogue
      rw [List.map_cons, List.map_cons, transformAll?, transformAll?,
        ← agree.transform? inCatalogue member]
      cases transformed : rule.transform? table builder node with
      | none =>
          exact inductionHypothesis restFromCatalogue member
      | some replacement =>
          have replacementMember :=
            agree.closed.keeps agree.literals inCatalogue member transformed
          obtain ⟨same, laterMember⟩ :=
            inductionHypothesis restFromCatalogue replacementMember
          dsimp only
          rw [← same]
          exact ⟨rfl, laterMember⟩

/-! ## Walks -/

section Walk

variable {visit visit' : Expr → Except ExprError (Option Expr)}

theorem walkArgs
    {args : List Expr}
    (each :
      ∀ arg ∈ args,
        SameOutcome (fun replaced => family (replaced.getD arg))
          (arg.walk builder visit) (arg.walk builder' visit')) :
    SameOutcome (fun replaced => ∀ arg ∈ replaced.getD args, family arg)
      (Expr.walkArgs builder visit args) (Expr.walkArgs builder' visit' args) := by
  induction args with
  | nil =>
      exact .pure (List.forall_mem_nil _)
  | cons arg rest inductionHypothesis =>
      obtain ⟨first, later⟩ := List.forall_mem_cons.mp each
      refine first.bind fun arg' argMember => ?_
      refine (inductionHypothesis later).bind fun rest' restMembers => .pure ?_
      have members := List.forall_mem_cons.mpr ⟨argMember, restMembers⟩
      cases arg' <;> cases rest' <;> exact members

theorem rebuildNode
    (agree : AgreeOn family table table' builder builder')
    {head : Expr}
    {args : List Expr}
    {head' : Option Expr}
    {args' : Option (List Expr)}
    (member : family (.apply head args))
    (headMember : family (head'.getD head))
    (argMembers : ∀ arg ∈ args'.getD args, family arg) :
    SameOutcome (fun rebuilt => family (rebuilt.getD (.apply head args)))
      (Expr.rebuild builder head args head' args')
      (Expr.rebuild builder' head args head' args') := by
  unfold Expr.rebuild
  split
  · exact .pure member
  · rw [map_eq_pure_bind, map_eq_pure_bind]
    exact (agree.sameOutcome_built headMember argMembers).bind
      fun built builtMember => .pure builtMember

/-- Walks over members are the same and end in members, if visits are and do. -/
theorem walk
    (agree : AgreeOn family table table' builder builder')
    (visits :
      ∀ node,
        family node →
          SameOutcome (fun replaced => family (replaced.getD node)) (visit node)
            (visit' node))
    {expr : Expr}
    (member : family expr) :
    SameOutcome (fun replaced => family (replaced.getD expr))
      (expr.walk builder visit) (expr.walk builder' visit') := by
  induction expr with
  | apply head args headHypothesis argsHypothesis =>
      refine (headHypothesis (agree.closed.head member)).bind
        fun head' headMember => ?_
      refine (walkArgs fun arg isArg =>
        argsHypothesis arg isArg (agree.closed.arg member isArg)).bind
          fun args' argMembers => ?_
      refine (agree.rebuildNode member headMember argMembers).bind
        fun rebuilt rebuiltMember => ?_
      refine (visits _ rebuiltMember).bind fun replaced nodeMember => .pure ?_
      rw [getD_orElse]
      exact nodeMember
  | _ =>
      exact visits _ member

end Walk

/-! ## Passes and fixed points -/

section Raw

variable (agree : AgreeOn family table table' table.construct table'.construct)
include agree

/-- Passes over members are the same and end in members. -/
theorem pass
    {rules : List Rule}
    (fromCatalogue : rules ⊆ catalogue)
    {expr : Expr}
    (member : family expr) :
    SameOutcome family (SymbolicAlgebra.pass table rules expr)
      (SymbolicAlgebra.pass table' rules expr) := by
  refine (agree.walk (fun node nodeMember => ?_) member).bind
    fun replaced replacedMember => .pure replacedMember
  obtain ⟨same, holds⟩ := agree.transformAll fromCatalogue nodeMember
  rw [← same]
  exact .pure holds

theorem settle?
    {rules : List Rule}
    (fromCatalogue : rules ⊆ catalogue)
    {expr : Expr}
    (member : family expr)
    (done ceiling : Nat) :
    Expr.settle? (SymbolicAlgebra.pass table rules) done expr ceiling =
      Expr.settle? (SymbolicAlgebra.pass table' rules) done expr ceiling := by
  induction ceiling generalizing expr done with
  | zero =>
      rfl
  | succ ceiling inductionHypothesis =>
      obtain ⟨same, holds⟩ := agree.pass fromCatalogue member
      rw [Expr.settle?, Expr.settle?, ← same]
      refine bind_congr_of_ok fun next passed => ?_
      rw [inductionHypothesis (holds next passed)]

/-- Simplifications of members are the same. -/
theorem fixedPoint
    {rules : List Rule}
    (fromCatalogue : rules ⊆ catalogue)
    {expr : Expr}
    (member : family expr)
    (ceiling : Nat) :
    SymbolicAlgebra.fixedPoint table rules ceiling expr =
      SymbolicAlgebra.fixedPoint table' rules ceiling expr := by
  rw [SymbolicAlgebra.fixedPoint, SymbolicAlgebra.fixedPoint,
    agree.settle? fromCatalogue member]

/-- So tables that agree about raw terms agree about terms in simplified form. -/
theorem simplified
    (ceiling : Nat) :
    AgreeOn family table table' ({ table, ceiling } : Workspace).apply
      ({ table := table', ceiling } : Workspace).apply where
  closed :=
    ClosedUnderBuilding.simplified agree.closed agree.literals
  literals :=
    agree.literals
  specOf?_eq :=
    agree.specOf?_eq
  built_eq := by
    intro head args headMember argMembers
    rw [Workspace.apply, Workspace.apply, ← agree.built_eq headMember argMembers]
    refine bind_congr_of_ok fun raw constructed => ?_
    have rawMember := agree.closed.built headMember argMembers constructed
    rw [Workspace.simplify, Workspace.simplify,
      agree.fixedPoint (List.Subset.refl catalogue) rawMember]

end Raw

end AgreeOn

end SymbolicAlgebra
