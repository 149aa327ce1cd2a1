import SymbolicAlgebra.Proofs.Closure.LikeTerms
import SymbolicAlgebra.Proofs.Visit

/-!
# Simplification inside a family

A family that raw construction does not leave is not left by the rules of the catalogue, so neither by a pass
nor by a whole simplification.  Combining like terms needs the literals of its coefficients for that.
-/

namespace SymbolicAlgebra

open SymbolicAlgebra.Expr

/-- The result is a member if the expression is. -/
def HandsOn
    (family : Expr → Prop)
    (expr result : Expr) : Prop :=
  family expr → family result

/-- The counterparts of items are members, if each relation to an item makes them so. -/
theorem forall_mem_of_forall₂
    {related : Expr → Expr → Prop}
    {family : Expr → Prop}
    {args args' : List Expr}
    (each : ∀ arg ∈ args, ∀ arg', related arg arg' → family arg')
    (pairs : List.Forall₂ related args args') :
    ∀ arg' ∈ args', family arg' := by
  induction pairs with
  | nil =>
      exact List.forall_mem_nil _
  | cons first _ inductionHypothesis =>
      obtain ⟨head, later⟩ := List.forall_mem_cons.mp each
      exact List.forall_mem_cons.mpr ⟨head _ first, inductionHypothesis later⟩

/-- Rules that keep a family, run one after the other, keep it together. -/
theorem member_of_visited
    {table : SymbolTable}
    {family : Expr → Prop}
    {rules : List Rule}
    {node : Expr}
    (keep :
      ∀ rule ∈ rules, rule.transform?.Keeps table table.construct family)
    (member : family node) :
    family (visited table rules node) := by
  induction rules generalizing node with
  | nil =>
      exact member
  | cons rule rest inductionHypothesis =>
      obtain ⟨first, later⟩ := List.forall_mem_cons.mp keep
      rw [visited_cons]
      refine inductionHypothesis later ?_
      unfold Transform.result
      cases transformed : rule.transform? table table.construct node with
      | none =>
          exact member
      | some replacement =>
          exact first member transformed

namespace ClosedUnderBuilding

variable {table : SymbolTable} {builder : Builder} {family : Expr → Prop}

/-! ## The catalogue -/

/-- All rules but the one for like terms keep every family that building does not leave. -/
theorem keeps_or
    (closed : ClosedUnderBuilding builder family)
    {rule : Rule}
    (member : rule ∈ catalogue) :
    rule.transform?.Keeps table builder family ∨
      rule = ⟨"fold-additions", Transform.foldAdditions?⟩ := by
  simp only [catalogue, List.mem_cons, List.not_mem_nil, or_false] at member
  rcases member with rfl | rfl | rfl | rfl | rfl | rfl | rfl | rfl | rfl | rfl |
    rfl | rfl
  · exact .inl closed.commutativeOrder
  · exact .inl closed.stripIdentities
  · exact .inl closed.evaluateNumeric
  · exact .inl closed.convertPowers
  · exact .inl closed.removeSubtraction
  · exact .inl closed.mulOverAdd
  · exact .inl closed.andOverOr
  · exact .inl closed.cancelDivision
  · exact .inr rfl
  · exact .inl closed.absorbZero
  · exact .inl closed.reassociate
  · exact .inl closed.bitIdentities

/-- All rules keep such a family if it has every literal. -/
theorem keeps
    (closed : ClosedUnderBuilding builder family)
    (literals : ∀ value, family (.ofFloat value))
    {rule : Rule}
    (member : rule ∈ catalogue) :
    rule.transform?.Keeps table builder family := by
  rcases closed.keeps_or member with kept | rfl
  · exact kept
  · intro node replacement nodeMember transformed
    exact closed.foldAdditions table nodeMember
      (.inl fun group _ => literals group.2) transformed

/-! ## Raw terms -/

section Raw

variable {expr result : Expr}

theorem respects
    (closed : ClosedUnderBuilding builder family) :
    builder.Respects (HandsOn family) where
  refl :=
    fun _ member => member
  trans :=
    fun first second member => second (first member)
  built headRelated argsRelated built member := by
    refine closed.built (headRelated (closed.head member)) ?_ built
    refine forall_mem_of_forall₂ (fun arg isArg arg' handsOn => ?_) argsRelated
    exact handsOn (closed.arg member isArg)

theorem rule_respects
    (closed : ClosedUnderBuilding table.construct family)
    (literals : ∀ value, family (.ofFloat value))
    {rule : Rule}
    (member : rule ∈ catalogue) :
    rule.Respects table (HandsOn family) :=
  fun transformed nodeMember =>
    closed.keeps literals member nodeMember transformed

/-- A fixed point of passes over a member is a member. -/
theorem fixedPoint
    (closed : ClosedUnderBuilding table.construct family)
    (literals : ∀ value, family (.ofFloat value))
    {ceiling passes : Nat}
    (member : family expr)
    (outcome : fixedPoint table catalogue ceiling expr = .ok (result, passes)) :
    family result :=
  related_fixedPoint closed.respects (fun _ => closed.rule_respects literals)
    outcome member

/-- Building terms in simplified form does not lead out of the family either. -/
theorem simplified
    {workspace : Workspace}
    (closed : ClosedUnderBuilding workspace.table.construct family)
    (literals : ∀ value, family (.ofFloat value)) :
    ClosedUnderBuilding workspace.apply family where
  toClosedUnderParts :=
    closed.toClosedUnderParts
  value :=
    closed.value
  sum :=
    closed.sum
  product :=
    closed.product
  power :=
    closed.power
  built headMember argMembers outcome := by
    obtain ⟨raw, constructed, handsOn⟩ :=
      exists_construct_of_apply closed.respects
        (fun _ => closed.rule_respects literals) outcome
    exact handsOn (closed.built headMember argMembers constructed)

end Raw

end ClosedUnderBuilding

/-! ## Walks -/

section Walk

variable {builder : Builder} {family : Expr → Prop}
  {visit : Expr → Except ExprError (Option Expr)}

/--
A walk ends in a family of which applications of members are members, whether as they are or built anew,
if it does so at the leaves and visits do not leave the family.
-/
theorem member_of_walk
    (applied :
      ∀ {head args},
        family head → (∀ arg ∈ args, family arg) → family (.apply head args))
    (built :
      ∀ {head args result},
        family head → (∀ arg ∈ args, family arg) →
          builder head args = .ok result → family result)
    (leaf :
      ∀ {expr replaced},
        expr.isLeaf = true → visit expr = .ok replaced →
          family (replaced.getD expr))
    (node :
      ∀ {expr replaced},
        family expr → visit expr = .ok replaced → family (replaced.getD expr))
    {expr : Expr}
    {replaced : Option Expr}
    (walked : expr.walk builder visit = .ok replaced) :
    family (replaced.getD expr) := by
  induction expr generalizing replaced with
  | apply head args headHypothesis argsHypothesis =>
      obtain ⟨head', args', rebuilt, replacement, headWalked, argsWalked,
        rebuiltOutcome, visited, same⟩ := exists_of_walk_apply walked
      rw [same]
      have headMember := headHypothesis headWalked
      have argsRelated :
          List.Forall₂ (fun _ arg' => family arg') args (args'.getD args) :=
        forall₂_of_walkArgs (fun arg isArg _ => argsHypothesis arg isArg) argsWalked
      have argMembers : ∀ arg ∈ args'.getD args, family arg :=
        forall_mem_of_forall₂ (fun _ _ _ member => member) argsRelated
      refine node ?_ visited
      rcases rebuild_eq_ok rebuiltOutcome with
        ⟨rfl, rfl, rfl⟩ | ⟨result, constructed, rfl⟩
      · exact applied headMember argMembers
      · exact built headMember argMembers constructed
  | _ =>
      exact leaf rfl walked

end Walk

end SymbolicAlgebra
