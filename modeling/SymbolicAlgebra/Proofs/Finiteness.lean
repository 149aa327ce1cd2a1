import SymbolicAlgebra.Proofs.Closure.Parts
import SymbolicAlgebra.Proofs.Rejection
import SymbolicAlgebra.Proofs.Substitution

/-!
# Finite literals

Evaluation and division by a literal check that their value is finite, and so do products and sums when they
are put together.  The coefficients of like terms are not checked when a factor that they share with another
term is pulled out, and this is the only way for a literal that is not finite to come about.
-/

namespace SymbolicAlgebra

open SymbolicAlgebra.Expr

/-- Every literal number in the expression is finite. -/
def Expr.FiniteLiterals
    (expr : Expr) : Prop :=
  expr.Everywhere fun part =>
    ∀ value, part = number value → value.isFinite = true

/-- The like terms of a sum have a total that is not finite, and two of them share a factor. -/
structure Transform.Overflows
    (sum : Expr) : Prop where
  infinite :
    ∃ group ∈ addendGroups sum, group.2.isFinite = false
  shared :
    (sharedFactor? (addendGroups sum) (addendGroups sum) 0).isSome = true

/--
A pass over an expression comes to a node, which is an application in it of which the parts stay as they are,
or what is built anew of the parts.
-/
inductive Visits
    (table : SymbolTable) : (expr node : Expr) → Prop where
  | kept
      {head : Expr}
      {args : List Expr}
      (headFixed : Passes table head head)
      (argsFixed : List.Forall₂ (Passes table) args args) :
      Visits table (.apply head args) (.apply head args)
  | rebuilt
      {head head' node : Expr}
      {args args' : List Expr}
      (headPasses : Passes table head head')
      (argsPass : List.Forall₂ (Passes table) args args')
      (constructed : table.construct head' args' = .ok node) :
      Visits table (.apply head args) node
  | head
      {head node : Expr}
      {args : List Expr}
      (visits : Visits table head node) :
      Visits table (.apply head args) node
  | arg
      {head arg node : Expr}
      {args : List Expr}
      (member : arg ∈ args)
      (visits : Visits table arg node) :
      Visits table (.apply head args) node

/-- Like terms overflow at a node, once the rules that come before have changed it. -/
def OverflowsAt
    (table : SymbolTable)
    (node : Expr) : Prop :=
  Transform.Overflows (visited table (catalogue.take 8) node)

/-- After some passes, of which the result is still finite, one comes to a node at which like terms overflow. -/
structure Overflows
    (table : SymbolTable)
    (expr reached node : Expr) : Prop where
  steps :
    Relation.ReflTransGen (Passes table) expr reached
  finite :
    reached.FiniteLiterals
  visits :
    Visits table reached node
  overflows :
    OverflowsAt table node

section Finiteness

variable {table : SymbolTable}

@[simp] theorem finiteLiterals_symbol
    (name : String) :
    (symbol name).FiniteLiterals :=
  Everywhere.of_isLeaf rfl nofun

@[simp] theorem finiteLiterals_apply
    {head : Expr}
    {args : List Expr} :
    (Expr.apply head args).FiniteLiterals ↔
      head.FiniteLiterals ∧ ∀ arg ∈ args, arg.FiniteLiterals := by
  unfold FiniteLiterals
  rw [Everywhere.apply_iff]
  exact and_iff_right nofun

variable {workspace : Workspace}

end Finiteness

end SymbolicAlgebra
