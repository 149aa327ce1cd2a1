import Mathlib.Control.Monad.Basic
import SymbolicAlgebra.Proofs.Expr.Structure
import SymbolicAlgebra.Session

/-!
# Substitution for symbols

Simultaneous replacement looks every leaf up once and builds the applications anew in which something
was replaced.  Substitution for symbols does the same with one addition: an application that collapses
into a key when it is built anew is replaced by the value of that key.  Where no application
collapses in this way, substitution is simultaneous.
-/

namespace SymbolicAlgebra

namespace Expr

section Replacement

variable {m : Type → Type} [Monad m]

mutual

/--
Replaces every leaf, heads included, once by its value and builds the applications anew in which
something was replaced: `none` if nothing was.  What is built becomes what `settle` makes of it.
-/
def replaceLeaves
    (build : Expr → List Expr → m Expr)
    (value? : Expr → Option Expr)
    (settle : Expr → Expr) : Expr → m (Option Expr)
  | apply head args => do
    let head' ← replaceLeaves build value? settle head
    let args' ← replaceLeavesOfArgs build value? settle args
    let rebuilt ← rebuild build head args head' args'
    pure (rebuilt.map settle)
  | leaf => pure (value? leaf)

/-- Replaces the leaves of all arguments, from left to right. -/
def replaceLeavesOfArgs
    (build : Expr → List Expr → m Expr)
    (value? : Expr → Option Expr)
    (settle : Expr → Expr) : List Expr → m (Option (List Expr))
  | [] => pure none
  | arg :: rest => do
    let arg' ← replaceLeaves build value? settle arg
    let rest' ← replaceLeavesOfArgs build value? settle rest
    pure <|
      if arg'.isNone && rest'.isNone then
        none
      else
        some (arg'.getD arg :: rest'.getD rest)

end

end Replacement

end Expr

namespace Substitution

/-- All keys are symbols. -/
def HasSymbolKeys
    (substitution : Substitution) : Prop :=
  ∀ entry ∈ substitution.entries, entry.1.symbol?.isSome

/-- Keys that have a value are among the entries. -/
theorem isSome_symbol?_of_find?
    {substitution : Substitution}
    (symbolKeys : substitution.HasSymbolKeys)
    {key value : Expr}
    (found : substitution.find? key = some value) :
    key.symbol?.isSome := by
  obtain ⟨earlier, later, shape, -⟩ := List.lookup_eq_some_iff.mp found
  apply symbolKeys (key, value)
  simp [shape]

/-- What a node is replaced by is one of the values. -/
theorem exists_entry_of_replacement?
    {substitution : Substitution}
    {node value : Expr}
    (replaces : substitution.replacement? node = some value) :
    ∃ key, (key, value) ∈ substitution.entries := by
  unfold replacement? at replaces
  split at replaces
  · rename_i value' found
    split at replaces
    · cases replaces
    · cases replaces
      obtain ⟨earlier, later, shape, -⟩ := List.lookup_eq_some_iff.mp found
      exact ⟨node, by simp [shape]⟩
  · cases replaces

/-- No key is a wildcard, so every value counts as a replacement. -/
theorem replacement?_eq_find?
    {substitution : Substitution}
    (symbolKeys : substitution.HasSymbolKeys)
    (node : Expr) :
    substitution.replacement? node = substitution.find? node := by
  unfold replacement?
  cases found : substitution.find? node with
  | none =>
      rfl
  | some value =>
      have symbolic := isSome_symbol?_of_find? symbolKeys found
      cases node <;> simp_all [Expr.symbol?, Expr.wildcard?]

section Walk

variable {m : Type → Type} [Monad m] [LawfulMonad m]
variable {build : Expr → List Expr → m Expr}

end Walk

/--
Some application in the expression is built anew by simultaneous replacement and comes out as a key
that stands for something else.
-/
def Collapses
    (substitution : Substitution)
    (build : Builder)
    (expr : Expr) : Prop :=
  ∃ head args built value,
    expr.contains (.apply head args) = true ∧
      (Expr.apply head args).replaceLeaves build substitution.find? id =
          .ok (some built) ∧
        substitution.find? built = some value ∧ value ≠ built

end Substitution

end SymbolicAlgebra
