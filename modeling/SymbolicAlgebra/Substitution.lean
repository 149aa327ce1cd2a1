import SymbolicAlgebra.Matching
import SymbolicAlgebra.Simplification

/-!
# Substitution

A substitution replaces every part of an expression that is one of its keys.  Parts are replaced
first; the rebuilt node is then looked up itself, so with `x ↦ y` and `f(y) ↦ z` the expression
`f(x)` becomes `z`.
-/

namespace SymbolicAlgebra

/-- A finite map from expressions to expressions. -/
structure Substitution where
  entries : List (Expr × Expr) := []
deriving DecidableEq

namespace Substitution

/-- The value of a key. -/
def find?
    (substitution : Substitution)
    (key : Expr) : Option Expr :=
  substitution.entries.lookup key

/-- Gives a key a value, in place of an earlier one. -/
def insert
    (substitution : Substitution)
    (key value : Expr) : Substitution :=
  ⟨(key, value) :: substitution.entries.filter (fun entry => entry.1 != key)⟩

/-- A key that was given a value has it; all other keys keep theirs. -/
theorem find?_insert
    (substitution : Substitution)
    (key value other : Expr) :
    (substitution.insert key value).find? other =
      if other = key then some value else substitution.find? other := by
  by_cases same : other = key
  · subst same
    simp [insert, find?]
  · have different : (other == key) = false := by simpa using same
    simp only [insert, find?, List.lookup_cons, different, same, if_false]
    induction substitution.entries with
    | nil => rfl
    | cons entry rest inductionHypothesis =>
      obtain ⟨entryKey, entryValue⟩ := entry
      by_cases dropped : entryKey = key
      · simp [dropped, List.lookup_cons, different, inductionHypothesis]
      · by_cases found : other = entryKey <;>
          simp [dropped, List.lookup_cons, found, inductionHypothesis]

/-- The substitution with the given entries; of equal keys the last one counts. -/
def ofList
    (entries : List (Expr × Expr)) : Substitution :=
  entries.foldl (fun substitution entry => substitution.insert entry.1 entry.2) {}

/-- Of the entries with a key the last one counts. -/
theorem find?_ofList
    (entries : List (Expr × Expr))
    (key : Expr) :
    (ofList entries).find? key = entries.reverse.lookup key := by
  have inserted
      (substitution : Substitution) :
      (entries.foldl
          (fun substitution entry => substitution.insert entry.1 entry.2)
          substitution).find? key =
        (entries.reverse.lookup key).or (substitution.find? key) := by
    induction entries generalizing substitution with
    | nil => rfl
    | cons entry rest inductionHypothesis =>
      obtain ⟨entryKey, entryValue⟩ := entry
      rw [List.foldl_cons, inductionHypothesis, find?_insert, List.reverse_cons,
        List.lookup_append, Option.or_assoc]
      by_cases same : key = entryKey
      · simp [same]
      · have different : (key == entryKey) = false := by simpa using same
        simp [List.lookup_cons, same, different]
  rw [ofList, inserted]
  simp [find?]

/-- What a node is replaced by.  A wildcard that stands for itself counts as untouched. -/
def replacement?
    (substitution : Substitution)
    (node : Expr) : Option Expr :=
  match substitution.find? node with
  | some value => if node.wildcard?.isSome && value == node then none else some value
  | none => none

end Substitution

/-- The bindings of a match as a substitution. -/
def Bindings.toSubstitution
    (bindings : Bindings) : Substitution :=
  ⟨bindings.entries.map fun entry => (.wildcard entry.1, entry.2)⟩

namespace Workspace

/-- Replaces the keys of a substitution in an expression. -/
def substitute
    (workspace : Workspace)
    (substitution : Substitution)
    (expr : Expr) : Except ExprError Expr := do
  let replaced ← expr.walk workspace.apply fun node => pure (substitution.replacement? node)
  pure (replaced.getD expr)

/-- Replaces the bound wildcards of a template by their values. -/
def instantiate
    (workspace : Workspace)
    (bindings : Bindings)
    (template : Expr) : Except ExprError Expr :=
  workspace.substitute bindings.toSubstitution template

end Workspace

end SymbolicAlgebra
