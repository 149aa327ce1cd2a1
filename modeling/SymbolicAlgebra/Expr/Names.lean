import SymbolicAlgebra.Expr.Basic
import SymbolicAlgebra.Text.Blank

/-!
# Symbols and wildcards by name

Several symbols or wildcards at once, named by the words of a text, and how wildcards are written
when they have to be told apart.
-/

namespace SymbolicAlgebra

namespace Expr

/-- The symbols named by the words of a text. -/
def symbols
    (names : String) : List Expr :=
  (words names).map symbol

end Expr

namespace Wildcard

/-- New wildcards with the given names; `next` is the first identity that is free. -/
def fresh
    (next : Nat) : (names : List String) → List Wildcard
  | [] => []
  | name :: rest => ⟨next, name⟩ :: fresh (next + 1) rest

/-- An identity as it is displayed. -/
def displayId
    (id : Nat) : String :=
  "?" ++ toString id

/-- An identity as it is written for diagnosis. -/
def describeId
    (id : Nat) : String :=
  "Wild(" ++ toString id ++ ")"

/-- A wildcard as it is written for diagnosis: its name and its identity. -/
def describe
    (wildcard : Wildcard) : String :=
  wildcard.name ++ displayId wildcard.id

/-- New wildcards have different identities. -/
theorem fresh_nodup
    (next : Nat)
    (names : List String) :
    ((fresh next names).map (·.id)).Nodup ∧
      ∀ wildcard ∈ fresh next names, next ≤ wildcard.id := by
  induction names generalizing next with
  | nil => simp [fresh]
  | cons name rest inductionHypothesis =>
    obtain ⟨distinct, above⟩ := inductionHypothesis (next + 1)
    refine ⟨?_, ?_⟩
    · simp only [fresh, List.map_cons, List.nodup_cons, List.mem_map, not_exists, not_and]
      refine ⟨fun wildcard member same => ?_, distinct⟩
      have := above wildcard member
      omega
    · intro wildcard member
      rcases List.mem_cons.mp member with rfl | later
      · exact Nat.le_refl _
      · have := above wildcard later
        omega

end Wildcard

end SymbolicAlgebra
