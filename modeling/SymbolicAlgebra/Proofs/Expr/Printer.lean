import SymbolicAlgebra.Expr.Printer
import SymbolicAlgebra.Proofs.Expr.Structure

/-!
# The shape of printed expressions

Printing before a rest is printing followed by the rest, and the text of every application ends with
a closing parenthesis.
-/

namespace SymbolicAlgebra.Expr

/-- Printing arguments before a rest is printing them followed by the rest. -/
theorem argCharsBefore_eq_append
    {format : NumberFormat}
    {args : List Expr}
    (each :
      ∀ arg ∈ args, ∀ rest,
        arg.charsBefore format rest = arg.chars format ++ rest)
    (rest : List Char) :
    argCharsBefore format args rest = argCharsBefore format args [] ++ rest := by
  induction args with
  | nil =>
      simp [argCharsBefore]
  | cons arg others inductionHypothesis =>
      simp only [List.forall_mem_cons] at each
      obtain ⟨first, later⟩ := each
      cases others with
      | nil =>
          simp [argCharsBefore, first rest, first []]
      | cons next others =>
          simp only [argCharsBefore]
          rw [first, first (',' :: argCharsBefore format (next :: others) []),
            inductionHypothesis later]
          simp

/-- Printing before a rest is printing followed by the rest. -/
theorem charsBefore_eq_append
    (format : NumberFormat)
    (expr : Expr)
    (rest : List Char) :
    expr.charsBefore format rest = expr.chars format ++ rest := by
  induction expr generalizing rest with
  | boolean value =>
      cases value <;> simp [chars, charsBefore]
  | apply head args headHypothesis argsHypothesis =>
      unfold chars charsBefore
      split
      · rename_i name lhs rhs
        have left := argsHypothesis lhs (by simp)
        have right := argsHypothesis rhs (by simp)
        split
        · rw [left, left (' ' :: _), right, right (')' :: [])]
          simp
        · rw [left, left (',' :: _), right, right (')' :: [])]
          simp
      · rw [headHypothesis, headHypothesis ('(' :: _),
          argCharsBefore_eq_append argsHypothesis,
          argCharsBefore_eq_append argsHypothesis (')' :: [])]
        simp
  | _ =>
      simp [chars, charsBefore]

/-- The text of an application ends with a closing parenthesis. -/
theorem chars_apply_eq_append
    (format : NumberFormat)
    (head : Expr)
    (args : List Expr) :
    ∃ front, (apply head args).chars format = front ++ [')'] := by
  unfold chars charsBefore
  split
  · rename_i name lhs rhs
    split
    · refine ⟨'(' :: (lhs.chars format ++
        (' ' :: (name.toList ++ ' ' :: rhs.chars format))), ?_⟩
      rw [charsBefore_eq_append format lhs, charsBefore_eq_append format rhs]
      simp
    · refine ⟨name.toList ++
        '(' :: (lhs.chars format ++ ',' :: rhs.chars format), ?_⟩
      rw [charsBefore_eq_append format lhs, charsBefore_eq_append format rhs]
      simp
  · refine ⟨head.chars format ++ '(' :: argCharsBefore format args [], ?_⟩
    rw [charsBefore_eq_append format head, argCharsBefore_eq_append]
    · simp
    · intro arg _ rest
      exact charsBefore_eq_append format arg rest

end SymbolicAlgebra.Expr
