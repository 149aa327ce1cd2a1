import Mathlib.Data.List.Chain
import SymbolicAlgebra.Proofs.Construction
import SymbolicAlgebra.Proofs.Expr.Sorting
import SymbolicAlgebra.Proofs.Simplification

/-!
# Right-nested chains

A right-nested chain is determined by its operands.  Building a chain from sorted operands gives the
right-nested one, as long as no application in it is evaluated or absorbed: the operands are in order
already, and the chain of the later ones comes last.
-/

namespace SymbolicAlgebra

open SymbolicAlgebra.Expr

theorem Chain.flatten_pair
    (op lhs rhs : Expr) :
    Chain.flatten op (.apply op [lhs, rhs]) =
      Chain.flatten op lhs ++ Chain.flatten op rhs := by
  rw [Chain.flatten_apply, List.flatMap_cons, List.flatMap_singleton]

/-- The right-nested chain of operands. -/
def nested
    (op first : Expr) : (rest : List Expr) → Expr
  | [] => first
  | second :: rest => .apply op [first, nested op second rest]

section Nested

variable {op expr first : Expr} {rest : List Expr}

/-- A right-nested chain is the chain of its operands. -/
theorem exists_nested_of_isRightNested
    (isNested : Chain.isRightNested op expr = true) :
    ∃ first rest,
      Chain.flatten op expr = first :: rest ∧ expr = nested op first rest := by
  induction expr with
  | apply head args headHypothesis argsHypothesis =>
      by_cases same : head = op
      · subst same
        match args with
        | [lhs, rhs] =>
            simp only [Chain.isRightNested, if_true, Bool.and_eq_true,
              Bool.not_eq_true'] at isNested
            obtain ⟨single, rhsNested⟩ := isNested
            obtain ⟨first, rest, flat, shape⟩ :=
              argsHypothesis rhs (by simp) rhsNested
            refine ⟨lhs, first :: rest, ?_, by rw [nested, ← shape]⟩
            rw [Chain.flatten_pair, Chain.flatten_of_not_isApplyOf single, flat]
            rfl
        | [] | [_] | _ :: _ :: _ :: _ =>
            simp [Chain.isRightNested] at isNested
      · refine ⟨_, [], Chain.flatten_of_not_isApplyOf ?_, rfl⟩
        simpa [isApplyOf] using same
  | _ =>
      exact ⟨_, [], rfl, rfl⟩

/-- Right-nested chains of the same operands are the same. -/
theorem eq_of_flatten_eq
    {expr' : Expr}
    (isNested : Chain.isRightNested op expr = true)
    (isNested' : Chain.isRightNested op expr' = true)
    (same : Chain.flatten op expr = Chain.flatten op expr') :
    expr = expr' := by
  obtain ⟨first, rest, flat, rfl⟩ := exists_nested_of_isRightNested isNested
  obtain ⟨first', rest', flat', rfl⟩ :=
    exists_nested_of_isRightNested isNested'
  rw [flat, flat'] at same
  cases same
  rfl

theorem isRightNested_of_not_isApplyOf
    (other : expr.isApplyOf op = false) :
    Chain.isRightNested op expr = true := by
  cases expr with
  | apply head args =>
      have different : head ≠ op := by
        simpa [isApplyOf] using other
      unfold Chain.isRightNested
      exact if_neg different
  | _ =>
      rfl

/-- The chain of operands that are no chains themselves is right-nested and has these operands. -/
theorem flatten_nested
    (singles : ∀ item ∈ first :: rest, item.isApplyOf op = false) :
    Chain.flatten op (nested op first rest) = first :: rest ∧
      Chain.isRightNested op (nested op first rest) = true := by
  induction rest generalizing first with
  | nil =>
      have single := singles first (by simp)
      exact ⟨Chain.flatten_of_not_isApplyOf single,
        isRightNested_of_not_isApplyOf single⟩
  | cons second rest inductionHypothesis =>
      obtain ⟨single, others⟩ := List.forall_mem_cons.mp singles
      obtain ⟨flat, isNested⟩ := inductionHypothesis others
      constructor
      · rw [nested, Chain.flatten_pair, flat,
          Chain.flatten_of_not_isApplyOf single]
        rfl
      · simp [nested, Chain.isRightNested, single, isNested]

/-- The chain of the later operands does not belong before the first one. -/
theorem operandCompare_nested
    {second : Expr}
    (single : first.isApplyOf op = false)
    (secondSingle : second.isApplyOf op = false)
    (inOrder : NotAfter canonicalCompare first second) :
    operandCompare op (nested op second rest) first ≠ .lt := by
  cases rest with
  | nil =>
      rw [nested, operandCompare, single, secondSingle, canonicalCompare_swap]
      unfold NotAfter at inOrder
      cases order : canonicalCompare first second <;>
        simp [order] at inOrder ⊢
  | cons third rest =>
      have chained :
          (nested op second (third :: rest)).isApplyOf op = true :=
        decide_eq_true rfl
      rw [operandCompare, single, chained]
      change Ordering.gt ≠ .lt
      decide

/-- Building the chain of operands nests them in this order, if every application is stored as it is. -/
theorem build_nested
    {table : SymbolTable}
    (stored :
      ∀ {lhs rhs later},
        lhs :: rhs :: later <:+ first :: rest →
          table.construct op [lhs, nested op rhs later] =
            .ok (.apply op [lhs, nested op rhs later])) :
    Chain.build table.construct op (first :: rest) =
      .ok (nested op first rest) := by
  induction rest generalizing first with
  | nil =>
      rfl
  | cons second rest inductionHypothesis =>
      have built :=
        inductionHypothesis fun suffix =>
          stored (suffix.trans (List.suffix_cons _ _))
      rw [Chain.build, built, ok_bind, stored (List.suffix_refl _), nested]

/--
So it does if every application stores its operands in order, and every operand may stand before the one
that follows it.
-/
theorem build_of_isChain
    {table : SymbolTable}
    (singles : ∀ item ∈ first :: rest, item.isApplyOf op = false)
    (inOrder : (first :: rest).IsChain (NotAfter canonicalCompare))
    (stored :
      ∀ {lhs rhs later},
        lhs :: rhs :: later <:+ first :: rest →
          table.construct op [lhs, nested op rhs later] =
            .ok (.apply op
              (sortBy (operandCompare op) [lhs, nested op rhs later]))) :
    Chain.build table.construct op (first :: rest) =
      .ok (nested op first rest) := by
  apply build_nested
  intro lhs rhs later suffix
  rw [stored suffix, sortBy_pair]
  exact operandCompare_nested (singles lhs (suffix.mem List.mem_cons_self))
    (singles rhs (suffix.mem (by simp)))
    (List.isChain_cons_cons.mp (inOrder.suffix suffix)).1

/-- Building the chain of sorted operands nests them in this order, if every application is stored. -/
theorem build_of_sorted
    {table : SymbolTable}
    (singles : ∀ item ∈ first :: rest, item.isApplyOf op = false)
    (sorted : (first :: rest).Pairwise (NotAfter canonicalCompare))
    (stored :
      ∀ {lhs rhs later},
        lhs :: rhs :: later <:+ first :: rest →
          table.construct op [lhs, nested op rhs later] =
            .ok (.apply op
              (sortBy (operandCompare op) [lhs, nested op rhs later]))) :
    Chain.build table.construct op (first :: rest) =
      .ok (nested op first rest) :=
  build_of_isChain singles sorted.isChain stored

/-- With at most one literal among the operands, no part of their chain is an application to two. -/
theorem unevaluated_of_suffix
    {lhs rhs : Expr}
    {later items : List Expr}
    (suffix : lhs :: rhs :: later <:+ items)
    (oneLiteral : (items.filter isNumber).length ≤ 1) :
    (lhs.isNumber && (nested op rhs later).isNumber) = false := by
  cases later with
  | nil =>
      have fewLiterals :=
        Nat.le_trans (suffix.sublist.filter isNumber).length_le oneLiteral
      rw [nested, Bool.and_eq_false_iff]
      by_contra both
      rw [not_or, Bool.not_eq_false, Bool.not_eq_false] at both
      simp [both.1, both.2] at fewLiterals
  | cons third later =>
      exact Bool.and_false _

/-- The expression is the right-nested chain of the given operands. -/
structure IsChainOf
    (op : Expr)
    (items : List Expr)
    (expr : Expr) : Prop where
  flatten_eq :
    Chain.flatten op expr = items
  isNested :
    Chain.isRightNested op expr = true

theorem IsChainOf.unique
    {items : List Expr}
    {expr' : Expr}
    (isChain : IsChainOf op items expr)
    (isChain' : IsChainOf op items expr') :
    expr = expr' :=
  eq_of_flatten_eq isChain.isNested isChain'.isNested
    (isChain.flatten_eq.trans isChain'.flatten_eq.symm)

theorem isChainOf_nested
    (singles : ∀ item ∈ first :: rest, item.isApplyOf op = false) :
    IsChainOf op (first :: rest) (nested op first rest) :=
  ⟨(flatten_nested singles).1, (flatten_nested singles).2⟩

/-- Anything but an application of the operator is a chain of one. -/
theorem isChainOf_singleton
    (single : expr.isApplyOf op = false) :
    IsChainOf op [expr] expr :=
  ⟨Chain.flatten_of_not_isApplyOf single, isRightNested_of_not_isApplyOf single⟩

end Nested

end SymbolicAlgebra
