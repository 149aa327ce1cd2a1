import Mathlib.Data.List.Dedup
import Mathlib.Data.List.Induction
import Mathlib.Data.List.Nodup
import Mathlib.Data.List.Perm.Basic
import Mathlib.Data.List.Perm.Subperm
import SymbolicAlgebra.Proofs.Expr.Sorting
import SymbolicAlgebra.Rule.Bitwise

/-!
# The operands of a chain in canonical form

The operands of a commutative chain are sorted, and under an idempotent operator repeated ones collapse
first.  What comes out depends only on how often each operand occurs, or on which operands occur at all,
and bringing a part of the operands into this form beforehand makes no difference.  Under an operator that
undoes itself equal operands cancel in pairs, and what is left depends on which operands occur an odd number
of times.
-/

namespace SymbolicAlgebra

open SymbolicAlgebra.Expr

/-! ## Collapsing repetitions -/

namespace Transform

/-- Keeping the first of equal items is keeping the last of them in a reversed list. -/
theorem distinctItems_eq
    (items : List Expr) :
    distinctItems items = items.reverse.dedup.reverse := by
  induction items using List.reverseRecOn with
  | nil =>
      rfl
  | append_singleton items item inductionHypothesis =>
      rw [distinctItems, List.foldl_append, List.foldl_cons, List.foldl_nil]
      change (if (distinctItems items).contains item then distinctItems items
        else distinctItems items ++ [item]) = _
      rw [inductionHypothesis, List.reverse_append, List.reverse_singleton,
        List.singleton_append]
      by_cases member : item ∈ items
      · rw [List.dedup_cons_of_mem (List.mem_reverse.mpr member)]
        simp [member]
      · rw [List.dedup_cons_of_notMem (by simpa using member)]
        simp [member]

theorem mem_distinctItems
    {item : Expr}
    {items : List Expr} :
    item ∈ distinctItems items ↔ item ∈ items := by
  simp [distinctItems_eq]

theorem nodup_distinctItems
    (items : List Expr) :
    (distinctItems items).Nodup := by
  rw [distinctItems_eq, List.nodup_reverse]
  exact List.nodup_dedup _

/-- If nothing was dropped, then nothing has changed. -/
theorem distinctItems_eq_self
    {items : List Expr}
    (sameLength : (distinctItems items).length = items.length) :
    distinctItems items = items := by
  have sublist : (distinctItems items).Sublist items := by
    rw [distinctItems_eq]
    simpa using (List.dedup_sublist items.reverse).reverse
  exact sublist.eq_of_length sameLength

end Transform

/-! ## Cancelling in pairs -/

namespace Transform

/-- Removing an item by moving the last one there loses that item only. -/
theorem swapRemove_perm
    {items : List Expr}
    {index : Nat}
    (below : index < items.length) :
    (swapRemove items index).Perm (items.eraseIdx index) := by
  have nonempty : items ≠ [] :=
    List.ne_nil_of_length_pos (Nat.zero_lt_of_lt below)
  let last := items.getLast nonempty
  have lastFound : items.getLast? = some last :=
    List.getLast?_eq_some_getLast nonempty
  have nonempty' : items.set index last ≠ [] := by
    simpa using nonempty
  have sameLast : (items.set index last).getLast nonempty' = last := by
    rw [List.getLast_eq_getElem, List.getElem_set]
    split
    · rfl
    · simp only [last, List.getLast_eq_getElem, List.length_set]
  have shape : swapRemove items index ++ [last] = items.set index last := by
    have whole := List.dropLast_concat_getLast nonempty'
    rw [sameLast] at whole
    rw [swapRemove, lastFound]
    exact whole
  have moved : (last :: swapRemove items index).Perm (last :: items.eraseIdx index) := by
    refine (List.perm_append_singleton last _).symm.trans ?_
    rw [shape]
    exact List.set_perm_cons_eraseIdx below last
  exact moved.cons_inv

/-- One more item cancels against an equal one that is kept, or is kept itself. -/
theorem oddItems_concat_perm
    (items : List Expr)
    (item : Expr) :
    (oddItems (items ++ [item])).Perm
      (if item ∈ oddItems items then
        (oddItems items).erase item
      else
        item :: oddItems items) := by
  rw [oddItems, List.foldl_append, List.foldl_cons, List.foldl_nil]
  split
  · rename_i index found
    obtain ⟨below, same, -⟩ := List.findIdx?_eq_some_iff_getElem.mp found
    have same : (oddItems items)[index] = item :=
      eq_of_beq same
    have member : item ∈ oddItems items :=
      same ▸ List.getElem_mem below
    have removed :
        (item :: swapRemove (oddItems items) index).Perm (oddItems items) := by
      rw [← same]
      exact ((swapRemove_perm below).cons _).trans
        (List.getElem_cons_eraseIdx_perm below)
    rw [if_pos member]
    exact (removed.trans (List.perm_cons_erase member)).cons_inv
  · rename_i absent
    have notMember : item ∉ oddItems items := by
      intro member
      have equal := List.findIdx?_eq_none_iff.mp absent item member
      simp at equal
    rw [if_neg notMember]
    exact List.perm_append_singleton item _

/-- Cancelling in pairs keeps one of each item that occurs an odd number of times. -/
theorem count_oddItems
    (items : List Expr)
    (item : Expr) :
    (oddItems items).count item = items.count item % 2 := by
  induction items using List.reverseRecOn with
  | nil =>
      rfl
  | append_singleton items last inductionHypothesis =>
      rw [(oddItems_concat_perm items last).count_eq, List.count_append,
        List.count_singleton]
      by_cases same : last = item
      · subst same
        split
        · rename_i member
          have kept := List.count_pos_iff.mpr member
          rw [List.count_erase_self]
          simp only [beq_self_eq_true, if_true]
          omega
        · rename_i notMember
          have notKept := List.count_eq_zero.mpr notMember
          rw [List.count_cons_self]
          simp only [beq_self_eq_true, if_true]
          omega
      · have different : (last == item) = false := by
          simpa using same
        simp only [different, Bool.false_eq_true, if_false, Nat.add_zero]
        rw [← inductionHypothesis]
        split
        · exact List.count_erase_of_ne (Ne.symm same)
        · exact List.count_cons_of_ne same

/-- What is left after cancelling in pairs is among the items. -/
theorem oddItems_subperm
    (items : List Expr) :
    (oddItems items).Subperm items := by
  rw [List.subperm_ext_iff]
  intro item _
  rw [count_oddItems]
  exact Nat.mod_le _ _

theorem nodup_oddItems
    (items : List Expr) :
    (oddItems items).Nodup := by
  rw [List.nodup_iff_count_le_one]
  intro item
  rw [count_oddItems]
  omega

end Transform

/-! ## Canonical operands -/

/-- The operands that a chain ends up with. -/
def canonicalOperands
    (idempotent : Bool)
    (items : List Expr) : List Expr :=
  sortCanonically (if idempotent then Transform.distinctItems items else items)

theorem canonicalOperands_false
    (items : List Expr) :
    canonicalOperands false items = sortCanonically items :=
  rfl

theorem canonicalOperands_true
    (items : List Expr) :
    canonicalOperands true items =
      sortCanonically (Transform.distinctItems items) :=
  rfl

/-- The same operands occur, and equally often unless the operator is idempotent. -/
def SameOperands
    (idempotent : Bool)
    (items items' : List Expr) : Prop :=
  if idempotent then
    ∀ item, item ∈ items ↔ item ∈ items'
  else
    items.Perm items'

section Operands

variable {idempotent : Bool} {items items' later later' : List Expr}

theorem SameOperands.of_perm
    (permuted : items.Perm items') :
    SameOperands idempotent items items' := by
  unfold SameOperands
  split
  · intro item
    exact permuted.mem_iff
  · exact permuted

theorem SameOperands.append
    (same : SameOperands idempotent items items')
    (laterSame : SameOperands idempotent later later') :
    SameOperands idempotent (items ++ later) (items' ++ later') := by
  cases idempotent with
  | false =>
      exact List.Perm.append same laterSame
  | true =>
      intro item
      rw [List.mem_append, List.mem_append]
      exact or_congr (same item) (laterSame item)

theorem sameOperands_canonicalOperands
    (idempotent : Bool)
    (items : List Expr) :
    SameOperands idempotent (canonicalOperands idempotent items) items := by
  cases idempotent with
  | false =>
      exact sortBy_perm canonicalCompare items
  | true =>
      intro item
      exact (sortBy_perm canonicalCompare _).mem_iff.trans
        Transform.mem_distinctItems

theorem mem_canonicalOperands
    {item : Expr} :
    item ∈ canonicalOperands idempotent items ↔ item ∈ items := by
  have same := sameOperands_canonicalOperands idempotent items
  cases idempotent with
  | false =>
      exact List.Perm.mem_iff same
  | true =>
      exact same item

/-- The same operands come out in the same way. -/
theorem SameOperands.canonicalOperands_eq
    (same : SameOperands idempotent items items')
    (plain : ∀ item ∈ items, item.PlainlyNamed) :
    canonicalOperands idempotent items = canonicalOperands idempotent items' := by
  cases idempotent with
  | false =>
      exact canonicalCompare_linearOn_plainlyNamed.sortBy_eq_of_perm plain same
  | true =>
      apply canonicalCompare_linearOn_plainlyNamed.sortBy_eq_of_perm
      · intro item member
        exact plain item (Transform.mem_distinctItems.mp member)
      · apply (List.perm_ext_iff_of_nodup (Transform.nodup_distinctItems items)
          (Transform.nodup_distinctItems items')).mpr
        intro item
        rw [Transform.mem_distinctItems, Transform.mem_distinctItems]
        exact same item

theorem canonicalOperands_sorted
    (plain : ∀ item ∈ items, item.PlainlyNamed) :
    (canonicalOperands idempotent items).Pairwise
      (NotAfter canonicalCompare) := by
  apply canonicalCompare_linearOn_plainlyNamed.sortBy_pairwise
  intro item member
  apply plain
  cases idempotent with
  | false =>
      exact member
  | true =>
      exact Transform.mem_distinctItems.mp member

/-- Nothing is left to be done about canonical operands. -/
theorem canonicalOperands_canonicalOperands
    (plain : ∀ item ∈ items, item.PlainlyNamed) :
    canonicalOperands idempotent (canonicalOperands idempotent items) =
      canonicalOperands idempotent items := by
  apply (sameOperands_canonicalOperands idempotent items).canonicalOperands_eq
  intro item member
  exact plain item (mem_canonicalOperands.mp member)

theorem canonicalOperands_ne_nil
    (nonempty : items ≠ []) :
    canonicalOperands idempotent items ≠ [] := by
  obtain ⟨item, member⟩ := List.exists_mem_of_ne_nil items nonempty
  exact List.ne_nil_of_mem (mem_canonicalOperands.mpr member)

theorem nodup_canonicalOperands
    (items : List Expr) :
    (canonicalOperands true items).Nodup :=
  (sortBy_perm canonicalCompare _).nodup_iff.mpr
    (Transform.nodup_distinctItems items)

/-- Operands are canonical if they are sorted and none of them is one too many. -/
theorem canonicalOperands_eq_self_iff
    (plain : ∀ item ∈ items, item.PlainlyNamed) :
    canonicalOperands idempotent items = items ↔
      items.Pairwise (NotAfter canonicalCompare) ∧
        (idempotent = true → items.Nodup) := by
  constructor
  · intro canonical
    refine ⟨?_, ?_⟩
    · rw [← canonical]
      exact canonicalOperands_sorted plain
    · rintro rfl
      rw [← canonical]
      exact nodup_canonicalOperands items
  · rintro ⟨sorted, distinct⟩
    have permuted : (canonicalOperands idempotent items).Perm items := by
      cases idempotent with
      | false =>
          exact sortBy_perm canonicalCompare items
      | true =>
          apply (List.perm_ext_iff_of_nodup (nodup_canonicalOperands items)
            (distinct rfl)).mpr
          intro item
          exact mem_canonicalOperands
    apply permuted.eq_of_pairwise ?_ (canonicalOperands_sorted plain) sorted
    intro first second firstMember secondMember
    exact canonicalCompare_linearOn_plainlyNamed.notAfter_antisymm
      (plain first (mem_canonicalOperands.mp firstMember))
      (plain second secondMember)

/-- A part of canonical operands is canonical. -/
theorem canonicalOperands_eq_self_of_sublist
    (plain : ∀ item ∈ items, item.PlainlyNamed)
    (canonical : canonicalOperands idempotent items = items)
    (part : later.Sublist items) :
    canonicalOperands idempotent later = later := by
  obtain ⟨sorted, distinct⟩ := (canonicalOperands_eq_self_iff plain).mp canonical
  apply (canonicalOperands_eq_self_iff
    fun item member => plain item (part.mem member)).mpr
  exact ⟨sorted.sublist part, fun collapses => (distinct collapses).sublist part⟩

end Operands

end SymbolicAlgebra
