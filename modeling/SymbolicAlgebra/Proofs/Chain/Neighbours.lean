import Mathlib.Data.List.Chain
import SymbolicAlgebra.Proofs.Chain.Nested
import SymbolicAlgebra.Proofs.Chain.Operands
import SymbolicAlgebra.Proofs.Expr.Linearity

/-!
# Neighbours in order

The canonical order need not be transitive once wildcards print like other expressions.  Sorting still puts
neighbours in order, leaves a list alone whose neighbours are in order, and puts repeated items behind the
first of them.
-/

namespace SymbolicAlgebra

open SymbolicAlgebra.Expr

/-- Every item may stand before the one that follows it. -/
def NeighboursInOrder
    (items : List Expr) : Prop :=
  items.IsChain (NotAfter canonicalCompare)

instance
    {items : List Expr} :
    Decidable (NeighboursInOrder items) :=
  inferInstanceAs (Decidable (items.IsChain (NotAfter canonicalCompare)))

theorem notAfter_iff
    {first second : Expr} :
    NotAfter canonicalCompare first second ↔
      canonicalCompare second first ≠ .lt := by
  rw [NotAfter, canonicalCompare_swap first second]
  cases canonicalCompare first second <;> decide

section Sorting

variable {item : Expr} {items sorted more : List Expr}

/-- Inserting an item leaves the neighbours of a descending list in order. -/
theorem insertDescending_isChain
    (descending :
      sorted.IsChain fun first second => NotAfter canonicalCompare second first) :
    (insertDescending canonicalCompare item sorted).IsChain
      fun first second => NotAfter canonicalCompare second first := by
  induction sorted with
  | nil =>
      exact .singleton item
  | cons greatest rest inductionHypothesis =>
      unfold insertDescending
      split
      · rename_i before
        have behind : NotAfter canonicalCompare item greatest := by
          rw [NotAfter, before]
          rfl
        have inserted := inductionHypothesis descending.tail
        cases rest with
        | nil =>
            exact .cons_cons behind (.singleton item)
        | cons second rest =>
            have ordered := (List.isChain_cons_cons.mp descending).1
            unfold insertDescending at inserted ⊢
            split
            · rename_i later
              rw [if_pos later] at inserted
              exact .cons_cons ordered inserted
            · rename_i here
              rw [if_neg here] at inserted
              exact .cons_cons behind inserted
      · rename_i here
        exact .cons_cons (notAfter_iff.mpr here) descending

/-- Sorting puts neighbours in order. -/
theorem neighboursInOrder_sortCanonically
    (items : List Expr) :
    NeighboursInOrder (sortCanonically items) := by
  have inserted
      (sorted : List Expr)
      (descending :
        sorted.IsChain fun first second =>
          NotAfter canonicalCompare second first) :
      (items.foldl
          (fun sorted item => insertDescending canonicalCompare item sorted)
          sorted).IsChain
        fun first second => NotAfter canonicalCompare second first := by
    induction items generalizing sorted with
    | nil =>
        exact descending
    | cons item rest inductionHypothesis =>
        exact inductionHypothesis _ (insertDescending_isChain descending)
  rw [NeighboursInOrder, sortCanonically, sortBy, List.isChain_reverse]
  exact inserted [] .nil

/-- A list with neighbours in order is sorted already. -/
theorem NeighboursInOrder.sortCanonically_eq
    (inOrder : NeighboursInOrder items) :
    sortCanonically items = items := by
  have inserted
      (sorted : List Expr)
      (chained : NeighboursInOrder (sorted.reverse ++ items)) :
      items.foldl
          (fun sorted item => insertDescending canonicalCompare item sorted)
          sorted =
        items.reverse ++ sorted := by
    induction items generalizing sorted with
    | nil =>
        rfl
    | cons item rest inductionHypothesis =>
        have first :
            insertDescending canonicalCompare item sorted = item :: sorted := by
          cases sorted with
          | nil =>
              rfl
          | cons greatest smaller =>
              rw [List.reverse_cons, List.append_assoc, List.singleton_append]
                at chained
              have inOrder := (List.isChain_append_cons_cons.mp chained).2.1
              rw [insertDescending, if_neg (notAfter_iff.mp inOrder)]
        have later := inductionHypothesis inOrder.tail (item :: sorted) (by
          simpa using chained)
        rw [List.foldl_cons, first, later]
        simp
  rw [sortCanonically, sortBy, inserted [] inOrder]
  simp

/-- Inserting an item again leaves the last of equal items where they are. -/
theorem dedup_insertDescending
    (member : item ∈ sorted) :
    (insertDescending canonicalCompare item sorted).dedup = sorted.dedup := by
  induction sorted with
  | nil =>
      cases member
  | cons greatest rest inductionHypothesis =>
      unfold insertDescending
      split
      · rename_i before
        have different : item ≠ greatest := by
          rintro rfl
          rw [canonicalCompare_self] at before
          cases before
        have inRest : item ∈ rest :=
          (List.mem_cons.mp member).resolve_left different
        have sameMembers :
            greatest ∈ insertDescending canonicalCompare item rest ↔
              greatest ∈ rest := by
          rw [(insertDescending_perm canonicalCompare item rest).mem_iff,
            List.mem_cons]
          exact or_iff_right different.symm
        by_cases repeated : greatest ∈ rest
        · rw [List.dedup_cons_of_mem repeated,
            List.dedup_cons_of_mem (sameMembers.mpr repeated),
            inductionHypothesis inRest]
        · rw [List.dedup_cons_of_notMem repeated,
            List.dedup_cons_of_notMem (mt sameMembers.mp repeated),
            inductionHypothesis inRest]
      · exact List.dedup_cons_of_mem member

/-- Items that are there already come behind the first of them when they are sorted in. -/
theorem distinctItems_sortCanonically_append
    (among : ∀ item ∈ more, item ∈ items) :
    Transform.distinctItems (sortCanonically (items ++ more)) =
      Transform.distinctItems (sortCanonically items) := by
  have inserted
      (sorted : List Expr)
      (members : ∀ item ∈ more, item ∈ sorted) :
      (more.foldl
          (fun sorted item => insertDescending canonicalCompare item sorted)
          sorted).dedup =
        sorted.dedup := by
    induction more generalizing sorted with
    | nil =>
        rfl
    | cons item rest inductionHypothesis =>
        obtain ⟨member, others⟩ := List.forall_mem_cons.mp members
        rw [List.foldl_cons,
          inductionHypothesis (List.forall_mem_cons.mp among).2,
          dedup_insertDescending member]
        intro other isOther
        exact (insertDescending_perm _ _ _).mem_iff.mpr
          (List.mem_cons_of_mem _ (others other isOther))
  simp only [sortCanonically, sortBy, List.foldl_append,
    Transform.distinctItems_eq, List.reverse_reverse]
  rw [inserted]
  intro item isMore
  have sorted := (sortBy_perm canonicalCompare items).mem_iff.mpr
    (among item isMore)
  rwa [sortBy, List.mem_reverse] at sorted

end Sorting

end SymbolicAlgebra
