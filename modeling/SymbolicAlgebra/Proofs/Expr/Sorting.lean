import SymbolicAlgebra.Proofs.Expr.Order

/-!
# Sorting by a linear order

Sorting puts items in ascending order.  Under an order that is linear on them there is only one such
list, so the order in which the items arrive does not matter.
-/

namespace SymbolicAlgebra.Expr

/-- An order ranks the expressions of a kind linearly. -/
structure LinearOn
    (kind : Expr → Prop)
    (order : Expr → Expr → Ordering) : Prop where
  swap :
    ∀ first second, order second first = (order first second).swap
  eq_of_draw :
    ∀ {first second},
      kind first → kind second → order first second = .eq → first = second
  composes :
    ∀ {first second third},
      kind first → kind second → kind third →
        Composes (order first second) (order second third)
          (order first third)

/-- The canonical order is linear on a family whose wildcards print like nothing else in it. -/
theorem WildcardsApart.canonicalCompare_linearOn
    {family : Expr → Prop}
    (apart : WildcardsApart family)
    (closed : ClosedUnderParts family) :
    LinearOn family canonicalCompare where
  swap :=
    canonicalCompare_swap
  eq_of_draw :=
    apart.eq_of_canonicalCompare closed
  composes :=
    apart.composes_canonicalCompare closed

/-- It is linear on plainly named expressions. -/
theorem canonicalCompare_linearOn_plainlyNamed :
    LinearOn PlainlyNamed canonicalCompare :=
  wildcardsApart_plainlyNamed.canonicalCompare_linearOn
    closedUnderParts_plainlyNamed

/-- So is the order of operands, whatever the operator. -/
theorem operandCompare_linearOn
    (op : Expr) :
    LinearOn PlainlyNamed (operandCompare op) where
  swap first second := by
    simp only [operandCompare, Ordering.swap_then, Nat.compare_swap,
      canonicalCompare_swap first second]
  eq_of_draw firstPlain secondPlain draw := by
    simp only [operandCompare, Ordering.then_eq_eq] at draw
    exact canonicalCompare_linearOn_plainlyNamed.eq_of_draw firstPlain
      secondPlain draw.2
  composes firstPlain secondPlain thirdPlain :=
    (Composes.compare _ _ _).then fun _ _ =>
      canonicalCompare_linearOn_plainlyNamed.composes firstPlain secondPlain
        thirdPlain

/-- The first item may stand before the second one. -/
def NotAfter
    (order : Expr → Expr → Ordering)
    (first second : Expr) : Prop :=
  (order first second).isLE

instance
    {order : Expr → Expr → Ordering}
    {first second : Expr} :
    Decidable (NotAfter order first second) :=
  inferInstanceAs (Decidable ((order first second).isLE = true))

namespace LinearOn

variable {kind : Expr → Prop} {order : Expr → Expr → Ordering}

/-- Of two items one may stand before the other. -/
theorem notAfter_of_not
    (linear : LinearOn kind order)
    {first second : Expr}
    (not : order first second ≠ .lt) :
    NotAfter order second first := by
  unfold NotAfter
  rw [linear.swap first second]
  cases outcome : order first second with
  | lt =>
      exact (not outcome).elim
  | _ =>
      rfl

theorem notAfter_trans
    (linear : LinearOn kind order)
    {first second third : Expr}
    (firstKind : kind first)
    (secondKind : kind second)
    (thirdKind : kind third)
    (former : NotAfter order first second)
    (latter : NotAfter order second third) :
    NotAfter order first third := by
  unfold NotAfter at former latter ⊢
  rw [linear.composes firstKind secondKind thirdKind former latter,
    Ordering.isLE_then_iff_and]
  exact ⟨former, .inr latter⟩

/-- Items that may stand before each other are the same. -/
theorem notAfter_antisymm
    (linear : LinearOn kind order)
    {first second : Expr}
    (firstKind : kind first)
    (secondKind : kind second)
    (former : NotAfter order first second)
    (latter : NotAfter order second first) :
    first = second := by
  apply linear.eq_of_draw firstKind secondKind
  unfold NotAfter at former latter
  rw [linear.swap first second] at latter
  cases outcome : order first second with
  | eq =>
      rfl
  | lt =>
      simp [outcome] at latter
  | gt =>
      simp [outcome] at former

/-- Inserting into a descending list gives a descending list. -/
theorem insertDescending_pairwise
    (linear : LinearOn kind order)
    {item : Expr}
    {sorted : List Expr}
    (itemKind : kind item)
    (sortedKind : ∀ other ∈ sorted, kind other)
    (descending :
      sorted.Pairwise fun first second => NotAfter order second first) :
    (insertDescending order item sorted).Pairwise
      fun first second => NotAfter order second first := by
  induction sorted with
  | nil =>
      simp [insertDescending]
  | cons greatest rest inductionHypothesis =>
      obtain ⟨greatestKind, restKind⟩ := List.forall_mem_cons.mp sortedKind
      obtain ⟨below, restDescending⟩ := List.pairwise_cons.mp descending
      unfold insertDescending
      split
      · rename_i smaller
        refine List.pairwise_cons.mpr
          ⟨?_, inductionHypothesis restKind restDescending⟩
        intro other member
        have origin := (insertDescending_perm order item rest).mem_iff.mp member
        rcases List.mem_cons.mp origin with rfl | inRest
        · simp [NotAfter, smaller]
        · exact below other inRest
      · rename_i notSmaller
        have above : NotAfter order greatest item :=
          linear.notAfter_of_not notSmaller
        refine List.pairwise_cons.mpr ⟨?_, descending⟩
        intro other member
        rcases List.mem_cons.mp member with rfl | inRest
        · exact above
        · exact linear.notAfter_trans (restKind other inRest) greatestKind
            itemKind (below other inRest) above

/-- A sorted list is ascending. -/
theorem sortBy_pairwise
    (linear : LinearOn kind order)
    {items : List Expr}
    (itemsKind : ∀ item ∈ items, kind item) :
    (sortBy order items).Pairwise (NotAfter order) := by
  have inserted
      (sorted : List Expr)
      (sortedKind : ∀ other ∈ sorted, kind other)
      (descending :
        sorted.Pairwise fun first second => NotAfter order second first) :
      (items.foldl (fun sorted item => insertDescending order item sorted)
          sorted).Pairwise
        fun first second => NotAfter order second first := by
    induction items generalizing sorted with
    | nil =>
        exact descending
    | cons item rest inductionHypothesis =>
        obtain ⟨itemKind, restKind⟩ := List.forall_mem_cons.mp itemsKind
        apply inductionHypothesis restKind
        · intro other member
          have origin :=
            (insertDescending_perm order item sorted).mem_iff.mp member
          rcases List.mem_cons.mp origin with rfl | inSorted
          · exact itemKind
          · exact sortedKind other inSorted
        · exact linear.insertDescending_pairwise itemKind sortedKind descending
  unfold sortBy
  rw [List.pairwise_reverse]
  exact inserted [] (by simp) .nil

/-- Sorting forgets the order in which the items arrive. -/
theorem sortBy_eq_of_perm
    (linear : LinearOn kind order)
    {items items' : List Expr}
    (itemsKind : ∀ item ∈ items, kind item)
    (permuted : items.Perm items') :
    sortBy order items = sortBy order items' := by
  have itemsKind' : ∀ item ∈ items', kind item := by
    intro item member
    exact itemsKind item (permuted.mem_iff.mpr member)
  apply List.Perm.eq_of_pairwise
  · intro first second firstMember secondMember
    have firstOrigin := (sortBy_perm order items).mem_iff.mp firstMember
    have secondOrigin := (sortBy_perm order items').mem_iff.mp secondMember
    exact linear.notAfter_antisymm (itemsKind first firstOrigin)
      (itemsKind' second secondOrigin)
  · exact linear.sortBy_pairwise itemsKind
  · exact linear.sortBy_pairwise itemsKind'
  · exact (sortBy_perm order items).trans
      (permuted.trans (sortBy_perm order items').symm)

end LinearOn

theorem sortCanonically_perm
    (items : List Expr) :
    (sortCanonically items).Perm items :=
  sortBy_perm canonicalCompare items

end SymbolicAlgebra.Expr
