import SymbolicAlgebra.Proofs.Expr.Sorting
import SymbolicAlgebra.Simplification

/-!
# Exactly where the canonical order is total

The order separates two expressions of different kinds by their texts alone.  A wildcard may bear any
name, so it can print like a truth value or like an application, and then the two draw.  Such a draw is
the only thing that can go wrong: every other family of expressions is totally ordered.  One draw
is enough to lose transitivity as well, because a draw between first arguments lets the second ones
decide.
-/

namespace SymbolicAlgebra.Expr

/-- A family that is ordered linearly has no draws between different expressions. -/
theorem wildcardsApart_of_eq_of_draw
    {family : Expr → Prop}
    (eq_of_draw :
      ∀ {first second},
        family first → family second →
          canonicalCompare first second = .eq → first = second) :
    WildcardsApart family where
  ne_boolean {identity value} wildcardMember booleanMember sameChars := by
    have draw :
        canonicalCompare (wildcard identity) (boolean value) = .eq := by
      simp [canonicalCompare, rank, sameChars]
    cases eq_of_draw wildcardMember booleanMember draw
  ne_apply {identity head args} wildcardMember applyMember sameChars := by
    have draw :
        canonicalCompare (wildcard identity) (apply head args) = .eq := by
      simp [canonicalCompare, rank, sameChars]
    cases eq_of_draw wildcardMember applyMember draw

/-- What follows a smaller expression of a linearly ordered family is smaller in turn. -/
theorem LinearOn.lt_trans
    {family : Expr → Prop}
    {order : Expr → Expr → Ordering}
    (linear : LinearOn family order)
    {first second third : Expr}
    (firstMember : family first)
    (secondMember : family second)
    (thirdMember : family third)
    (former : order first second = .lt)
    (latter : order second third = .lt) :
    order first third = .lt := by
  rw [linear.composes firstMember secondMember thirdMember
    (by simp [former]) (by simp [latter]), former]
  rfl

/-- Every expression draws with itself. -/
theorem canonicalCompare_self
    (expr : Expr) :
    canonicalCompare expr expr = .eq := by
  have swapped := canonicalCompare_swap expr expr
  cases outcome : canonicalCompare expr expr <;>
    simp [outcome] at swapped ⊢

/--
On a family with the parts of its members the canonical order is a total order exactly if no wildcard
of the family is printed like one of its truth values or applications.
-/
theorem canonicalCompare_total_iff
    {family : Expr → Prop}
    (closed : ClosedUnderParts family) :
    (∀ first second third,
      family first → family second → family third →
        canonicalCompare second first =
            (canonicalCompare first second).swap ∧
          (canonicalCompare first second = .eq ↔ first = second) ∧
          (canonicalCompare first second = .lt →
            canonicalCompare second third = .lt →
              canonicalCompare first third = .lt)) ↔
      WildcardsApart family := by
  constructor
  · intro total
    apply wildcardsApart_of_eq_of_draw
    intro first second firstMember secondMember
    exact (total first second second firstMember secondMember
      secondMember).2.1.mp
  · intro apart first second third firstMember secondMember thirdMember
    have linear := apart.canonicalCompare_linearOn closed
    refine ⟨linear.swap first second, ⟨?_, ?_⟩, ?_⟩
    · exact linear.eq_of_draw firstMember secondMember
    · rintro rfl
      exact canonicalCompare_self first
    · exact linear.lt_trans firstMember secondMember thirdMember

/-- Plainly named expressions are such a family, so the canonical order is a total order on them. -/
theorem canonicalCompare_total_plainlyNamed :
    ClosedUnderParts PlainlyNamed ∧
      ∀ first second third,
        first.PlainlyNamed → second.PlainlyNamed → third.PlainlyNamed →
          canonicalCompare second first =
              (canonicalCompare first second).swap ∧
            (canonicalCompare first second = .eq ↔ first = second) ∧
            (canonicalCompare first second = .lt →
              canonicalCompare second third = .lt →
                canonicalCompare first third = .lt) :=
  ⟨closedUnderParts_plainlyNamed,
    (canonicalCompare_total_iff closedUnderParts_plainlyNamed).mpr
      wildcardsApart_plainlyNamed⟩

/--
A wildcard named like a truth value draws with it, and pairs that start with such wildcards and that
truth value, all of which can be built, go round in a circle.
-/
theorem canonicalCompare_not_total :
    let pair (first second : Expr) := apply (symbol "pair") [first, second]
    let early := wildcard ⟨0, "True"⟩
    let late := wildcard ⟨1, "True"⟩
    let first := pair late (wildcard ⟨2, "t"⟩)
    let second := pair (boolean true) (wildcard ⟨3, "t"⟩)
    let third := pair early (wildcard ⟨4, "t"⟩)
    (({} : Workspace).apply (symbol "pair") [late, wildcard ⟨2, "t"⟩] =
        .ok first ∧
      ({} : Workspace).apply (symbol "pair")
          [boolean true, wildcard ⟨3, "t"⟩] =
        .ok second ∧
      ({} : Workspace).apply (symbol "pair") [early, wildcard ⟨4, "t"⟩] =
        .ok third) ∧
      (canonicalCompare first second = .lt ∧
        canonicalCompare second third = .lt ∧
        canonicalCompare first third = .gt) ∧
      canonicalCompare early (boolean true) = .eq := by
  refine ⟨⟨?_, ?_, ?_⟩, ?_, ?_⟩
  · rfl
  · rfl
  · rfl
  · decide +kernel
  · decide +kernel

end SymbolicAlgebra.Expr
