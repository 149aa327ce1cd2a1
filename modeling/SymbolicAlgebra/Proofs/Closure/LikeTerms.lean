import SymbolicAlgebra.Proofs.Closure.Rules
import SymbolicAlgebra.Proofs.Linear.LikeTerms

/-!
# Like terms inside a family

The coefficients of like terms are added up as floats.  A total that is not finite is noticed when it is
multiplied with its base, but not when a factor that it shares with another term is pulled out.
-/

namespace SymbolicAlgebra

open SymbolicAlgebra.Expr

namespace Transform

/-- The like terms of a sum: the bases of its addends with their total coefficients. -/
def addendGroups
    (node : Expr) : List (Expr × Float) :=
  likeTerms (nonliterals Operator.add node)

/-- The literals of the total coefficients are members, or no factor is pulled out. -/
def Totals
    (family : Expr → Prop)
    (groups : List (Expr × Float)) : Prop :=
  (∀ group ∈ groups, family (.ofFloat group.2)) ∨
    sharedFactor? groups groups 0 = none

/-- Groups stay as they are if none of them is a multiple of another. -/
theorem mergeShared?_eq_self
    (builder : Builder)
    {groups : List (Expr × Float)}
    (merged : Bool)
    (steps : Nat)
    (notShared : sharedFactor? groups groups 0 = none) :
    mergeShared? builder groups merged steps = some (groups, merged) := by
  cases steps with
  | zero =>
      rfl
  | succ steps =>
      rw [mergeShared?, notShared]

end Transform

namespace ClosedUnderBuilding

variable {builder : Builder} {family : Expr → Prop}

/-! ## Gathering -/

theorem splitCoefficient
    (closed : ClosedUnderBuilding builder family)
    {term : Expr}
    (member : family term) :
    family (Transform.splitCoefficient term).2 := by
  unfold Transform.splitCoefficient
  split
  · rename_i found
    exact (closed.of_operands? member found).2.2
  · exact member

theorem addTerm
    {base : Expr}
    {coefficient : Float}
    {groups : List (Expr × Float)}
    (baseMember : family base)
    (bases : ∀ group ∈ groups, family group.1) :
    ∀ group ∈ Transform.addTerm base coefficient groups, family group.1 := by
  induction groups with
  | nil =>
      exact List.forall_mem_singleton.mpr baseMember
  | cons group rest inductionHypothesis =>
      obtain ⟨groupMember, restMembers⟩ := List.forall_mem_cons.mp bases
      unfold Transform.addTerm
      split
      · exact List.forall_mem_cons.mpr ⟨groupMember, restMembers⟩
      · exact List.forall_mem_cons.mpr
          ⟨groupMember, inductionHypothesis restMembers⟩

/-- The bases of like terms are members. -/
theorem likeTerms
    (closed : ClosedUnderBuilding builder family)
    {addends : List Expr}
    (members : ∀ addend ∈ addends, family addend) :
    ∀ group ∈ Transform.likeTerms addends, family group.1 := by
  induction addends using List.reverseRecOn with
  | nil =>
      exact List.forall_mem_nil _
  | append_singleton addends addend inductionHypothesis =>
      obtain ⟨earlier, last⟩ := List.forall_mem_append.mp members
      rw [likeTerms_eq, List.foldl_append]
      exact addTerm
        (closed.splitCoefficient (List.forall_mem_singleton.mp last))
        (inductionHypothesis earlier)

/-! ## Merging -/

theorem cofactor
    (closed : ClosedUnderBuilding builder family)
    {factor product cofactor : Expr}
    (member : family product)
    (found : Transform.cofactor? factor product = some cofactor) :
    family cofactor := by
  unfold Transform.cofactor? at found
  split at found
  · rename_i isProduct
    obtain ⟨-, lhsMember, rhsMember⟩ := closed.of_operands? member isProduct
    split at found
    · cases found
      exact rhsMember
    · split at found
      · cases found
        exact lhsMember
      · cases found
  · cases found

theorem scaled
    (closed : ClosedUnderBuilding builder family)
    {coefficient : Float}
    {term result : Expr}
    (coefficientMember : family (.ofFloat coefficient))
    (member : family term)
    (built : Transform.scaled builder coefficient term = .ok result) :
    family result := by
  unfold Transform.scaled at built
  split at built
  · cases built
    exact member
  · exact closed.pair closed.product coefficientMember member built

/-- Bases and the literals of the coefficients are members. -/
def Groups
    (family : Expr → Prop)
    (groups : List (Expr × Float)) : Prop :=
  ∀ group ∈ groups, family group.1 ∧ family (.ofFloat group.2)

theorem mergeShared
    (closed : ClosedUnderBuilding builder family)
    {groups groups' : List (Expr × Float)}
    {merged merged' : Bool}
    {steps : Nat}
    (members : Groups family groups)
    (outcome :
      Transform.mergeShared? builder groups merged steps =
        some (groups', merged')) :
    Groups family groups' := by
  induction steps generalizing groups merged with
  | zero =>
      cases outcome
      exact members
  | succ steps inductionHypothesis =>
      unfold Transform.mergeShared? at outcome
      split at outcome
      · cases outcome
        exact members
      · rename_i place multiple cofactor found
        obtain ⟨base, first, product, second, shares⟩ :=
          exists_shares (by simp) found
        rw [shares.base_at, shares.product_at] at outcome
        obtain ⟨combined, built, outcome⟩ := Option.bind_eq_some_iff.mp outcome
        obtain ⟨term, termBuilt, built⟩ :=
          exists_of_bind_eq_ok (eq_ok_of_toOption built)
        obtain ⟨coefficient, added, multiplied⟩ := exists_of_bind_eq_ok built
        obtain ⟨baseMember, firstMember⟩ :=
          members _ (List.mem_of_getElem? shares.base_at)
        obtain ⟨productMember, secondMember⟩ :=
          members _ (List.mem_of_getElem? shares.product_at)
        have termMember :=
          closed.scaled secondMember
            (closed.cofactor productMember shares.cofactor) termBuilt
        have coefficientMember :=
          closed.pair closed.sum firstMember termMember added
        have combinedMember :=
          closed.pair closed.product coefficientMember baseMember multiplied
        refine inductionHypothesis (fun group among => ?_) outcome
        rcases List.mem_or_eq_of_mem_set (List.mem_of_mem_eraseIdx among) with
          old | rfl
        · exact members group old
        · exact ⟨combinedMember, closed.literal (by decide : (1 : Float).isFinite = true)⟩

/-- The terms of groups are members, since groups that are not finite give no terms. -/
theorem groupTerms
    (closed : ClosedUnderBuilding builder family)
    {groups : List (Expr × Float)}
    {terms : List Expr}
    (bases : ∀ group ∈ groups, family group.1)
    (built : Transform.groupTerms? builder groups = some terms) :
    ∀ term ∈ terms, family term := by
  induction groups generalizing terms with
  | nil =>
      cases built
      exact List.forall_mem_nil _
  | cons group rest inductionHypothesis =>
      obtain ⟨baseMember, restMembers⟩ := List.forall_mem_cons.mp bases
      unfold Transform.groupTerms? at built
      split at built
      · cases built
      · rename_i isFinite
        split at built
        · exact inductionHypothesis restMembers built
        · obtain ⟨term, termBuilt, built⟩ := Option.bind_eq_some_iff.mp built
          obtain ⟨following, restBuilt, built⟩ :=
            Option.bind_eq_some_iff.mp built
          cases built
          have termMember :=
            closed.scaled (closed.literal (by simpa using isFinite)) baseMember
              (eq_ok_of_toOption termBuilt)
          exact List.forall_mem_cons.mpr
            ⟨termMember, inductionHypothesis restMembers restBuilt⟩

/-- Combining like terms keeps a family, unless it pulls a factor out of a total that is no member. -/
theorem foldAdditions
    (closed : ClosedUnderBuilding builder family)
    (table : SymbolTable)
    {node replacement : Expr}
    (member : family node)
    (totals : Transform.Totals family (Transform.addendGroups node))
    (transformed :
      Transform.foldAdditions? table builder node = some replacement) :
    family replacement := by
  have flat : ∀ item ∈ Chain.flatten Operator.add node, family item :=
    closed.flatten member
  have addends : ∀ addend ∈ Transform.nonliterals Operator.add node, family addend :=
    fun addend found => flat addend (List.mem_of_mem_filter found)
  have bases := closed.likeTerms addends
  unfold Transform.foldAdditions? at transformed
  split at transformed
  · cases transformed
  · obtain ⟨⟨groups, merged⟩, outcome, transformed⟩ :=
      Option.bind_eq_some_iff.mp transformed
    have mergedBases : ∀ group ∈ groups, family group.1 := by
      rcases totals with coefficients | notShared
      · have members : Groups family (Transform.addendGroups node) :=
          fun group found => ⟨bases group found, coefficients group found⟩
        exact fun group found => (closed.mergeShared members outcome group found).1
      · have unchanged :=
          (Transform.mergeShared?_eq_self builder false _ notShared).symm.trans
            outcome
        cases unchanged
        exact bases
    dsimp only at transformed
    split at transformed
    · cases transformed
    · obtain ⟨terms, built, transformed⟩ := Option.bind_eq_some_iff.mp transformed
      have termMembers := closed.groupTerms mergedBases built
      split at transformed
      · cases transformed
        exact closed.zero
      · refine closed.sortedChain closed.sum ?_ transformed
        exact List.forall_mem_append.mpr
          ⟨fun literal found => flat literal (List.mem_of_mem_filter found),
            termMembers⟩

end ClosedUnderBuilding

end SymbolicAlgebra
