import SymbolicAlgebra.Proofs.Linear.Product

/-!
# Groups of like terms

The addends of a sum are gathered in groups, a base with its total coefficient.  Whenever a group takes in
another addend, the groups get cheaper.  If none does, then the bases of the addends are all different.
-/

namespace SymbolicAlgebra

open SymbolicAlgebra.Expr

/-! ## Groups -/

namespace Reading

/-- The reading of a multiple that is written without a factor of one and without a term for zero. -/
def scaled
    (factor : Int)
    (reading : Reading) : Reading :=
  if factor = 0 then
    literal 0
  else if factor = 1 then
    reading
  else
    reading.multiple factor

theorem scaled_form
    (factor : Int)
    (reading : Reading) :
    (reading.scaled factor).form = factor • reading.form := by
  unfold scaled
  split
  · simp_all
  · split
    · simp_all
    · rfl

theorem scaled_weight
    (factor : Int)
    (reading : Reading) :
    (reading.scaled factor).weight = factor.natAbs * reading.weight := by
  unfold scaled
  split
  · simp_all
  · split
    · simp_all
    · rfl

theorem scaled_cost
    (factor : Int)
    (reading : Reading) :
    (reading.scaled factor).cost =
      if factor = 0 then
        1
      else if factor = 1 then
        reading.cost
      else
        2 * reading.cost - 1 := by
  unfold scaled
  split
  · rfl
  · split <;> rfl

end Reading

/-- A group of like terms: a base with an exact coefficient, or what is left when all terms cancel. -/
inductive IsGroup : Expr × Float → Prop where
  | cancelled :
      IsGroup (whole 0, floatOfInt 1)
  | multiple
      {base : Expr}
      {factor : Int}
      (small : factor.natAbs < 2 ^ 53)
      (linear : base.IsLinear)
      (notLiteral : base.isNumber = false) :
      IsGroup (base, floatOfInt factor)

/-- The reading of a group. -/
def groupReading
    (group : Expr × Float) : Reading :=
  group.1.reading.scaled (wholeOf group.2)

theorem groupReading_multiple
    {base : Expr}
    {factor : Int}
    (small : factor.natAbs < 2 ^ 53) :
    groupReading (base, floatOfInt factor) = base.reading.scaled factor := by
  rw [groupReading, wholeOf_floatOfInt small]

theorem groupReading_one
    (expr : Expr) :
    groupReading (expr, 1) = expr.reading := by
  rw [← floatOfInt_one, groupReading, wholeOf_floatOfInt (by decide),
    Reading.scaled, if_neg one_ne_zero, if_pos rfl]

/--
The groups of a number of addends: they read as the addends do, or as less, and every addend that has no
group of its own has made them cheaper.
-/
structure Gathers
    (groups : List (Expr × Float))
    (count : Nat)
    (bound : Reading) : Prop where
  each :
    ∀ group ∈ groups, IsGroup group
  le :
    (groups.map groupReading).sum ≤ bound
  saved :
    (groups.map groupReading).sum.cost + count ≤ bound.cost + groups.length
  length_le :
    groups.length ≤ count

namespace Gathers

variable {group : Expr × Float} {groups : List (Expr × Float)} {count : Nat}
  {bound bound' : Reading}

theorem nil :
    Gathers [] 0 0 :=
  ⟨by simp, le_rfl, le_rfl, le_rfl⟩

/-- Groups stand for as many addends as there are groups. -/
theorem self
    (each : ∀ group ∈ groups, IsGroup group) :
    Gathers groups groups.length (groups.map groupReading).sum :=
  ⟨each, le_rfl, le_rfl, le_rfl⟩

theorem mono
    (gathers : Gathers groups count bound)
    (le : bound ≤ bound') :
    Gathers groups count bound' :=
  ⟨gathers.each, gathers.le.trans le,
    gathers.saved.trans (Nat.add_le_add_right le.2.2 _), gathers.length_le⟩

/-- Groups that have become cheaper stand for one addend more. -/
theorem save
    (gathers : Gathers groups count bound)
    (le : bound ≤ bound')
    (cheaper : bound.cost + 1 ≤ bound'.cost) :
    Gathers groups (count + 1) bound' := by
  have saved := gathers.saved
  exact ⟨gathers.each, gathers.le.trans le, by omega,
    Nat.le_succ_of_le gathers.length_le⟩

theorem cons
    (isGroup : IsGroup group)
    (gathers : Gathers groups count bound) :
    Gathers (group :: groups) (count + 1) (groupReading group + bound) := by
  have saved := gathers.saved
  refine ⟨List.forall_mem_cons.mpr ⟨isGroup, gathers.each⟩, ?_, ?_,
    Nat.succ_le_succ gathers.length_le⟩
  · rw [List.map_cons, List.sum_cons]
    exact Reading.add_le_add le_rfl gathers.le
  · rw [List.map_cons, List.sum_cons, Reading.add_cost, Reading.add_cost,
      List.length_cons]
    omega

end Gathers

/-! ## Gathering addends -/

/-- Two multiples of a base cost more than their sum. -/
theorem Reading.scaled_add_le
    {reading : Reading}
    (cost : 1 ≤ reading.cost)
    (first second : Int) :
    reading.scaled (first + second) ≤
        reading.scaled first + reading.scaled second ∧
      (reading.scaled (first + second)).cost + 1 ≤
        (reading.scaled first).cost + (reading.scaled second).cost := by
  have cheaper :
      (reading.scaled (first + second)).cost + 1 ≤
        (reading.scaled first).cost + (reading.scaled second).cost := by
    simp only [scaled_cost]
    split_ifs <;> omega
  refine ⟨⟨?_, ?_, ?_⟩, cheaper⟩
  · simp only [add_form, scaled_form, add_smul]
  · simp only [add_weight, scaled_weight, ← Nat.add_mul]
    exact Nat.mul_le_mul_right _ (Int.natAbs_add_le first second)
  · rw [add_cost]
    omega

theorem sum_map_groupReading_cons
    (group : Expr × Float)
    (groups : List (Expr × Float)) :
    ((group :: groups).map groupReading).sum =
      groupReading group + (groups.map groupReading).sum := by
  rw [List.map_cons, List.sum_cons]

/-- An addend goes into the group of its base, which saves something, or into a group of its own. -/
theorem gathers_addTerm
    {groups : List (Expr × Float)}
    {base : Expr}
    {factor : Int}
    (factorSmall : factor.natAbs < 2 ^ 53)
    (linear : base.IsLinear)
    (notLiteral : base.isNumber = false)
    (each : ∀ group ∈ groups, IsGroup group)
    (small :
      ((groups.map groupReading).sum + base.reading.scaled factor).weight <
        2 ^ 53) :
    Gathers (Transform.addTerm base (floatOfInt factor) groups)
      (groups.length + 1)
      ((groups.map groupReading).sum + base.reading.scaled factor) := by
  induction groups with
  | nil =>
      rw [List.map_nil, List.sum_nil, zero_add, ← groupReading_multiple factorSmall,
        ← add_zero (groupReading _)]
      exact Gathers.nil.cons (.multiple factorSmall linear notLiteral)
  | cons group rest inductionHypothesis =>
      obtain ⟨isGroup, restEach⟩ := List.forall_mem_cons.mp each
      rw [sum_map_groupReading_cons] at small ⊢
      by_cases sameBase : group.1 = base
      · cases isGroup with
        | cancelled =>
            subst sameBase
            cases notLiteral
        | @multiple base' total totalSmall baseLinear baseNotLiteral =>
            obtain rfl : base' = base := sameBase
            rw [groupReading_multiple totalSmall] at small ⊢
            obtain ⟨le, cheaper⟩ :=
              Reading.scaled_add_le linear.cost_pos.1 total factor
            -- The coefficients are added exactly, because the base weighs something.
            have sumSmall : (total + factor).natAbs < 2 ^ 53 := by
              have baseWeight := (linear.cost_pos.2 notLiteral).2
              have sumWeight := le.2.1
              simp only [Reading.add_weight, Reading.scaled_weight]
                at small sumWeight
              have :=
                Nat.le_mul_of_pos_right (total + factor).natAbs baseWeight
              omega
            have shape :
                Transform.addTerm base' (floatOfInt factor)
                    ((base', floatOfInt total) :: rest) =
                  (base', floatOfInt (total + factor)) :: rest := by
              rw [← floatOfInt_add totalSmall factorSmall sumSmall]
              exact if_pos rfl
            rw [shape, add_right_comm]
            refine ((Gathers.self restEach).cons
              (.multiple sumSmall linear notLiteral)).save ?_ ?_
            · rw [groupReading_multiple sumSmall]
              exact Reading.add_le_add le le_rfl
            · rw [groupReading_multiple sumSmall]
              simp only [Reading.add_cost] at cheaper ⊢
              omega
      · have shape :
            Transform.addTerm base (floatOfInt factor) (group :: rest) =
              group :: Transform.addTerm base (floatOfInt factor) rest :=
          if_neg sameBase
        rw [shape, add_assoc]
        refine (inductionHypothesis restEach ?_).cons isGroup
        simp only [Reading.add_weight] at small ⊢
        omega

theorem Gathers.addTerm
    {groups : List (Expr × Float)}
    {base : Expr}
    {factor : Int}
    (factorSmall : factor.natAbs < 2 ^ 53)
    (linear : base.IsLinear)
    (notLiteral : base.isNumber = false)
    {count : Nat}
    {bound : Reading}
    (gathers : Gathers groups count bound)
    (small : (bound + base.reading.scaled factor).weight < 2 ^ 53) :
    Gathers (Transform.addTerm base (floatOfInt factor) groups) (count + 1)
      (bound + base.reading.scaled factor) := by
  obtain ⟨each, le, saved, length_le⟩ := gathers
  have weight := le.2.1
  obtain ⟨each', le', saved', length_le'⟩ :=
    gathers_addTerm factorSmall linear notLiteral each (by
      simp only [Reading.add_weight] at small ⊢
      omega)
  refine ⟨each', le'.trans (Reading.add_le_add le le_rfl), ?_, by omega⟩
  simp only [Reading.add_cost] at saved' ⊢
  omega

/-- An addend is split into an exact factor and a base, whose multiple reads as the addend does. -/
structure Splits
    (addend : Expr)
    (factor : Int)
    (base : Expr) : Prop where
  split :
    Transform.splitCoefficient addend = (floatOfInt factor, base)
  small :
    factor.natAbs < 2 ^ 53
  linear :
    base.IsLinear
  notLiteral :
    base.isNumber = false
  le :
    base.reading.scaled factor ≤ addend.reading

theorem Splits.whole
    {addend : Expr}
    (linear : addend.IsLinear)
    (notLiteral : addend.isNumber = false)
    (unsplit : Transform.splitCoefficient addend = (1, addend)) :
    Splits addend 1 addend := by
  refine ⟨?_, by decide, linear, notLiteral, ?_⟩
  · rw [unsplit, floatOfInt_one]
  · simp [Reading.scaled]

/-- Every addend is a multiple of a base. -/
theorem exists_splits
    {addend : Expr}
    (linear : addend.IsLinear)
    (notLiteral : addend.isNumber = false) :
    ∃ factor base, Splits addend factor base := by
  cases linear with
  | literal small =>
      cases notLiteral
  | symbol name =>
      exact ⟨1, _, .whole (.symbol name) rfl rfl⟩
  | sum lhsLinear rhsLinear notLiterals =>
      exact ⟨1, _, .whole (.sum lhsLinear rhsLinear notLiterals) rfl rfl⟩
  | difference lhsLinear rhsLinear notLiterals =>
      exact ⟨1, _, .whole (.difference lhsLinear rhsLinear notLiterals) rfl rfl⟩
  | @multiple factor operand small nonzero linear operandNotLiteral =>
      refine ⟨factor, operand, rfl, small, linear, operandNotLiteral, ?_⟩
      rw [reading_multiple small]
      refine ⟨Reading.scaled_form _ _, (Reading.scaled_weight _ _).le, ?_⟩
      have cost := linear.cost_pos.1
      rw [Reading.scaled_cost, if_neg nonzero, Reading.multiple_cost]
      split <;> omega

/-- One step of gathering. -/
def gather
    (groups : List (Expr × Float))
    (addend : Expr) : List (Expr × Float) :=
  Transform.addTerm (Transform.splitCoefficient addend).2
    (Transform.splitCoefficient addend).1 groups

theorem likeTerms_eq
    (addends : List Expr) :
    Transform.likeTerms addends = addends.foldl gather [] :=
  rfl

/-- Gathering addends one after the other. -/
theorem Gathers.foldl
    {groups : List (Expr × Float)}
    {addends : List Expr}
    {count : Nat}
    {bound : Reading}
    (gathers : Gathers groups count bound)
    (linear : ∀ addend ∈ addends, addend.IsLinear)
    (notLiterals : ∀ addend ∈ addends, addend.isNumber = false)
    (small : (bound + (addends.map reading).sum).weight < 2 ^ 53) :
    Gathers (addends.foldl gather groups) (count + addends.length)
      (bound + (addends.map reading).sum) := by
  induction addends generalizing groups count bound with
  | nil =>
      simpa using gathers
  | cons addend rest inductionHypothesis =>
      obtain ⟨addendLinear, restLinear⟩ := List.forall_mem_cons.mp linear
      obtain ⟨notLiteral, restNotLiterals⟩ :=
        List.forall_mem_cons.mp notLiterals
      obtain ⟨factor, base, splits⟩ := exists_splits addendLinear notLiteral
      have weight := splits.le.2.1
      rw [List.map_cons, List.sum_cons] at small ⊢
      rw [← add_assoc] at small ⊢
      have gathered :
          Gathers (gather groups addend) (count + 1)
            (bound + addend.reading) := by
        rw [gather, splits.split]
        refine (gathers.addTerm splits.small splits.linear splits.notLiteral
          ?_).mono (Reading.add_le_add le_rfl splits.le)
        simp only [Reading.add_weight] at small ⊢
        omega
      rw [List.length_cons, Nat.add_comm rest.length, ← Nat.add_assoc]
      exact inductionHypothesis gathered restLinear restNotLiterals small

/-! ## When all bases differ -/

theorem map_fst_addTerm_of_mem
    {groups : List (Expr × Float)}
    {base : Expr}
    (coefficient : Float)
    (member : base ∈ groups.map Prod.fst) :
    (Transform.addTerm base coefficient groups).map Prod.fst =
      groups.map Prod.fst := by
  induction groups with
  | nil =>
      simp at member
  | cons group rest inductionHypothesis =>
      by_cases same : group.1 = base
      · simp [Transform.addTerm, same]
      · have later : base ∈ rest.map Prod.fst := by
          simpa [Ne.symm same] using member
        simp [Transform.addTerm, same, inductionHypothesis later]

theorem map_fst_addTerm_of_notMem
    {groups : List (Expr × Float)}
    {base : Expr}
    (coefficient : Float)
    (notMember : base ∉ groups.map Prod.fst) :
    (Transform.addTerm base coefficient groups).map Prod.fst =
      groups.map Prod.fst ++ [base] := by
  induction groups with
  | nil =>
      rfl
  | cons group rest inductionHypothesis =>
      rw [List.map_cons, List.mem_cons, not_or] at notMember
      obtain ⟨different, later⟩ := notMember
      simp [Transform.addTerm, Ne.symm different, inductionHypothesis later]

/-- If there are as many groups as addends, then their bases are all different. -/
theorem nodup_of_length_foldl_gather
    {groups : List (Expr × Float)}
    {addends : List Expr}
    (distinct : (groups.map Prod.fst).Nodup) :
    (addends.foldl gather groups).length ≤ groups.length + addends.length ∧
      ((addends.foldl gather groups).length = groups.length + addends.length →
        (groups.map Prod.fst ++
          addends.map fun addend =>
            (Transform.splitCoefficient addend).2).Nodup) := by
  induction addends generalizing groups with
  | nil =>
      exact ⟨le_rfl, fun _ => by simpa using distinct⟩
  | cons addend rest inductionHypothesis =>
      rw [List.foldl_cons, List.length_cons, List.map_cons]
      by_cases member :
          (Transform.splitCoefficient addend).2 ∈ groups.map Prod.fst
      · have keys :=
          map_fst_addTerm_of_mem (Transform.splitCoefficient addend).1 member
        have lengths := congrArg List.length keys
        simp only [List.length_map] at lengths
        obtain ⟨bounded, -⟩ :=
          @inductionHypothesis (gather groups addend)
            (by rw [gather, keys]; exact distinct)
        rw [gather] at bounded ⊢
        exact ⟨by omega, fun same => by omega⟩
      · have keys :=
          map_fst_addTerm_of_notMem (Transform.splitCoefficient addend).1 member
        have lengths := congrArg List.length keys
        simp only [List.length_map, List.length_append, List.length_singleton]
          at lengths
        obtain ⟨bounded, later⟩ :=
          @inductionHypothesis (gather groups addend) (by
            rw [gather, keys]
            exact List.nodup_append.mpr ⟨distinct, List.nodup_singleton _, by
              intro key keyMember other otherMember same
              rw [List.mem_singleton] at otherMember
              exact member (otherMember ▸ same ▸ keyMember)⟩)
        rw [gather] at bounded later ⊢
        refine ⟨by omega, fun same => ?_⟩
        have distinct' := later (by omega)
        rwa [keys, List.append_assoc, List.singleton_append] at distinct'

end SymbolicAlgebra
