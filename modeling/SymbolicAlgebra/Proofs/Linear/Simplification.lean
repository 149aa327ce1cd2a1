import SymbolicAlgebra.Proofs.Linear.Visit

/-!
# Simplifying linear expressions

A pass over a linear expression makes it cheaper or leaves it in normal form.  So the fixed point of the
passes is in normal form, with the linear form of the expression that was simplified.
-/

namespace SymbolicAlgebra

open SymbolicAlgebra.Expr

section Simplification

variable {table : SymbolTable} {node expr lhs rhs operand : Expr}
  {bound bound' : Reading}

/-! ## Building a node from its parts -/

theorem Settled.cost_lt
    (settled : Settled expr bound)
    (notNormal : ¬IsNormal expr) :
    expr.reading.cost < bound.cost := by
  rcases settled with below | ⟨-, normal⟩
  · exact below.cost_lt
  · exact (notNormal normal).elim

/-- A literal has no other expression within its reading. -/
theorem eq_whole_of_within
    {value : Int}
    (small : value.natAbs < 2 ^ 53)
    (within : expr.Within (whole value).reading) :
    expr = whole value := by
  obtain ⟨linear, sameForm, -, cost⟩ := within
  rw [reading_whole small] at sameForm cost
  have isNumber : expr.isNumber = true := by
    rw [← Bool.not_eq_false]
    intro notLiteral
    have := (linear.cost_pos.2 notLiteral).1
    rw [Reading.literal_cost] at cost
    omega
  obtain ⟨value', small', rfl⟩ := linear.exists_whole isNumber
  rw [reading_whole small'] at sameForm
  have sameValue := congrFun sameForm none
  simp only [Reading.literal_form, Pi.single_eq_same] at sameValue
  rw [sameValue]

theorem prepared_of_isNormal
    {op : Expr}
    (linear : (Expr.apply op [lhs, rhs]).IsLinear)
    (lhsNormal : IsNormal lhs)
    (rhsNormal : IsNormal rhs) :
    Prepared (.apply op [lhs, rhs]) (Expr.apply op [lhs, rhs]).reading := by
  refine .inr ⟨linear.within, ?_⟩
  rintro head args same arg member
  cases same
  rcases List.mem_pair.mp member with rfl | rfl
  · exact lhsNormal
  · exact rhsNormal

/-- The operators of linear expressions absorb nothing but a literal. -/
theorem zero_isLeaf
    {op : Expr}
    (isArithmetic :
      op = Operator.add ∨ op = Operator.sub ∨ op = Operator.mul)
    {spec : OperatorSpec}
    {zero : Expr}
    (found : table.specOf? op = some spec)
    (declared : spec.zero = some zero) :
    zero.isLeaf = true := by
  rcases isArithmetic with rfl | rfl | rfl
  · cases (table.specOf?_add).symm.trans found
    cases declared
  · cases (table.specOf?_sub).symm.trans found
    cases declared
  · cases (table.specOf?_mul).symm.trans found
    cases declared
    rfl

/-- A node is prepared if its parts are in normal form, and if it gets cheaper otherwise. -/
theorem prepared_of_construct
    {op : Expr}
    (isArithmetic :
      op = Operator.add ∨ op = Operator.sub ∨ op = Operator.mul)
    (built : table.construct op [lhs, rhs] = .ok node)
    (within : node.Within bound)
    (le : bound ≤ bound')
    (cheaper : ¬(IsNormal lhs ∧ IsNormal rhs) → bound.cost < bound'.cost) :
    Prepared node bound' := by
  by_cases normal : IsNormal lhs ∧ IsNormal rhs
  · refine .inr ⟨within.mono le, ?_⟩
    rintro head args rfl arg member
    have origin :=
      (perm_of_construct (zero_isLeaf isArithmetic) built).2.mem_iff.mp member
    rcases List.mem_pair.mp origin with rfl | rfl
    · exact normal.1
    · exact normal.2
  · exact .inl (within.below le (cheaper normal))

theorem exists_prepared_sum
    (lhsSettled : Settled lhs bound)
    (rhsSettled : Settled rhs bound')
    (small : (bound + bound').weight < 2 ^ 53) :
    ∃ node,
      table.construct Operator.add [lhs, rhs] = .ok node ∧
        Prepared node (bound + bound') := by
  have le :=
    Reading.add_le_add lhsSettled.within.le rhsSettled.within.le
  obtain ⟨node, built, within⟩ :
      ∃ node,
        table.construct Operator.add [lhs, rhs] = .ok node ∧
          node.Within (lhs.reading + rhs.reading) :=
    exists_construct_sum lhsSettled.within.linear.within
      rhsSettled.within.linear.within (le.2.1.trans_lt small)
  refine ⟨node, built,
    prepared_of_construct (.inl rfl) built within le fun notBoth => ?_⟩
  have lhsCost := lhsSettled.within.le.2.2
  have rhsCost := rhsSettled.within.le.2.2
  simp only [Reading.add_cost]
  rcases not_and_or.mp notBoth with notNormal | notNormal
  · have := lhsSettled.cost_lt notNormal
    omega
  · have := rhsSettled.cost_lt notNormal
    omega

theorem exists_prepared_difference
    (lhsSettled : Settled lhs bound)
    (rhsSettled : Settled rhs bound')
    (small : (bound.difference bound').weight < 2 ^ 53) :
    ∃ node,
      table.construct Operator.sub [lhs, rhs] = .ok node ∧
        Prepared node (bound.difference bound') := by
  have le :=
    Reading.difference_le_difference lhsSettled.within.le rhsSettled.within.le
  obtain ⟨node, built, within⟩ :
      ∃ node,
        table.construct Operator.sub [lhs, rhs] = .ok node ∧
          node.Within (lhs.reading.difference rhs.reading) :=
    exists_construct_difference lhsSettled.within.linear.within
      rhsSettled.within.linear.within (le.2.1.trans_lt small)
  refine ⟨node, built,
    prepared_of_construct (.inr (.inl rfl)) built within le fun notBoth => ?_⟩
  have lhsCost := lhsSettled.within.le.2.2
  have rhsCost := rhsSettled.within.le.2.2
  simp only [Reading.difference_cost]
  rcases not_and_or.mp notBoth with notNormal | notNormal
  · have := lhsSettled.cost_lt notNormal
    omega
  · have := rhsSettled.cost_lt notNormal
    omega

theorem exists_prepared_multiple
    {factor : Int}
    (factorSmall : factor.natAbs < 2 ^ 53)
    (settled : Settled operand bound)
    (small : (bound.multiple factor).weight < 2 ^ 53) :
    ∃ node,
      table.construct Operator.mul [whole factor, operand] = .ok node ∧
        Prepared node (bound.multiple factor) := by
  have le := Reading.multiple_le_multiple factor settled.within.le
  obtain ⟨node, built, within⟩ :
      ∃ node,
        table.construct Operator.mul [whole factor, operand] = .ok node ∧
          node.Within (operand.reading.multiple factor) :=
    exists_construct_multiple factorSmall settled.within.linear.within
      (le.2.1.trans_lt small) (.inl rfl)
  refine ⟨node, built,
    prepared_of_construct (.inr (.inr rfl)) built within le fun notBoth => ?_⟩
  have cost := settled.within.linear.cost_pos.1
  have cheaper :=
    settled.cost_lt fun normal => notBoth ⟨isNormal_whole factorSmall, normal⟩
  simp only [Reading.multiple_cost]
  omega

/-! ## Passes -/

/-- A walk with the catalogue makes the expression cheaper or leaves it in normal form. -/
def WalkSettles
    (table : SymbolTable)
    (expr : Expr) : Prop :=
  ∃ replaced,
    expr.walk table.construct (visit table) = .ok replaced ∧
      Settled (replaced.getD expr) expr.reading

theorem walkSettles_leaf
    (isLeaf : node.isLeaf = true)
    (linear : node.IsLinear)
    (normal : IsNormal node) :
    WalkSettles table node :=
  ⟨none, walk_leaf isLeaf, .inr ⟨linear.within, normal⟩⟩

/-- A walk over an application settles if it settles for both operands. -/
theorem walkSettles_pair
    {op : Expr}
    (isLeaf : op.isLeaf = true)
    (lhsSettles : WalkSettles table lhs)
    (rhsSettles : WalkSettles table rhs)
    (kept :
      IsNormal lhs → IsNormal rhs →
        Prepared (.apply op [lhs, rhs]) (Expr.apply op [lhs, rhs]).reading)
    (rebuilt :
      ∀ {lhs' rhs'},
        Settled lhs' lhs.reading → Settled rhs' rhs.reading →
          ∃ node,
            table.construct op [lhs', rhs'] = .ok node ∧
              Prepared node (Expr.apply op [lhs, rhs]).reading)
    (small : (Expr.apply op [lhs, rhs]).reading.weight < 2 ^ 53) :
    WalkSettles table (.apply op [lhs, rhs]) := by
  obtain ⟨lhs', lhsWalked, lhsSettled⟩ := lhsSettles
  obtain ⟨rhs', rhsWalked, rhsSettled⟩ := rhsSettles
  cases untouched : lhs'.isNone && rhs'.isNone with
  | true =>
      rw [Bool.and_eq_true, Option.isNone_iff_eq_none, Option.isNone_iff_eq_none]
        at untouched
      obtain ⟨rfl, rfl⟩ := untouched
      obtain ⟨replaced, walked, same⟩ :=
        exists_walk_kept isLeaf lhsWalked rhsWalked
      refine ⟨replaced, walked, ?_⟩
      rw [same]
      exact (kept lhsSettled.isNormal rhsSettled.isNormal).settled_visited table
        small
  | false =>
      obtain ⟨node, built, prepared⟩ := rebuilt lhsSettled rhsSettled
      obtain ⟨replaced, walked, same⟩ :=
        exists_walk_rebuilt isLeaf lhsWalked rhsWalked untouched built
      refine ⟨replaced, walked, ?_⟩
      rw [same]
      exact prepared.settled_visited table small

/-- A walk over a light linear expression makes it cheaper or leaves it in normal form. -/
theorem walkSettles_of_isLinear
    (table : SymbolTable)
    (linear : expr.IsLinear)
    (small : expr.reading.weight < 2 ^ 53) :
    WalkSettles table expr := by
  induction linear with
  | literal valueSmall =>
      exact walkSettles_leaf rfl (.literal valueSmall)
        (isNormal_whole valueSmall)
  | symbol name =>
      exact walkSettles_leaf rfl (.symbol name) (isNormal_symbol name)
  | @sum lhs rhs lhsLinear rhsLinear notLiterals lhsHypothesis rhsHypothesis =>
      have light := small
      rw [reading_sum] at light
      have apart := light
      rw [Reading.add_weight] at apart
      refine walkSettles_pair rfl (lhsHypothesis (by omega))
        (rhsHypothesis (by omega))
        (prepared_of_isNormal (.sum lhsLinear rhsLinear notLiterals)) ?_ small
      intro lhs' rhs' lhsSettled rhsSettled
      rw [reading_sum]
      exact exists_prepared_sum lhsSettled rhsSettled light
  | @difference lhs rhs lhsLinear rhsLinear notLiterals lhsHypothesis
      rhsHypothesis =>
      have light := small
      rw [reading_difference] at light
      have apart := light
      rw [Reading.difference_weight] at apart
      refine walkSettles_pair rfl (lhsHypothesis (by omega))
        (rhsHypothesis (by omega))
        (prepared_of_isNormal (.difference lhsLinear rhsLinear notLiterals)) ?_
        small
      intro lhs' rhs' lhsSettled rhsSettled
      rw [reading_difference]
      exact exists_prepared_difference lhsSettled rhsSettled light
  | @multiple factor operand factorSmall nonzero linear notLiteral hypothesis =>
      have light := small
      rw [reading_multiple factorSmall] at light
      have operandLight : operand.reading.weight < 2 ^ 53 := by
        refine lt_of_le_of_lt ?_ light
        exact Nat.le_mul_of_pos_left _ (Int.natAbs_pos.mpr nonzero)
      refine walkSettles_pair rfl
        (walkSettles_leaf rfl (.literal factorSmall)
          (isNormal_whole factorSmall))
        (hypothesis operandLight)
        (prepared_of_isNormal
          (.multiple factorSmall nonzero linear notLiteral)) ?_ small
      intro lhs' rhs' lhsSettled rhsSettled
      obtain rfl := eq_whole_of_within factorSmall lhsSettled.within
      rw [reading_multiple factorSmall]
      exact exists_prepared_multiple factorSmall rhsSettled light

/-- A pass over a light linear expression makes it cheaper or leaves it in normal form. -/
theorem exists_pass
    (table : SymbolTable)
    (linear : expr.IsLinear)
    (small : expr.reading.weight < 2 ^ 53) :
    ∃ next,
      pass table catalogue expr = .ok next ∧ Settled next expr.reading := by
  obtain ⟨replaced, walked, settled⟩ :=
    walkSettles_of_isLinear table linear small
  exact ⟨replaced.getD expr, pass_of_walk walked, settled⟩

/-! ## Fixed points -/

/-- The fixed point of passes is in normal form. -/
theorem isNormal_of_settle?
    (linear : expr.IsLinear)
    (small : expr.reading.weight < 2 ^ 53)
    {done ceiling : Nat}
    {settled : Expr × Nat}
    (outcome :
      settle? (pass table catalogue) done expr ceiling = .ok (some settled)) :
    settled.1.Within expr.reading ∧ IsNormal settled.1 := by
  induction ceiling generalizing expr done with
  | zero =>
      cases outcome
  | succ ceiling inductionHypothesis =>
      obtain ⟨next, passed, nextSettled⟩ := exists_pass table linear small
      rw [settle?, passed, ok_bind] at outcome
      split at outcome
      · rename_i fixed
        subst fixed
        cases outcome
        exact ⟨nextSettled.within, nextSettled.isNormal⟩
      · have within := nextSettled.within
        obtain ⟨settledWithin, normal⟩ :=
          inductionHypothesis within.linear (within.le.2.1.trans_lt small) outcome
        exact ⟨settledWithin.mono within.le, normal⟩

/-- Simplifying a light linear expression brings it into normal form. -/
theorem isNormal_of_fixedPoint
    (linear : expr.IsLinear)
    (small : expr.reading.weight < 2 ^ 53)
    {ceiling passes : Nat}
    {result : Expr}
    (outcome : fixedPoint table catalogue ceiling expr = .ok (result, passes)) :
    result.Within expr.reading ∧ IsNormal result :=
  isNormal_of_settle? linear small (settle?_of_fixedPoint outcome)

/-- Linear leaves are in normal form. -/
theorem isNormal_of_isLeaf
    (linear : expr.IsLinear)
    (isLeaf : expr.isLeaf = true) :
    IsNormal expr := by
  cases linear with
  | literal small =>
      exact isNormal_whole small
  | symbol name =>
      exact isNormal_symbol name
  | _ =>
      cases isLeaf

/-- A term that starts out light and linear ends up in normal form. -/
theorem isNormal_of_apply
    {workspace : Workspace}
    {head raw result : Expr}
    {args : List Expr}
    (constructed : workspace.table.construct head args = .ok raw)
    (within : raw.Within bound)
    (small : bound.weight < 2 ^ 53)
    (outcome : workspace.apply head args = .ok result) :
    result.Within bound ∧ IsNormal result := by
  have light := within.le.2.1.trans_lt small
  obtain ⟨raw', constructed', finishes⟩ := exists_raw_of_apply outcome
  obtain rfl := Except.ok.inj (constructed.symm.trans constructed')
  rcases finishes with ⟨isLeaf, rfl⟩ | simplified
  · exact ⟨within, isNormal_of_isLeaf within.linear isLeaf⟩
  · obtain ⟨passes, fixed⟩ := exists_fixedPoint_of_simplify simplified
    obtain ⟨settledWithin, normal⟩ :=
      isNormal_of_fixedPoint within.linear light fixed
    exact ⟨settledWithin.mono within.le, normal⟩

end Simplification

end SymbolicAlgebra
