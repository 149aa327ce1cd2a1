import Mathlib.Order.Bounds.Basic
import Mathlib.Order.Interval.Set.Defs
import SymbolicAlgebra.Proofs.Simplification

/-!
# Repeating a step

A step is repeated until it returns what it was given, until it fails, or until the permitted number of times is
used up.  Which of the three it is can be read off the iterates of the step.
-/

namespace SymbolicAlgebra

/-- An expression after a number of steps; the error of the first step that fails. -/
def iterate
    (step : Expr → Except ExprError Expr)
    (expr : Expr) : (steps : Nat) → Except ExprError Expr
  | 0 => .ok expr
  | steps + 1 => do
    let last ← iterate step expr steps
    step last

/-- The numbers of steps, up to the ceiling, of which the last one succeeds and changes nothing. -/
def fixedSteps
    (step : Expr → Except ExprError Expr)
    (expr : Expr)
    (ceiling : Nat) : Set Nat :=
  {steps | steps ∈ Set.Icc 1 ceiling ∧
    ∃ fixed, iterate step expr (steps - 1) = .ok fixed ∧
      iterate step expr steps = .ok fixed}

/-- The first steps, as many as the ceiling, succeed, and no two consecutive iterates are equal. -/
def ChangesThroughout
    (step : Expr → Except ExprError Expr)
    (expr : Expr)
    (ceiling : Nat) : Prop :=
  ∀ done < ceiling, ∃ before after,
    iterate step expr done = .ok before ∧
      iterate step expr (done + 1) = .ok after ∧ after ≠ before

/-- So many steps lead from one expression to another, and each of them changes something. -/
inductive Moves
    (step : Expr → Except ExprError Expr) : Nat → Expr → Expr → Prop where
  | none
      (expr : Expr) :
      Moves step 0 expr expr
  | next
      {steps : Nat}
      {expr after last : Expr}
      (stepped : step expr = .ok after)
      (changed : after ≠ expr)
      (later : Moves step steps after last) :
      Moves step (steps + 1) expr last

section Iterates

variable {step : Expr → Except ExprError Expr} {expr last : Expr} {steps ceiling : Nat}

theorem iterate_succ_of_ok
    {after : Expr}
    (stepped : step expr = .ok after)
    (steps : Nat) :
    iterate step expr (steps + 1) = iterate step after steps := by
  induction steps with
  | zero =>
      exact stepped
  | succ steps inductionHypothesis =>
      rw [iterate, inductionHypothesis]
      rfl

/-- Once steps have led somewhere, the next iterate is one more step. -/
theorem iterate_succ_eq
    (reached : iterate step expr steps = .ok last) :
    iterate step expr (steps + 1) = step last := by
  rw [iterate, reached]
  rfl

/-- A failure stays. -/
theorem iterate_eq_error
    {error : ExprError}
    (failed : iterate step expr steps = .error error)
    {later : Nat}
    (sooner : steps ≤ later) :
    iterate step expr later = .error error := by
  induction later, sooner using Nat.le_induction with
  | base =>
      exact failed
  | succ later _ inductionHypothesis =>
      rw [iterate, inductionHypothesis]
      rfl

/-- An expression that a step does not change stays. -/
theorem iterate_eq_of_fixed
    (reached : iterate step expr steps = .ok last)
    (settled : step last = .ok last)
    {later : Nat}
    (sooner : steps ≤ later) :
    iterate step expr later = .ok last := by
  induction later, sooner using Nat.le_induction with
  | base =>
      exact reached
  | succ later _ inductionHypothesis =>
      rw [iterate_succ_eq inductionHypothesis, settled]

namespace Moves

theorem iterate_eq
    (moves : Moves step steps expr last) :
    iterate step expr steps = .ok last := by
  induction moves with
  | none expr =>
      rfl
  | next stepped _ _ inductionHypothesis =>
      rw [iterate_succ_of_ok stepped, inductionHypothesis]

theorem changesThroughout
    (moves : Moves step steps expr last) :
    ChangesThroughout step expr steps := by
  intro done within
  induction moves generalizing done with
  | none expr =>
      cases within
  | @next steps expr after last stepped changed later inductionHypothesis =>
      cases done with
      | zero =>
          exact ⟨expr, after, rfl, stepped, changed⟩
      | succ done =>
          rw [iterate_succ_of_ok stepped, iterate_succ_of_ok stepped]
          exact inductionHypothesis done (Nat.lt_of_succ_lt_succ within)

end Moves

/-- While the iterates change, none of them is a fixed one. -/
theorem ChangesThroughout.notMem_fixedSteps
    (changes : ChangesThroughout step expr steps)
    {number : Nat}
    (within : number ≤ steps) :
    number ∉ fixedSteps step expr ceiling := by
  rintro ⟨⟨positive, -⟩, fixed, before, after⟩
  obtain ⟨number, rfl⟩ := Nat.exists_eq_add_one.mpr positive
  obtain ⟨before', after', atBefore, atAfter, changed⟩ := changes number within
  rw [Nat.add_sub_cancel, atBefore] at before
  rw [atAfter] at after
  cases before
  cases after
  exact changed rfl

/-- Steps change something each time until one changes nothing, one fails, or their number is used up. -/
theorem moves_cases
    (step : Expr → Except ExprError Expr)
    (expr : Expr)
    (ceiling : Nat) :
    (∃ steps fixed,
        steps < ceiling ∧ Moves step steps expr fixed ∧ step fixed = .ok fixed) ∨
      (∃ last, Moves step ceiling expr last) ∨
        ∃ steps last error,
          steps < ceiling ∧ Moves step steps expr last ∧
            step last = .error error := by
  induction ceiling generalizing expr with
  | zero =>
      exact .inr (.inl ⟨expr, .none expr⟩)
  | succ ceiling inductionHypothesis =>
      cases stepped : step expr with
      | error error =>
          exact .inr (.inr ⟨0, expr, error, ceiling.succ_pos, .none expr, stepped⟩)
      | ok after =>
          by_cases same : after = expr
          · rw [same] at stepped
            exact .inl ⟨0, expr, ceiling.succ_pos, .none expr, stepped⟩
          · rcases inductionHypothesis after with
              ⟨steps, fixed, within, moves, settled⟩ | ⟨last, moves⟩ |
                ⟨steps, last, error, within, moves, failed⟩
            · exact .inl ⟨steps + 1, fixed, Nat.succ_lt_succ within,
                .next stepped same moves, settled⟩
            · exact .inr (.inl ⟨last, .next stepped same moves⟩)
            · exact .inr (.inr ⟨steps + 1, last, error, Nat.succ_lt_succ within,
                .next stepped same moves, failed⟩)

/-! ## The loop -/

theorem settle?_of_moves_fixed
    (moves : Moves step steps expr last)
    (settled : step last = .ok last)
    (within : steps < ceiling)
    (done : Nat) :
    Expr.settle? step done expr ceiling = .ok (some (last, done + (steps + 1))) := by
  induction moves generalizing done ceiling with
  | none expr =>
      obtain ⟨ceiling, rfl⟩ := Nat.exists_eq_add_one.mpr within
      rw [Expr.settle?, settled, ok_bind, if_pos rfl]
      rfl
  | @next steps expr after last stepped changed later inductionHypothesis =>
      obtain ⟨ceiling, rfl⟩ :=
        Nat.exists_eq_add_one.mpr (Nat.lt_of_le_of_lt (Nat.zero_le _) within)
      rw [Expr.settle?, stepped, ok_bind, if_neg changed,
        inductionHypothesis settled (Nat.lt_of_succ_lt_succ within),
        Nat.add_right_comm done 1, Nat.add_assoc]

theorem settle?_of_moves
    (moves : Moves step ceiling expr last)
    (done : Nat) :
    Expr.settle? step done expr ceiling = .ok none := by
  induction moves generalizing done with
  | none expr =>
      rfl
  | next stepped changed later inductionHypothesis =>
      rw [Expr.settle?, stepped, ok_bind, if_neg changed, inductionHypothesis]

theorem settle?_of_moves_error
    (moves : Moves step steps expr last)
    {error : ExprError}
    (failed : step last = .error error)
    (within : steps < ceiling)
    (done : Nat) :
    Expr.settle? step done expr ceiling = .error error := by
  induction moves generalizing done ceiling with
  | none expr =>
      obtain ⟨ceiling, rfl⟩ := Nat.exists_eq_add_one.mpr within
      rw [Expr.settle?, failed]
      rfl
  | next stepped changed later inductionHypothesis =>
      obtain ⟨ceiling, rfl⟩ :=
        Nat.exists_eq_add_one.mpr (Nat.lt_of_le_of_lt (Nat.zero_le _) within)
      rw [Expr.settle?, stepped, ok_bind, if_neg changed,
        inductionHypothesis failed (Nat.lt_of_succ_lt_succ within)]

/-- The step that changes nothing is the first one after those that change something. -/
theorem Moves.isLeast_fixedSteps
    (moves : Moves step steps expr last)
    (settled : step last = .ok last)
    (within : steps < ceiling) :
    IsLeast (fixedSteps step expr ceiling) (steps + 1) := by
  refine ⟨⟨⟨steps.succ_pos, within⟩, last, moves.iterate_eq, ?_⟩, ?_⟩
  · rw [iterate_succ_eq moves.iterate_eq, settled]
  · intro number isFixed
    by_contra before
    exact moves.changesThroughout.notMem_fixedSteps
      (Nat.le_of_lt_succ (Nat.lt_of_not_le before)) isFixed

/-- After a step that fails there are no iterates. -/
theorem Moves.fixedSteps_eq_empty
    (moves : Moves step steps expr last)
    {error : ExprError}
    (failed : step last = .error error) :
    fixedSteps step expr ceiling = ∅ := by
  refine Set.eq_empty_of_forall_notMem fun number isFixed => ?_
  have later : steps < number := by
    by_contra before
    exact moves.changesThroughout.notMem_fixedSteps (Nat.le_of_not_lt before) isFixed
  obtain ⟨-, fixed, -, reached⟩ := isFixed
  have fails : iterate step expr (steps + 1) = .error error := by
    rw [iterate_succ_eq moves.iterate_eq, failed]
  rw [iterate_eq_error fails later] at reached
  cases reached

/-- The loop returns the first iterate that equals the one before it. -/
theorem settle?_eq_some_iff
    {result : Expr}
    {passes : Nat} :
    Expr.settle? step 0 expr ceiling = .ok (some (result, passes)) ↔
      IsLeast (fixedSteps step expr ceiling) passes ∧
        iterate step expr passes = .ok result := by
  rcases moves_cases step expr ceiling with
    ⟨steps, fixed, within, moves, settled⟩ | ⟨last, moves⟩ |
      ⟨steps, last, error, within, moves, failed⟩
  · have least := moves.isLeast_fixedSteps settled within
    have reached : iterate step expr (steps + 1) = .ok fixed := by
      rw [iterate_succ_eq moves.iterate_eq, settled]
    rw [settle?_of_moves_fixed moves settled within, Nat.zero_add]
    constructor
    · intro same
      cases same
      exact ⟨least, reached⟩
    · rintro ⟨isLeast, returned⟩
      obtain rfl := isLeast.unique least
      rw [reached] at returned
      cases returned
      rfl
  · rw [settle?_of_moves moves]
    refine ⟨nofun, fun ⟨isLeast, _⟩ => ?_⟩
    exact absurd isLeast.1
      (moves.changesThroughout.notMem_fixedSteps isLeast.1.1.2)
  · rw [settle?_of_moves_error moves failed within, moves.fixedSteps_eq_empty failed]
    exact ⟨nofun, fun ⟨isLeast, _⟩ => absurd isLeast.1 (Set.notMem_empty _)⟩

/-- The loop gives up exactly if the iterates change all the time. -/
theorem settle?_eq_none_iff :
    Expr.settle? step 0 expr ceiling = .ok none ↔
      ChangesThroughout step expr ceiling := by
  rcases moves_cases step expr ceiling with
    ⟨steps, fixed, within, moves, settled⟩ | ⟨last, moves⟩ |
      ⟨steps, last, error, within, moves, failed⟩
  · rw [settle?_of_moves_fixed moves settled within]
    refine ⟨nofun, fun changes => ?_⟩
    have least := moves.isLeast_fixedSteps settled within
    exact absurd least.1 (changes.notMem_fixedSteps within)
  · rw [settle?_of_moves moves]
    exact ⟨fun _ => moves.changesThroughout, fun _ => rfl⟩
  · rw [settle?_of_moves_error moves failed within]
    refine ⟨nofun, fun changes => ?_⟩
    obtain ⟨before, after, -, reached, -⟩ := changes steps within
    rw [iterate_succ_eq moves.iterate_eq, failed] at reached
    cases reached

/-- The error of the loop is that of the first step that fails. -/
theorem settle?_eq_error_iff
    {error : ExprError} :
    Expr.settle? step 0 expr ceiling = .error error ↔
      ∃ steps < ceiling, ∃ last,
        iterate step expr steps = .ok last ∧ step last = .error error := by
  rcases moves_cases step expr ceiling with
    ⟨steps, fixed, within, moves, settled⟩ | ⟨last, moves⟩ |
      ⟨steps, last, error', within, moves, failed⟩
  · rw [settle?_of_moves_fixed moves settled within]
    refine ⟨nofun, fun ⟨steps', _, last, reached, failed⟩ => ?_⟩
    have fails := iterate_succ_eq reached
    rw [failed] at fails
    rcases Nat.lt_or_ge steps' steps with sooner | later
    · obtain ⟨before, after, -, succeeds, -⟩ := moves.changesThroughout steps' sooner
      rw [fails] at succeeds
      cases succeeds
    · rw [iterate_eq_of_fixed moves.iterate_eq settled (Nat.le_succ_of_le later)] at fails
      cases fails
  · rw [settle?_of_moves moves]
    refine ⟨nofun, fun ⟨steps, within, last, reached, failed⟩ => ?_⟩
    obtain ⟨before, after, -, later, -⟩ := moves.changesThroughout steps within
    rw [iterate_succ_eq reached, failed] at later
    cases later
  · rw [settle?_of_moves_error moves failed within]
    constructor
    · intro same
      cases same
      exact ⟨steps, within, last, moves.iterate_eq, failed⟩
    · rintro ⟨steps', -, last', reached', failed'⟩
      have first := iterate_succ_eq moves.iterate_eq
      have second := iterate_succ_eq reached'
      rw [failed] at first
      rw [failed'] at second
      rcases Nat.le_total (steps + 1) (steps' + 1) with sooner | later
      · rw [iterate_eq_error first sooner] at second
        cases second
        rfl
      · rw [iterate_eq_error second later] at first
        cases first
        rfl

end Iterates

end SymbolicAlgebra
