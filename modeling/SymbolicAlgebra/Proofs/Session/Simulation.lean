import SymbolicAlgebra.Proofs.Stability.Obtained
import SymbolicAlgebra.Proofs.Traversal

/-!
# Steps that simulate each other

Two steps, each of a state of its own, simulate each other if they have the same outcome and lead from related
states to related ones.  Walks do so if building and visiting do, and so do passes that are repeated until nothing
changes.  Steps inside a simplification build terms raw, so nothing but raw construction makes them fail.
-/

namespace SymbolicAlgebra

/-- Raw construction fails for want of arguments, or because an evaluator rejects its operands. -/
def ExprError.OfConstruction : ExprError → Prop
  | emptyArguments _ | evaluation .. => True
  | indexOutOfRange .. | nonTerminating _ => False

theorem OperatorSpec.ofConstruction_of_evaluateLiterals?
    {spec : OperatorSpec}
    {name : String}
    {args : List Expr}
    {error : ExprError}
    (rejects : spec.evaluateLiterals? name args = some (.error error)) :
    error.OfConstruction := by
  unfold evaluateLiterals? at rejects
  split at rejects
  · obtain ⟨evaluator, -, computed⟩ := Option.map_eq_some_iff.mp rejects
    dsimp only at computed
    generalize (spec.coerce _ >>= _) = outcome at computed
    cases outcome with
    | error reason =>
        cases computed
        trivial
    | ok value =>
        cases computed
  · cases rejects

theorem SymbolTable.ofConstruction_of_construct
    {table : SymbolTable}
    {head : Expr}
    {args : List Expr}
    {error : ExprError}
    (fails : table.construct head args = .error error) :
    error.OfConstruction := by
  unfold construct at fails
  split at fails
  · cases fails
    trivial
  · split at fails
    · cases fails
    · split at fails
      · rename_i outcome evaluated
        subst fails
        exact OperatorSpec.ofConstruction_of_evaluateLiterals? evaluated
      · split at fails
        · cases fails
        · split at fails <;> cases fails

namespace Host

variable {σ : Type} [Host σ] {state : σ} {subject : Expr}
  {work : Effect σ (Expr × Stats)}

/-- A request during a simplification is answered with its subject and leaves nothing but a note. -/
theorem run_exclusively_of_busy
    (busy : (session state).busy = true) :
    (exclusively subject work).run state =
      (.ok (subject, { reentrant := true }),
        withSession state ((session state).note (.refused subject))) :=
  if_pos busy

/-- The state in which the work of a request is done. -/
def entered
    (state : σ) : σ :=
  withSession state { session state with busy := true, changes := 0 }

/-- A request outside of simplifications is the only one while its work is done. -/
theorem run_exclusively_of_idle
    (idle : (session state).busy = false) :
    (exclusively subject work).run state =
      ((work.run (entered state)).1,
        withSession (work.run (entered state)).2
          { session (work.run (entered state)).2 with busy := false }) :=
  if_neg (by simp [idle])

/-- A simplification repeats passes and notes how this ended. -/
theorem run_settle
    (build : Expr → List Expr → Effect σ Expr)
    (visit : Expr → Effect σ (Option Expr))
    (ceiling : Nat)
    (subject : Expr)
    (state : σ) :
    (settle build visit ceiling subject).run state =
      match (Expr.settle? (Expr.onePass build visit) 0 subject ceiling).run state with
      | (.ok (some (result, passes)), after) =>
        (.ok (result, { passes, changes := (session after).changes }),
          withSession after
            ((session after).note
              (.settled passes (session after).changes result)))
      | (.ok none, after) =>
        (.error (.nonTerminating ceiling),
          withSession after ((session after).note (.abandoned ceiling subject)))
      | (.error error, after) => (.error error, after) := by
  refine (Effect.run_bind (Expr.settle? (Expr.onePass build visit) 0 subject ceiling) _
    state).trans ?_
  generalize (Expr.settle? (Expr.onePass build visit) 0 subject ceiling).run state = ran
  rcases ran with ⟨error | _ | ⟨result, passes⟩, after⟩ <;> rfl

end Host

namespace Effect

open Host

variable {σ τ α β : Type} {related : σ → τ → Prop} {state : σ} {state' : τ}
  {action : Effect σ α} {action' : Effect τ α}

/-- In the two states the steps have the same outcome, fail only by construction, and lead to related states. -/
structure SimulatesAt
    (related : σ → τ → Prop)
    (state : σ)
    (state' : τ)
    (action : Effect σ α)
    (action' : Effect τ α) : Prop where
  outcome :
    (action.run state).1 = (action'.run state').1
  fails :
    ∀ error, (action.run state).1 = .error error → error.OfConstruction
  ends :
    related (action.run state).2 (action'.run state').2

/-- In all related states the steps do so. -/
def Simulates
    (related : σ → τ → Prop)
    (action : Effect σ α)
    (action' : Effect τ α) : Prop :=
  ∀ {state state'},
    related state state' → SimulatesAt related state state' action action'

namespace SimulatesAt

theorem of_run
    {outcome : Except ExprError α}
    {after : σ}
    {after' : τ}
    (run : action.run state = (outcome, after))
    (run' : action'.run state' = (outcome, after'))
    (fails : ∀ error, outcome = .error error → error.OfConstruction)
    (ends : related after after') :
    SimulatesAt related state state' action action' := by
  refine ⟨?_, ?_, ?_⟩ <;> rw [run]
  · rw [run']
  · exact fails
  · rw [run']
    exact ends

/-- Steps that run as others do in other states. -/
theorem of_run_eq
    {first : σ}
    {first' : τ}
    {start : Effect σ α}
    {start' : Effect τ α}
    (later : SimulatesAt related state state' action action')
    (run : start.run first = action.run state)
    (run' : start'.run first' = action'.run state') :
    SimulatesAt related first first' start start' := by
  refine ⟨?_, ?_, ?_⟩ <;> rw [run]
  · rw [run']
    exact later.outcome
  · exact later.fails
  · rw [run']
    exact later.ends

theorem pure
    (start : related state state')
    (value : α) :
    SimulatesAt related state state' (Pure.pure value) (Pure.pure value) :=
  .of_run rfl rfl nofun start

/-- Steps after others. -/
theorem bind
    {next : α → Effect σ β}
    {next' : α → Effect τ β}
    (first : SimulatesAt related state state' action action')
    (later : ∀ value, Simulates related (next value) (next' value)) :
    SimulatesAt related state state' (action >>= next) (action' >>= next') := by
  obtain ⟨outcome, fails, ends⟩ := first
  have run := run_bind action next state
  have run' := run_bind action' next' state'
  generalize action.run state = ran at outcome fails ends run
  generalize action'.run state' = ran' at outcome ends run'
  obtain ⟨outcome₁, after⟩ := ran
  obtain ⟨outcome₂, after'⟩ := ran'
  obtain rfl : outcome₁ = outcome₂ := outcome
  cases outcome₁ with
  | error error =>
      exact .of_run run run' (fun _ same => fails _ (by cases same; rfl)) ends
  | ok value =>
      obtain ⟨outcome, fails, ends⟩ := later value ends
      refine ⟨?_, ?_, ?_⟩ <;> rw [run]
      · rw [run']
        exact outcome
      · exact fails
      · rw [run']
        exact ends

/-- Steps that look at the states first. -/
theorem get_bind
    {next : σ → Effect σ β}
    {next' : τ → Effect τ β}
    (simulates : SimulatesAt related state state' (next state) (next' state')) :
    SimulatesAt related state state' (get >>= next) (get >>= next') :=
  ⟨simulates.outcome, simulates.fails, simulates.ends⟩

end SimulatesAt

/-- Simulation holds of equal values and of steps that follow each other. -/
def simulation
    (related : σ → τ → Prop) :
    Correspondence (Effect σ) (Effect τ) where
  related := Simulates related
  pure value := fun start => .pure start value
  bind first later := fun start => (first start).bind later

/-! ## Simplifications -/

section Settle

variable {build : Expr → List Expr → Effect σ Expr}
  {build' : Expr → List Expr → Effect τ Expr}
  {visit : Expr → Effect σ (Option Expr)}
  {visit' : Expr → Effect τ (Option Expr)}

/-- Whole simplifications simulate each other as well, as far as the sessions have counted the same changes. -/
theorem Simulates.settle
    [Host σ]
    [Host τ]
    (builds : ∀ head args, Simulates related (build head args) (build' head args))
    (visits : ∀ node, Simulates related (visit node) (visit' node))
    (sameChanges :
      ∀ {state state'},
        related state state' → (session state).changes = (session state').changes)
    (noted :
      ∀ {state state'} (event : Event),
        related state state' →
          related (withSession state ((session state).note event))
            (withSession state' ((session state').note event)))
    (start : related state state')
    (ceiling : Nat)
    (subject : Expr) :
    ((Host.settle build visit ceiling subject).run state).1 =
        ((Host.settle build' visit' ceiling subject).run state').1 ∧
      related ((Host.settle build visit ceiling subject).run state).2
        ((Host.settle build' visit' ceiling subject).run state').2 := by
  obtain ⟨outcome, -, ends⟩ :=
    (simulation related).settle? ((simulation related).onePass builds visits) 0
      subject ceiling start
  rw [run_settle, run_settle]
  generalize (Expr.settle? (Expr.onePass build visit) 0 subject ceiling).run state = ran
    at outcome ends
  generalize (Expr.settle? (Expr.onePass build' visit') 0 subject ceiling).run state' =
    ran' at outcome ends
  obtain ⟨outcome₁, after⟩ := ran
  obtain ⟨outcome₂, after'⟩ := ran'
  obtain rfl : outcome₁ = outcome₂ := outcome
  rcases outcome₁ with error | _ | ⟨result, passes⟩
  · exact ⟨rfl, ends⟩
  · exact ⟨rfl, noted _ ends⟩
  · dsimp only
    rw [sameChanges ends]
    exact ⟨rfl, noted _ ends⟩

end Settle

/-! ## More passes -/

/-- A loop that ends does the same if it is granted more passes. -/
theorem run_settle?_of_le
    {pass : Expr → Effect σ Expr}
    {after : σ}
    {done : Nat}
    {expr : Expr}
    {settled : Expr × Nat}
    {ceiling higher : Nat}
    (run :
      (Expr.settle? pass done expr ceiling).run state = (.ok (some settled), after))
    (raised : ceiling ≤ higher) :
    (Expr.settle? pass done expr higher).run state = (.ok (some settled), after) := by
  induction ceiling generalizing done expr state higher with
  | zero =>
      cases run
  | succ ceiling inductionHypothesis =>
      obtain ⟨higher, rfl⟩ :=
        Nat.exists_eq_add_one.mpr (Nat.lt_of_lt_of_le ceiling.succ_pos raised)
      rw [Expr.settle?, run_bind] at run ⊢
      rcases stepped : (pass expr).run state with ⟨error | next, middle⟩
      · rw [stepped] at run
        cases run
      · rw [stepped] at run
        dsimp only at run ⊢
        split at run
        · rename_i unchanged
          rw [if_pos unchanged]
          exact run
        · rename_i changed
          rw [if_neg changed]
          exact inductionHypothesis run (Nat.le_of_succ_le_succ raised)

end Effect

end SymbolicAlgebra
