import SymbolicAlgebra.Proofs.Session.Loop
import SymbolicAlgebra.Proofs.Session.Simulation

/-!
# Passes of a simplification

While a simplification is under way, what scripted rules make of an expression depends on the workspace and on
nothing else that a session carries: scripts build their terms raw, and their own requests are refused.  So
simplification iterates one function, and its answer can be read off the iterates.
-/

namespace SymbolicAlgebra

open Effect

theorem Action.run_attempt
    {α : Type}
    (action : Action α)
    (session : Session) :
    action.attempt.run session =
      (.ok (action.run session).1, (action.run session).2) :=
  rfl

/-! ## Scripts during a simplification -/

namespace Script

variable {session : Session}

/-- What a script builds comes back raw. -/
theorem run_build_of_busy
    (busy : session.busy = true)
    (head : Expr)
    (args : List Expr)
    (next : Except ExprError Expr → Script) :
    (build head args next).run.run session =
      (next (session.workspace.table.construct head args)).run.run session := by
  have raw :
      (Session.apply head args).run session =
        (session.workspace.table.construct head args, session) :=
    Session.buildsRaw_apply busy
  rw [run, run_bind, Action.run_attempt, raw]

/-- What a script wants simplified comes back as it is. -/
theorem run_simplify_of_busy
    (busy : session.busy = true)
    (rules : List ScriptedRule)
    (ceiling : Nat)
    (subject : Expr)
    (next : Except ExprError (Expr × Stats) → Script) :
    (simplify rules ceiling subject next).run.run session =
      (next (.ok (subject, { reentrant := true }))).run.run
        (session.note (.refused subject)) := by
  have refused :
      (Session.exclusively subject
          (Session.settle Session.apply (visit rules) ceiling subject)).run session =
        (.ok (subject, { reentrant := true }), session.note (.refused subject)) :=
    if_pos busy
  rw [run, run_bind, Action.run_attempt, refused]

end Script

/-! ## Sessions in step -/

namespace Session

/-- Both sessions are busy in a workspace, and the second one has counted so many changes more. -/
structure InStep
    (workspace : Workspace)
    (ahead : Nat)
    (first second : Session) : Prop where
  busy :
    first.busy = true ∧ second.busy = true
  workspace :
    first.workspace = workspace ∧ second.workspace = workspace
  changes :
    second.changes = first.changes + ahead

variable {workspace : Workspace} {ahead : Nat} {first second : Session}

theorem InStep.note
    (inStep : InStep workspace ahead first second)
    (event : Event) :
    InStep workspace ahead (first.note event) (second.note event) :=
  ⟨inStep.busy, inStep.workspace, inStep.changes⟩

theorem InStep.noteFiring
    (inStep : InStep workspace ahead first second)
    (rule : String)
    (before after : Expr) :
    InStep workspace ahead (first.noteFiring rule before after)
      (second.noteFiring rule before after) where
  busy :=
    inStep.busy
  workspace :=
    inStep.workspace
  changes := by
    change second.changes + 1 = first.changes + 1 + ahead
    rw [inStep.changes, Nat.add_right_comm]

theorem simulates_apply
    (head : Expr)
    (args : List Expr) :
    Simulates (InStep workspace ahead) (apply head args) (apply head args) := by
  intro first second inStep
  have raw : (apply head args).run first =
      (workspace.table.construct head args, first) :=
    inStep.workspace.1 ▸ buildsRaw_apply inStep.busy.1
  have raw' : (apply head args).run second =
      (workspace.table.construct head args, second) :=
    inStep.workspace.2 ▸ buildsRaw_apply inStep.busy.2
  exact .of_run raw raw' (fun _ => SymbolTable.ofConstruction_of_construct) inStep

theorem simulates_observe
    (rule : String)
    (node : Expr)
    (replacement : Option Expr) :
    Simulates (InStep workspace ahead) (observe rule node replacement)
      (observe rule node replacement) := by
  intro first second inStep
  unfold observe
  split
  · split
    · exact .pure inStep ()
    · exact .of_run rfl rfl nofun (inStep.noteFiring _ _ _)
  · exact .pure inStep ()

/-- Scripts in step stay in step. -/
theorem simulates_script : (script : Script) →
    Simulates (InStep workspace ahead) script.run script.run
  | .finish transform?, first, second, inStep => by
      have sameTable : first.workspace.table = second.workspace.table := by
        rw [inStep.workspace.1, inStep.workspace.2]
      have sameBuilder : first.builder = second.builder := by
        rw [builder, builder, if_pos inStep.busy.1, if_pos inStep.busy.2, sameTable]
      rw [Script.run]
      refine .get_bind ?_
      rw [sameTable, sameBuilder]
      exact .pure inStep _
  | .build head args next, first, second, inStep => by
      have later := simulates_script
        (next (workspace.table.construct head args)) inStep
      refine later.of_run_eq ?_ ?_
      · rw [Script.run_build_of_busy inStep.busy.1, inStep.workspace.1]
      · rw [Script.run_build_of_busy inStep.busy.2, inStep.workspace.2]
  | .simplify rules ceiling subject next, first, second, inStep =>
      (simulates_script (next (.ok (subject, { reentrant := true })))
        (inStep.note (.refused subject))).of_run_eq
          (Script.run_simplify_of_busy inStep.busy.1 ..)
          (Script.run_simplify_of_busy inStep.busy.2 ..)

theorem simulates_runAt
    (rule : ScriptedRule)
    (node : Expr) :
    Simulates (InStep workspace ahead) (Script.runAt rule node)
      (Script.runAt rule node) := by
  obtain ⟨name, script⟩ := rule
  intro first second inStep
  rw [Script.runAt]
  refine (simulates_script (script node) inStep).bind fun replacement _ _ middle => ?_
  exact (simulates_observe name node replacement middle).bind
    fun _ _ _ last => .pure last _

theorem simulates_visit
    (rules : List ScriptedRule)
    (node : Expr) :
    Simulates (InStep workspace ahead) (Script.visit rules node)
      (Script.visit rules node) := by
  induction rules generalizing node with
  | nil =>
      intro first second inStep
      rw [Script.visit]
      exact .pure inStep none
  | cons rule rest inductionHypothesis =>
      intro first second inStep
      rw [Script.visit]
      refine (simulates_runAt rule node inStep).bind fun replacement _ _ middle => ?_
      cases replacement with
      | none =>
          exact inductionHypothesis node middle
      | some after =>
          exact (inductionHypothesis after middle).bind fun later _ _ last => .pure last _

/-- Passes in step stay in step. -/
theorem simulates_walkScripted
    (rules : List ScriptedRule)
    (expr : Expr) :
    Simulates (InStep workspace ahead) (walkScripted rules expr)
      (walkScripted rules expr) :=
  (simulation _).onePass simulates_apply (simulates_visit rules) expr

/-! ## The function that a simplification iterates -/

/-- In sessions of a workspace, all busy or all not, a step has a certain outcome and leads to such a session. -/
def Evaluates
    {α : Type}
    (busy : Bool)
    (workspace : Workspace)
    (action : Action α)
    (outcome : Except ExprError α) : Prop :=
  ∀ session : Session,
    session.busy = busy → session.workspace = workspace →
      ∃ later,
        action.run session = (outcome, later) ∧
          later.busy = busy ∧ later.workspace = workspace

/-- So do returned values and steps that follow each other. -/
def evaluation
    (busy : Bool)
    (workspace : Workspace) :
    Correspondence Action (Except ExprError) where
  related := Evaluates busy workspace
  pure value := fun session marked same => ⟨session, rfl, marked, same⟩
  bind {α β first first' next next'} firstEvaluates laterEvaluates := by
    intro session marked same
    obtain ⟨middle, run, marked, same⟩ := firstEvaluates session marked same
    have followed := run_bind first next session
    rw [run] at followed
    cases first' with
    | error error =>
        exact ⟨middle, followed, marked, same⟩
    | ok value =>
        obtain ⟨later, run, ends⟩ := laterEvaluates value middle marked same
        exact ⟨later, followed.trans run, ends⟩

/-- A step that reads the session is what it is in the session that it reads. -/
theorem Evaluates.get_bind
    {α : Type}
    {busy : Bool}
    {workspace : Workspace}
    {next : Session → Action α}
    {outcome : Except ExprError α}
    (evaluates :
      ∀ session : Session,
        session.busy = busy → session.workspace = workspace →
          Evaluates busy workspace (next session) outcome) :
    Evaluates busy workspace (get >>= next) outcome :=
  fun session marked same => evaluates session marked same session marked same

/-- What one pass of scripted rules makes of an expression while a simplification is under way. -/
def passed
    (session : Session)
    (rules : List ScriptedRule)
    (expr : Expr) : Except ExprError Expr :=
  ((walkScripted rules expr).run { session with busy := true, changes := 0 }).1

variable {session : Session}

/-- Whatever else a busy session carries, a pass has the same outcome. -/
theorem evaluates_walkScripted
    (session : Session)
    (rules : List ScriptedRule)
    (expr : Expr) :
    Evaluates true session.workspace (walkScripted rules expr)
      (session.passed rules expr) := by
  intro inside busy same
  have inStep :
      InStep session.workspace inside.changes
        { session with busy := true, changes := 0 } inside :=
    ⟨⟨rfl, busy⟩, ⟨rfl, same⟩, (Nat.zero_add _).symm⟩
  obtain ⟨outcome, -, ends⟩ := simulates_walkScripted rules expr inStep
  exact ⟨((walkScripted rules expr).run inside).2, Prod.ext outcome.symm rfl,
    ends.busy.2, ends.workspace.2⟩

/-- Passes depend on the workspace only. -/
theorem passed_congr
    {later : Session}
    (same : later.workspace = session.workspace)
    (rules : List ScriptedRule) :
    later.passed rules = session.passed rules := by
  funext expr
  obtain ⟨_, run, -⟩ := evaluates_walkScripted session rules expr
    { later with busy := true, changes := 0 } rfl same
  rw [passed, run]

/-- A pass fails only by construction. -/
theorem ofConstruction_of_passed
    {rules : List ScriptedRule}
    {expr : Expr}
    {error : ExprError}
    (fails : session.passed rules expr = .error error) :
    error.OfConstruction := by
  have inStep :
      InStep session.workspace 0 { session with busy := true, changes := 0 }
        { session with busy := true, changes := 0 } :=
    ⟨⟨rfl, rfl⟩, ⟨rfl, rfl⟩, rfl⟩
  exact (simulates_walkScripted rules expr inStep).fails error fails

/-- The answer to a request whose passes have come to an end. -/
def answered
    (ceiling changes : Nat) :
    Except ExprError (Option (Expr × Nat)) → Except ExprError (Expr × Stats)
  | .ok (some (result, passes)) => .ok (result, { passes, changes })
  | .ok none => .error (.nonTerminating ceiling)
  | .error error => .error error

/-- Outside of simplifications a request is answered by that function repeated. -/
theorem run_simplifyScripted_of_idle
    (idle : session.busy = false)
    (rules : List ScriptedRule)
    (ceiling : Nat)
    (subject : Expr) :
    ∃ changes later,
      (simplifyScripted rules ceiling subject).run session =
          (answered ceiling changes
            (Expr.settle? (session.passed rules) 0 subject ceiling), later) ∧
        later.busy = false ∧ later.workspace = session.workspace := by
  obtain ⟨after, run, -, same⟩ :=
    (evaluation true session.workspace).settle? (evaluates_walkScripted session rules) 0
      subject ceiling (Host.entered session) rfl rfl
  have passes :
      (Expr.settle? (Expr.onePass apply (Script.visit rules)) 0 subject ceiling).run
          (Host.entered session) =
        (Expr.settle? (session.passed rules) 0 subject ceiling, after) :=
    run
  rw [simplifyScripted, ← Host.exclusively_session, ← Host.settle_session,
    Host.run_exclusively_of_idle idle, Host.run_settle, passes]
  rcases Expr.settle? (session.passed rules) 0 subject ceiling with
    error | _ | ⟨result, passes⟩
  · exact ⟨0, _, rfl, rfl, same⟩
  · exact ⟨0, _, rfl, rfl, same⟩
  · exact ⟨after.changes, _, rfl, rfl, same⟩

/-- A request that is answered is answered alike, and does the same, if it is granted more passes. -/
theorem run_simplifyScripted_of_le
    {rules : List ScriptedRule}
    {ceiling higher : Nat}
    {subject : Expr}
    {answer : Expr × Stats}
    (answers : ((simplifyScripted rules ceiling subject).run session).1 = .ok answer)
    (raised : ceiling ≤ higher) :
    (simplifyScripted rules higher subject).run session =
      (simplifyScripted rules ceiling subject).run session := by
  unfold simplifyScripted at answers ⊢
  rw [← Host.exclusively_session, ← Host.settle_session] at answers ⊢
  cases busy : session.busy with
  | true =>
      rw [Host.run_exclusively_of_busy busy, Host.run_exclusively_of_busy busy]
  | false =>
      rw [Host.run_exclusively_of_idle busy, Host.run_settle] at answers
      rw [Host.run_exclusively_of_idle busy, Host.run_exclusively_of_idle busy,
        Host.run_settle, Host.run_settle]
      rcases passes : (Expr.settle? (Expr.onePass apply (Script.visit rules)) 0 subject
          ceiling).run (Host.entered session) with ⟨error | _ | settled, after⟩
      · rw [passes] at answers
        cases answers
      · rw [passes] at answers
        cases answers
      · rw [run_settle?_of_le passes raised]

theorem answered_eq_ok_iff
    {ceiling changes passes : Nat}
    {outcome : Except ExprError (Option (Expr × Nat))}
    {result : Expr} :
    (∃ changes', answered ceiling changes outcome =
        .ok (result, { passes, changes := changes' })) ↔
      outcome = .ok (some (result, passes)) := by
  constructor
  · rintro ⟨changes', same⟩
    rcases outcome with error | _ | ⟨result', passes'⟩ <;> cases same
    rfl
  · rintro rfl
    exact ⟨changes, rfl⟩

/-- What is answered after a simplification does not say that it was refused. -/
theorem reentrant_of_answered
    {ceiling changes : Nat}
    {outcome : Except ExprError (Option (Expr × Nat))}
    {result : Expr}
    {stats : Stats}
    (answers : answered ceiling changes outcome = .ok (result, stats)) :
    stats.reentrant = false := by
  rcases outcome with error | _ | ⟨result', passes'⟩ <;> cases answers
  rfl

theorem ofConstruction_of_settle?
    {rules : List ScriptedRule}
    {subject : Expr}
    {ceiling : Nat}
    {error : ExprError}
    (fails : Expr.settle? (session.passed rules) 0 subject ceiling = .error error) :
    error.OfConstruction := by
  obtain ⟨_, _, _, _, failed⟩ := settle?_eq_error_iff.mp fails
  exact ofConstruction_of_passed failed

/-- What passes do not change is returned after one of them. -/
theorem exists_run_of_passed_eq
    (idle : session.busy = false)
    {rules : List ScriptedRule}
    {result : Expr}
    (settled : session.passed rules result = .ok result)
    {ceiling : Nat}
    (positive : 0 < ceiling) :
    ∃ changes,
      ((simplifyScripted rules ceiling result).run session).1 =
        .ok (result, { passes := 1, changes }) := by
  obtain ⟨changes, later, run, -⟩ :=
    run_simplifyScripted_of_idle idle rules ceiling result
  rw [settle?_of_moves_fixed (.none result) settled positive] at run
  exact ⟨changes, congrArg Prod.fst run⟩

/--
Outside of simplifications, let the step be what scripted rules make of an expression in one pass.  The answer to a
request is a result after some passes exactly if this is the least number of steps, at least one and at most the
ceiling, of which the last one changes nothing, and the result is the iterate.  The request is given up exactly if
the iterates up to the ceiling exist and each differs from the one before it.  It fails with another error exactly
if that is the error of the first step that fails, up to the ceiling.  A result is returned as it is, after one
pass, by the same simplifier, and more passes granted make no difference to the request.
-/
theorem simplifyScripted_exact
    (idle : session.busy = false)
    (rules : List ScriptedRule)
    (ceiling : Nat)
    (subject : Expr) :
    let step := session.passed rules
    let request := (simplifyScripted rules ceiling subject).run session
    (∀ result passes,
      (∃ changes, request.1 = .ok (result, { passes, changes })) ↔
        IsLeast (fixedSteps step subject ceiling) passes ∧
          iterate step subject passes = .ok result) ∧
    (request.1 = .error (.nonTerminating ceiling) ↔
      ChangesThroughout step subject ceiling) ∧
    (∀ error,
      request.1 = .error error ∧ error ≠ .nonTerminating ceiling ↔
        ∃ steps < ceiling, ∃ last,
          iterate step subject steps = .ok last ∧ step last = .error error) ∧
    (∀ result stats,
      request.1 = .ok (result, stats) →
        stats.reentrant = false ∧
        (request.2.busy = false ∧ request.2.workspace = session.workspace) ∧
        (∀ next : Session,
          next.busy = false → next.workspace = session.workspace →
            ∃ changes,
              ((simplifyScripted rules ceiling result).run next).1 =
                .ok (result, { passes := 1, changes })) ∧
        ∀ higher,
          ceiling ≤ higher →
            (simplifyScripted rules higher subject).run session = request) := by
  intro step request
  obtain ⟨changes, later, run, notBusy, same⟩ :=
    run_simplifyScripted_of_idle idle rules ceiling subject
  have answer :
      request.1 = answered ceiling changes (Expr.settle? step 0 subject ceiling) :=
    congrArg Prod.fst run
  have returned : ∀ result passes,
      (∃ changes, request.1 = .ok (result, { passes, changes })) ↔
        IsLeast (fixedSteps step subject ceiling) passes ∧
          iterate step subject passes = .ok result := by
    intro result passes
    rw [answer, answered_eq_ok_iff, settle?_eq_some_iff]
  refine ⟨returned, ?_, ?_, ?_⟩
  · rw [answer, ← settle?_eq_none_iff]
    rcases outcome : Expr.settle? step 0 subject ceiling with error | _ | settled
    · refine ⟨fun same => ?_, nofun⟩
      cases same
      exact (ofConstruction_of_settle? outcome).elim
    · exact ⟨fun _ => rfl, fun _ => rfl⟩
    · exact ⟨nofun, nofun⟩
  · intro error
    rw [← settle?_eq_error_iff, answer]
    rcases outcome : Expr.settle? step 0 subject ceiling with error' | _ | settled
    · constructor
      · rintro ⟨same, -⟩
        cases same
        rfl
      · rintro same
        cases same
        refine ⟨rfl, ?_⟩
        rintro rfl
        exact (ofConstruction_of_settle? outcome).elim
    · refine ⟨fun ⟨same, other⟩ => ?_, nofun⟩
      cases same
      exact (other rfl).elim
    · exact ⟨nofun, nofun⟩
  · intro result stats succeeds
    have direct := reentrant_of_answered (answer ▸ succeeds)
    obtain ⟨⟨⟨⟨positive, within⟩, fixed, before, after⟩, -⟩, reached⟩ :=
      (returned result stats.passes).mp ⟨stats.changes, by rw [succeeds, ← direct]⟩
    -- The last step has led from the result to itself.
    have settled : step result = .ok result := by
      rw [reached] at after
      cases after
      rw [← iterate_succ_eq before, Nat.sub_add_cancel positive, reached]
    refine ⟨direct, ⟨?_, ?_⟩, ?_, ?_⟩
    · rw [show request.2 = later from congrArg Prod.snd run, notBusy]
    · rw [show request.2 = later from congrArg Prod.snd run, same]
    · intro next idle same
      exact exists_run_of_passed_eq idle (passed_congr same rules ▸ settled)
        (Nat.lt_of_lt_of_le positive within)
    · intro higher raised
      exact run_simplifyScripted_of_le succeeds raised

/-- Takes `g` off, and turns `f` into `g` after asking for the node to be simplified, which is refused. -/
def unwrapping : List ScriptedRule :=
  [("strip", fun node =>
      .finish fun _ _ =>
        match node with
        | .apply (.symbol "g") [arg] => some arg
        | _ => none),
    ("unfold", fun node =>
      .simplify [] 8 node fun answer =>
        .finish fun _ _ =>
          match answer with
          | .ok (.apply (.symbol "f") [arg], { reentrant := true, .. }) =>
            some (.apply (.symbol "g") [arg])
          | _ => none)]

/-- From `f(x)` these rules lead over `g(x)` to `x`, and a third pass changes nothing. -/
theorem simplifyScripted_exact_unwrapping :
    let session : Session := {}
    let x := Expr.symbol "x"
    let step := session.passed unwrapping
    session.busy = false ∧
      IsLeast (fixedSteps step (.apply (.symbol "f") [x]) 5) 3 ∧
        iterate step (.apply (.symbol "f") [x]) 3 = .ok x := by
  refine ⟨rfl, ?_⟩
  have answers :
      ((simplifyScripted unwrapping 5 (.apply (.symbol "f") [.symbol "x"])).run {}).1 =
        .ok (.symbol "x", { passes := 3, changes := 2 }) := by
    decide +kernel
  exact ((simplifyScripted_exact rfl unwrapping 5 _).1 _ 3).mp ⟨2, answers⟩

end Session

end SymbolicAlgebra
