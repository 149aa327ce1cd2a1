import SymbolicAlgebra.Proofs.Session.Passes

/-!
# Rules without requests in a session

The rules of the library make no requests of their own, so following them as scripts is running them.  What a
session answers when nothing else is under way is then what its workspace answers by itself.
-/

namespace SymbolicAlgebra

open Effect

theorem Script.runAt_scripted
    (rule : Rule)
    (node : Expr) :
    runAt rule.scripted node =
      (do
        let session ← get
        let replacement :=
          rule.transform? session.workspace.table session.builder node
        Session.observe rule.name node replacement
        pure replacement) := by
  rw [Rule.scripted, runAt]
  simp only [run, bind_assoc, pure_bind]

theorem Script.visit_scripted
    (rules : List Rule)
    (node : Expr) :
    visit (rules.map Rule.scripted) node = Session.visitRules rules node := by
  induction rules generalizing node with
  | nil =>
      rw [List.map_nil, visit, Session.visitRules]
  | cons rule rest inductionHypothesis =>
      rw [List.map_cons, visit, Session.visitRules, runAt_scripted, bind_assoc]
      refine bind_congr fun session => ?_
      rw [bind_assoc]
      refine bind_congr fun _ => ?_
      rw [pure_bind]
      cases rule.transform? session.workspace.table session.builder node with
      | none =>
          exact inductionHypothesis node
      | some after =>
          dsimp only
          rw [inductionHypothesis]

namespace Session

/-- Two sessions are the same one, and it is busy. -/
def Coincide
    (first second : Session) : Prop :=
  first = second ∧ first.busy = true

theorem simulates_constructRaw
    (head : Expr)
    (args : List Expr) :
    Simulates Coincide (constructRaw head args) (apply head args) := by
  rintro session _ ⟨rfl, busy⟩
  exact .of_run (buildsRaw_constructRaw busy) (buildsRaw_apply busy)
    (fun _ => SymbolTable.ofConstruction_of_construct) ⟨rfl, busy⟩

theorem simulates_visitRules
    (rules : List Rule)
    (node : Expr) :
    Simulates Coincide (visitRules rules node)
      (Script.visit (rules.map Rule.scripted) node) := by
  rintro session _ ⟨rfl, busy⟩
  have inStep : InStep session.workspace 0 session session :=
    ⟨⟨busy, busy⟩, ⟨rfl, rfl⟩, rfl⟩
  have visits := simulates_visit (rules.map Rule.scripted) node inStep
  rw [Script.visit_scripted] at visits ⊢
  exact ⟨rfl, visits.fails, rfl, visits.ends.busy.1⟩

/-- Simplifying with rules is simplifying with the scripts that follow them. -/
theorem simplifyWith_eq_simplifyScripted
    (rules : List Rule)
    (ceiling : Nat)
    (subject : Expr) :
    simplifyWith rules ceiling subject =
      simplifyScripted (rules.map Rule.scripted) ceiling subject := by
  funext session
  change (simplifyWith rules ceiling subject).run session =
    (simplifyScripted (rules.map Rule.scripted) ceiling subject).run session
  unfold simplifyWith simplifyScripted
  rw [← Host.exclusively_session, ← Host.settle_session]
  cases busy : session.busy with
  | true =>
      rw [Host.run_exclusively_of_busy busy, Host.run_exclusively_of_busy busy]
  | false =>
      have start : Coincide (Host.entered session) (Host.entered session) :=
        ⟨rfl, rfl⟩
      obtain ⟨outcome, same, -⟩ :=
        Simulates.settle simulates_constructRaw (simulates_visitRules rules)
          (fun coincide => congrArg changes coincide.1)
          (fun event coincide => ⟨congrArg (note · event) coincide.1, coincide.2⟩)
          start ceiling subject
      rw [Host.run_exclusively_of_idle busy, Host.run_exclusively_of_idle busy,
        outcome, same]

/-! ## What the workspace answers -/

variable {workspace : Workspace}

theorem evaluates_apply
    (head : Expr)
    (args : List Expr) :
    Evaluates true workspace (apply head args) (workspace.table.construct head args) := by
  rintro session busy rfl
  exact ⟨session, buildsRaw_apply busy, busy, rfl⟩

theorem evaluates_observe
    (rule : String)
    (node : Expr)
    (replacement : Option Expr) :
    Evaluates true workspace (observe rule node replacement) (.ok ()) := by
  intro session busy same
  unfold observe
  split
  · split
    · exact ⟨session, rfl, busy, same⟩
    · exact ⟨_, rfl, busy, same⟩
  · exact ⟨session, rfl, busy, same⟩

theorem evaluates_visitRules
    (rules : List Rule)
    (node : Expr) :
    Evaluates true workspace (visitRules rules node)
      (.ok (transformAll?
        (rules.map (·.transform? workspace.table workspace.table.construct)) node)) := by
  induction rules generalizing node with
  | nil =>
      exact (evaluation true workspace).pure none
  | cons rule rest inductionHypothesis =>
      rw [visitRules]
      refine .get_bind ?_
      rintro session busy rfl
      have raw : session.builder = session.workspace.table.construct := if_pos busy
      rw [raw, List.map_cons, transformAll?]
      cases rule.transform? session.workspace.table session.workspace.table.construct
          node with
      | none =>
          exact (evaluation true session.workspace).bind
            (evaluates_observe rule.name node none) fun _ => inductionHypothesis node
      | some after =>
          exact (evaluation true session.workspace).bind
            (evaluates_observe rule.name node (some after)) fun _ =>
              (evaluation true session.workspace).bind (inductionHypothesis after)
                fun later => (evaluation true session.workspace).pure _

/-- In a pass during a simplification rules make of an expression what they make of it by themselves. -/
theorem passed_scripted
    (session : Session)
    (rules : List Rule) :
    session.passed (rules.map Rule.scripted) = pass session.workspace.table rules := by
  funext expr
  have visits : ∀ node,
      Evaluates true session.workspace (Script.visit (rules.map Rule.scripted) node)
        (.ok (transformAll?
          (rules.map (·.transform? session.workspace.table
            session.workspace.table.construct)) node)) := by
    intro node
    rw [Script.visit_scripted]
    exact evaluates_visitRules rules node
  obtain ⟨later, run, -⟩ :=
    (evaluation true session.workspace).onePass evaluates_apply visits expr
      { session with busy := true, changes := 0 } rfl rfl
  exact congrArg Prod.fst run

/-- Outside of simplifications a request with rules is answered by their fixed point. -/
theorem run_simplifyWith_of_idle
    {session : Session}
    (idle : session.busy = false)
    (rules : List Rule)
    (ceiling : Nat)
    (subject : Expr) :
    ∃ changes later,
      (simplifyWith rules ceiling subject).run session =
          ((fixedPoint session.workspace.table rules ceiling subject).map
            fun (result, passes) => (result, { passes, changes }), later) ∧
        later.busy = false ∧ later.workspace = session.workspace := by
  obtain ⟨changes, later, run, ends⟩ :=
    run_simplifyScripted_of_idle idle (rules.map Rule.scripted) ceiling subject
  refine ⟨changes, later, ?_, ends⟩
  rw [simplifyWith_eq_simplifyScripted, run, passed_scripted, fixedPoint]
  rcases Expr.settle? (pass session.workspace.table rules) 0 subject ceiling with
    error | _ | settled <;> rfl

theorem evaluates_constructRaw
    {busy : Bool}
    (head : Expr)
    (args : List Expr) :
    Evaluates busy workspace (constructRaw head args)
      (workspace.table.construct head args) := by
  rintro session marked rfl
  refine ⟨session, ?_, marked, rfl⟩
  change (Action.ofExcept (session.workspace.table.construct head args)).run session = _
  cases session.workspace.table.construct head args <;> rfl

/-- Outside of simplifications terms are built as the workspace builds them. -/
theorem evaluates_apply_of_idle
    (head : Expr)
    (args : List Expr) :
    Evaluates false workspace (apply head args) (workspace.apply head args) := by
  refine (evaluation false workspace).bind (evaluates_constructRaw head args) fun raw => ?_
  refine .get_bind fun session idle same => ?_
  rw [idle, Bool.or_false, same]
  cases raw.isLeaf with
  | true =>
      exact (evaluation false workspace).pure raw
  | false =>
      rintro session idle rfl
      obtain ⟨changes, later, run, ends⟩ :=
        run_simplifyWith_of_idle idle catalogue session.workspace.ceiling raw
      refine ⟨later, ?_, ends⟩
      rw [if_neg Bool.false_ne_true, if_neg Bool.false_ne_true, run_bind, run,
        Workspace.simplify]
      cases fixedPoint session.workspace.table catalogue session.workspace.ceiling
        raw <;> rfl

/-- Outside of simplifications expressions are replaced as the workspace replaces them. -/
theorem evaluates_substitute_of_idle
    (substitution : Substitution)
    (expr : Expr) :
    Evaluates false workspace (substitute substitution expr)
      (workspace.substitute substitution expr) :=
  (evaluation false workspace).onePass evaluates_apply_of_idle
    (fun node => (evaluation false workspace).pure (substitution.replacement? node)) expr

/-- During a simplification they are replaced with raw terms. -/
theorem evaluates_substitute
    (substitution : Substitution)
    (expr : Expr) :
    Evaluates true workspace (substitute substitution expr)
      (expr.onePass workspace.table.construct
        fun node => pure (substitution.replacement? node)) :=
  (evaluation true workspace).onePass evaluates_apply
    (fun node => (evaluation true workspace).pure (substitution.replacement? node)) expr

end Session

end SymbolicAlgebra
