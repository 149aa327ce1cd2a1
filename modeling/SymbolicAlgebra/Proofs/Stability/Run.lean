import SymbolicAlgebra.Proofs.Stability.Client

/-!
# What clients obtain is stable

Each request of a client yields a stable term if all terms that the client holds are stable, and so does each
rule that it hands over.  So everything that a client ever holds is stable.
-/

namespace SymbolicAlgebra

open SymbolicAlgebra.Expr Effect

/-! ## Matches -/

section Matches

variable {family : Expr → Prop}

/-- All values of the bindings are members. -/
def Bindings.Within
    (bindings : Bindings)
    (family : Expr → Prop) : Prop :=
  ∀ entry ∈ bindings.entries, family entry.2

theorem within_of_bind?
    {bindings extended : Bindings}
    {identity : Wildcard}
    {value : Expr}
    (within : bindings.Within family)
    (member : family value)
    (bound : bindings.bind? identity value = some extended) :
    extended.Within family := by
  unfold Bindings.bind? at bound
  split at bound
  · split at bound
    · cases bound
      exact within
    · cases bound
  · cases bound
    exact List.forall_mem_append.mpr
      ⟨within, List.forall_mem_singleton.mpr member⟩

theorem within_of_unifyArgs?
    {patterns subjects : List Expr}
    {bindings extended : Bindings}
    (each :
      ∀ pattern ∈ patterns, ∀ {subject bindings extended},
        family subject → bindings.Within family →
          unify? subject pattern bindings = some extended →
            extended.Within family)
    (members : ∀ subject ∈ subjects, family subject)
    (within : bindings.Within family)
    (matched : unifyArgs? subjects patterns bindings = some extended) :
    extended.Within family := by
  induction patterns generalizing subjects bindings with
  | nil =>
      cases subjects <;>
        · cases matched
          exact within
  | cons pattern patterns inductionHypothesis =>
      obtain ⟨first, later⟩ := List.forall_mem_cons.mp each
      cases subjects with
      | nil =>
          cases matched
          exact within
      | cons subject subjects =>
          obtain ⟨member, restMembers⟩ := List.forall_mem_cons.mp members
          simp only [unifyArgs?] at matched
          split at matched
          · rename_i middle unified
            exact inductionHypothesis later restMembers
              (first member within unified) matched
          · cases matched

/-- A match binds parts of its subject. -/
theorem within_of_unify?
    (closed : ClosedUnderParts family)
    {pattern subject : Expr}
    {bindings extended : Bindings}
    (member : family subject)
    (within : bindings.Within family)
    (matched : unify? subject pattern bindings = some extended) :
    extended.Within family := by
  induction pattern generalizing subject bindings extended with
  | wildcard identity =>
      simp only [unify?] at matched
      exact within_of_bind? within member matched
  | apply head args headHypothesis argsHypothesis =>
      cases subject with
      | apply head' args' =>
          simp only [unify?] at matched
          split at matched
          · split at matched
            · rename_i middle headMatched
              refine within_of_unifyArgs? (fun pattern isArg => ?_)
                (fun arg isArg => closed.arg member isArg)
                (headHypothesis (closed.head member) within headMatched) matched
              exact argsHypothesis pattern isArg
            · cases matched
          · cases matched
      | _ =>
          cases matched
  | _ =>
      simp only [unify?] at matched
      split at matched
      · cases matched
        exact within
      · cases matched

end Matches

/-! ## Requests -/

/-- What is found at places that are looked up one after the other has what each finding has. -/
theorem forall_mem_of_mapM
    {α β : Type}
    {find? : α → Option β}
    {property : β → Prop}
    (each : ∀ {item found}, find? item = some found → property found)
    {items : List α}
    {findings : List β}
    (found : items.mapM find? = some findings) :
    ∀ finding ∈ findings, property finding := by
  induction items generalizing findings with
  | nil =>
      cases found
      exact List.forall_mem_nil _
  | cons item rest inductionHypothesis =>
      rw [List.mapM_cons] at found
      obtain ⟨first, firstFound, found⟩ := Option.bind_eq_some_iff.mp found
      obtain ⟨later, laterFound, found⟩ := Option.bind_eq_some_iff.mp found
      cases found
      exact List.forall_mem_cons.mpr
        ⟨each firstFound, inductionHypothesis laterFound⟩

section Requests

variable {table : SymbolTable} {expr : Expr}

theorem stableIn_head
    (stable : expr.StableIn table) :
    expr.head.StableIn table := by
  cases expr with
  | apply head args =>
      exact (StableIn.apply_iff.mp stable).2.1
  | _ =>
      exact stable

theorem stableIn_arg
    {index : Nat}
    {arg : Expr}
    (stable : expr.StableIn table)
    (found : expr.args[index]? = some arg) :
    arg.StableIn table := by
  cases expr with
  | apply head args =>
      exact (StableIn.apply_iff.mp stable).2.2 arg (List.mem_of_getElem? found)
  | _ =>
      cases found

/-- Requests yield stable terms if everything that is held is stable. -/
theorem Request.yieldsAt
    {held : List Expr}
    {session : Session}
    {action : Action Expr}
    {request : Request}
    (stable : ∀ expr ∈ held, expr.StableIn session.workspace.table)
    (answered : request.action? held = some action) :
    YieldsAt session action Stable := by
  have extended := SymbolTable.ExtendedBy.refl session.workspace.table
  have valid := valid_session session
  have stableAt
      {place : Nat}
      {expr : Expr}
      (found : held[place]? = some expr) :
      expr.StableIn session.workspace.table :=
    stable expr (List.mem_of_getElem? found)
  have leaf
      {expr : Expr}
      (isLeaf : expr.isLeaf = true)
      (admitted : session.workspace.table.Admits expr) :
      YieldsAt session (pure expr) Stable :=
    .pure valid (Everywhere.of_isLeaf isLeaf admitted)
  cases request with
  | number value =>
      cases answered
      exact leaf rfl trivial
  | boolean value =>
      cases answered
      exact leaf rfl trivial
  | wildcard identity =>
      cases answered
      exact leaf rfl trivial
  | symbol name =>
      cases answered
      refine .of_run rfl (Session.continues_intern session name none)
        (valid_session _) fun value same => ?_
      cases same
      exact .symbol_intern _ _ _
  | operator name spec =>
      cases answered
      exact Session.yields_register name spec session extended valid
  | head place =>
      obtain ⟨expr, found, answered⟩ := Option.bind_eq_some_iff.mp answered
      cases answered
      exact .pure valid (stableIn_head (stableAt found))
  | arg place index =>
      obtain ⟨expr, found, answered⟩ := Option.bind_eq_some_iff.mp answered
      obtain ⟨arg, argFound, answered⟩ := Option.bind_eq_some_iff.mp answered
      cases answered
      exact .pure valid (stableIn_arg (stableAt found) argFound)
  | apply callee operands =>
      obtain ⟨head, headFound, answered⟩ := Option.bind_eq_some_iff.mp answered
      obtain ⟨args, argsFound, answered⟩ := Option.bind_eq_some_iff.mp answered
      cases answered
      exact Session.yields_apply (stableAt headFound)
        (forall_mem_of_mapM stableAt argsFound) session extended valid
  | substitute entries place =>
      obtain ⟨entries, entriesFound, answered⟩ :=
        Option.bind_eq_some_iff.mp answered
      obtain ⟨expr, found, answered⟩ := Option.bind_eq_some_iff.mp answered
      cases answered
      refine Session.yields_substitute
        (forall_mem_of_mapM (fun {places entry} entryFound => ?_) entriesFound)
        (stableAt found) session extended valid
      obtain ⟨key, -, entryFound⟩ := Option.bind_eq_some_iff.mp entryFound
      obtain ⟨value, valueFound, entryFound⟩ :=
        Option.bind_eq_some_iff.mp entryFound
      cases entryFound
      exact stableAt valueFound
  | instantiate subject pattern template =>
      obtain ⟨subject, subjectFound, answered⟩ :=
        Option.bind_eq_some_iff.mp answered
      obtain ⟨pattern, -, answered⟩ := Option.bind_eq_some_iff.mp answered
      obtain ⟨bindings, matched, answered⟩ := Option.bind_eq_some_iff.mp answered
      obtain ⟨template, templateFound, answered⟩ :=
        Option.bind_eq_some_iff.mp answered
      cases answered
      have within : bindings.Within (StableIn session.workspace.table) :=
        within_of_unify? Everywhere.closedUnderParts (stableAt subjectFound)
          (List.forall_mem_nil _) matched
      refine Session.yields_substitute (fun entry isEntry => ?_)
        (stableAt templateFound) session extended valid
      obtain ⟨binding, isBinding, rfl⟩ := List.mem_map.mp isEntry
      exact within binding isBinding
  | transform rule place =>
      obtain ⟨rule, ruleFound, answered⟩ := Option.bind_eq_some_iff.mp answered
      obtain ⟨expr, found, answered⟩ := Option.bind_eq_some_iff.mp answered
      cases answered
      refine .get_bind (.pure valid ?_)
      refine stableIn_getD (stableAt found) fun replacement transformed => ?_
      exact Session.stable_of_transform? (List.mem_of_getElem? ruleFound)
        (stableAt found) transformed

end Requests

/-! ## Programs -/

section Programs

variable {client : Client}

/-- A client may get hold of what is stable. -/
theorem Host.Valid.hold
    {expr : Expr}
    (valid : Host.Valid client)
    (stable : expr.StableIn client.session.workspace.table) :
    Host.Valid { client with held := client.held ++ [expr] } :=
  List.forall_mem_append.mpr ⟨valid, List.forall_mem_singleton.mpr stable⟩

theorem Client.yieldsAt_obtain
    {step? : Option (Effect Client Expr)}
    (valid : Host.Valid client)
    (yields : ∀ step, step? = some step → YieldsAt client step Stable) :
    YieldsAt client (obtain step?) fun _ _ => True := by
  cases step? with
  | none =>
      exact .pure valid trivial
  | some step =>
      obtain ⟨continues, validAfter, answers⟩ := yields step rfl
      generalize ran : step.run client = outcome at continues validAfter answers
      obtain ⟨outcome, after⟩ := outcome
      cases outcome with
      | error error =>
          have run :
              (Client.obtain (some step)).run client =
                (.ok (some error), after) := by
            simp only [ExceptT.run, obtain] at ran ⊢
            rw [ran]
          exact .of_run run continues validAfter fun _ _ => trivial
      | ok expr =>
          have run :
              (Client.obtain (some step)).run client =
                (.ok none, { after with held := after.held ++ [expr] }) := by
            simp only [ExceptT.run, obtain] at ran ⊢
            rw [ran]
          exact .of_run run ⟨continues.extended, continues.busy⟩
            (validAfter.hold (answers expr rfl)) fun _ _ => trivial

theorem Client.builds_build :
    Builds build :=
  fun headStable argsStable client extended valid =>
    .inSession valid
      (Session.yields_apply headStable argsStable client.session extended
        (valid_session _))

/-- What is found at a place is stable. -/
theorem Client.stable_of_held
    {place : Nat}
    {expr : Expr}
    (valid : Host.Valid client)
    (found : client.held[place]? = some expr) :
    expr.StableIn client.session.workspace.table :=
  valid expr (List.mem_of_getElem? found)

namespace Program

mutual

/-- A program keeps all that its client holds stable, and answers with something stable, if at all. -/
theorem yieldsAt_run
    (program : Program)
    {client : Client}
    (valid : Host.Valid client) :
    YieldsAt client program.run StableReplacement := by
  cases program with
  | stop answer =>
      refine .get_bind (.pure valid fun expr same => ?_)
      obtain ⟨place, -, found⟩ := Option.bind_eq_some_iff.mp same
      exact Client.stable_of_held valid found
  | abort error =>
      exact .throw valid error
  | configure ceiling next =>
      refine (YieldsAt.inSession valid (.modify ⟨.refl _, rfl⟩)).bind
        fun {after _} _ valid _ => .get_bind ?_
      exact yieldsAt_run (next after) valid
  | ask request next =>
      refine .get_bind ((Client.yieldsAt_obtain valid fun step same => ?_).bind
        fun {after error} _ valid _ => .get_bind ?_)
      · obtain ⟨action, answered, rfl⟩ := Option.map_eq_some_iff.mp same
        exact .inSession valid (Request.yieldsAt valid answered)
      · exact yieldsAt_run (next error after) valid
  | walk rules place next =>
      refine .get_bind ((Client.yieldsAt_obtain valid fun step same => ?_).bind
        fun {after error} _ valid _ => .get_bind ?_)
      · obtain ⟨expr, found, rfl⟩ := Option.map_eq_some_iff.mp same
        have stable := Client.stable_of_held valid found
        refine (Yields.walk Client.builds_build (visitsStably_visit rules) stable
          client (.refl _) valid).bind
            fun {after replaced} continues valid replacedStable => .pure valid ?_
        exact stableIn_getD (stable.mono continues.extended) replacedStable
      · exact yieldsAt_run (next error after) valid
  | simplify rules ceiling place next =>
      refine .get_bind ((Client.yieldsAt_obtain valid fun step same => ?_).bind
        fun {after error} _ valid _ => .get_bind ?_)
      · obtain ⟨expr, found, rfl⟩ := Option.map_eq_some_iff.mp same
        have stable := Client.stable_of_held valid found
        exact (Yields.exclusively stable
          (Yields.settle Client.builds_build (visitsStably_visit rules) ceiling
            stable) client (.refl _) valid).bind
              fun _ valid answerStable => .pure valid answerStable
      · exact yieldsAt_run (next error after) valid

/-- Rules replace stable nodes by stable ones. -/
theorem visitsStably_visit
    (rules : List (String × (Client → Program)))
    {table : SymbolTable} :
    VisitsStably table (visit rules) := by
  intro later node further stable client extended valid
  cases rules with
  | nil =>
      exact .pure valid nofun
  | cons rule rest =>
      have stable := stable.mono extended
      refine (yieldsAt_visitWith rule valid stable).bind
        fun {after replacement} continues valid replaced => ?_
      cases replacement with
      | none =>
          exact visitsStably_visit rest (.refl _)
            (stable.mono continues.extended) after (.refl _) valid
      | some replacement =>
          have stable := replaced replacement rfl
          refine (visitsStably_visit rest (.refl _) stable after (.refl _) valid).bind
            fun {last result} continues valid resultStable => .pure valid ?_
          intro value same
          cases same
          exact stableIn_getD (stable.mono continues.extended) resultStable

/-- So does each of them. -/
theorem yieldsAt_visitWith
    (rule : String × (Client → Program))
    {client : Client}
    {node : Expr}
    (valid : Host.Valid client)
    (stable : node.StableIn client.session.workspace.table) :
    YieldsAt client (visitWith rule node) StableReplacement := by
  obtain ⟨name, program⟩ := rule
  have holds :
      YieldsAt client
        (modify fun client => { client with held := client.held ++ [node] })
        fun _ (_ : PUnit) => True :=
    .of_run rfl ⟨.refl _, rfl⟩ (valid.hold stable) fun _ _ => trivial
  refine holds.bind fun {after _} _ valid _ => .get_bind ?_
  refine (yieldsAt_run (program after) valid).bind
    fun {last replacement} _ valid replaced => ?_
  refine (YieldsAt.inSession valid (Session.yieldsAt_observe _ _ _ _)).bind
    fun continues valid _ => .pure valid ?_
  exact fun value same => (replaced value same).mono continues.extended

end

end Program

end Programs

end SymbolicAlgebra
