import SymbolicAlgebra.Proofs.Stability.Term
import SymbolicAlgebra.Proofs.Substitution
import SymbolicAlgebra.Script

/-!
# Sessions keep terms stable

Whatever is asked of a session, names in use keep their properties, the busy mark is what it was, and the
answer is stable if everything handed in is.  The steps of a session serve any state that has a session in it:
besides the session itself, that of a caller who holds on to expressions.
-/

namespace SymbolicAlgebra

open SymbolicAlgebra.Expr

/-! ## States with a session -/

/-- A state with a session in it, and with expressions that somebody holds on to. -/
class Host (σ : Type) where
  session : σ → Session
  withSession : σ → Session → σ
  held : σ → List Expr
  session_withSession :
    ∀ state later, session (withSession state later) = later
  held_withSession :
    ∀ state later, held (withSession state later) = held state

instance : Host Session where
  session state := state
  withSession _ later := later
  held _ := []
  session_withSession _ _ := rfl
  held_withSession _ _ := rfl

/-- A step of a state: it may fail, and what it did to the state stays. -/
abbrev Effect (σ α : Type) :=
  ExceptT ExprError (StateM σ) α

namespace Host

variable {σ : Type} [Host σ]

/-- The names in use. -/
def table
    (state : σ) : SymbolTable :=
  (session state).workspace.table

/-- A step of the session alone. -/
def inSession
    {α : Type}
    (action : Action α) : Effect σ α :=
  fun state =>
    let (outcome, later) := action.run (session state)
    (outcome, withSession state later)

/-- Runs work on a subject as the only simplification of the session. -/
def exclusively
    (subject : Expr)
    (work : Effect σ (Expr × Stats)) : Effect σ (Expr × Stats) :=
  fun state =>
    if (session state).busy then
      (.ok (subject, { reentrant := true }),
        withSession state ((session state).note (.refused subject)))
    else
      let (outcome, later) :=
        work.run (withSession state { session state with busy := true, changes := 0 })
      (outcome, withSession later { session later with busy := false })

/-- Runs a visit at every node of an expression until a pass changes nothing. -/
def settle
    (build : Expr → List Expr → Effect σ Expr)
    (visit : Expr → Effect σ (Option Expr))
    (ceiling : Nat)
    (subject : Expr) : Effect σ (Expr × Stats) := do
  let pass (expr : Expr) : Effect σ Expr := do
    let replaced ← expr.walk build visit
    pure (replaced.getD expr)
  match ← Expr.settle? pass 0 subject ceiling with
  | some (result, passes) => inSession do
    let changes := (← get).changes
    modify (·.note (.settled passes changes result))
    pure (result, { passes, changes })
  | none => inSession do
    modify (·.note (.abandoned ceiling subject))
    throw (.nonTerminating ceiling)

theorem exclusively_session :
    exclusively = Session.exclusively :=
  rfl

theorem settle_session :
    settle = Session.settle :=
  rfl

/-- Everything that is held on to is stable. -/
def Valid
    (state : σ) : Prop :=
  ∀ expr ∈ held state, expr.StableIn (table state)

/-- The session has gone on: names have kept their properties, and the busy mark is the same. -/
structure Continues
    (state later : σ) : Prop where
  extended :
    (table state).ExtendedBy (table later)
  busy :
    (session later).busy = (session state).busy

namespace Continues

theorem refl
    (state : σ) :
    Continues state state :=
  ⟨.refl _, rfl⟩

theorem trans
    {first second third : σ}
    (former : Continues first second)
    (latter : Continues second third) :
    Continues first third :=
  ⟨former.extended.trans latter.extended, latter.busy.trans former.busy⟩

end Continues

/-- Expressions held on to stay stable while the session goes on. -/
theorem Valid.withSession
    {state : σ}
    {later : Session}
    (valid : Valid state)
    (extended : (table state).ExtendedBy later.workspace.table) :
    Valid (withSession state later) := by
  intro expr isHeld
  rw [held_withSession] at isHeld
  unfold table
  rw [session_withSession]
  exact (valid expr isHeld).mono extended

theorem table_withSession
    (state : σ)
    (later : Session) :
    table (withSession state later) = later.workspace.table := by
  rw [table, session_withSession]

end Host

/-! ## What steps yield -/

namespace Effect

open Host

variable {σ α β : Type} [Host σ]

/-- In a state the step lets the session go on, leaves what is held valid, and answers as required, if at all. -/
structure YieldsAt
    (state : σ)
    (action : Effect σ α)
    (result : SymbolTable → α → Prop) : Prop where
  continues :
    Continues state (action.run state).2
  valid :
    Valid (action.run state).2
  answers :
    ∀ value,
      (action.run state).1 = .ok value →
        result (table (action.run state).2) value

/-- In all valid states with the names of a table or more the step does so. -/
def Yields
    (table : SymbolTable)
    (action : Effect σ α)
    (result : SymbolTable → α → Prop) : Prop :=
  ∀ state : σ,
    table.ExtendedBy (Host.table state) → Valid state →
      YieldsAt state action result

omit [Host σ] in
/-- A step after another runs in the state that the first one leaves. -/
theorem run_bind
    (action : Effect σ α)
    (next : α → Effect σ β)
    (state : σ) :
    (action >>= next).run state =
      match action.run state with
      | (.ok value, after) => (next value).run after
      | (.error error, after) => (.error error, after) := by
  change (ExceptT.bindCont next (action.run state).1) (action.run state).2 = _
  rcases action.run state with ⟨_ | _, after⟩ <;> rfl

omit [Host σ] in
theorem run_map
    (change : α → β)
    (action : Effect σ α)
    (state : σ) :
    (change <$> action).run state =
      ((action.run state).1.map change, (action.run state).2) := by
  rw [ExceptT.run_map]
  rfl

section Steps

variable {state : σ} {action : Effect σ α} {next : α → Effect σ β}
  {result : SymbolTable → α → Prop} {result' : SymbolTable → β → Prop}

namespace YieldsAt

theorem of_run
    {outcome : Except ExprError α}
    {after : σ}
    (run : action.run state = (outcome, after))
    (continues : Continues state after)
    (valid : Valid after)
    (answers : ∀ value, outcome = .ok value → result (table after) value) :
    YieldsAt state action result := by
  refine ⟨?_, ?_, ?_⟩ <;> rw [run]
  · exact continues
  · exact valid
  · exact answers

theorem pure
    (valid : Valid state)
    {value : α}
    (holds : result (table state) value) :
    YieldsAt state (Pure.pure value) result :=
  ⟨.refl state, valid, fun _ same => Except.ok.inj same ▸ holds⟩

theorem throw
    (valid : Valid state)
    (error : ExprError) :
    YieldsAt state (MonadExcept.throw error) result :=
  ⟨.refl state, valid, nofun⟩

/-- A step after another. -/
theorem bind
    (first : YieldsAt state action result)
    (later :
      ∀ {after value},
        Continues state after → Valid after → result (table after) value →
          YieldsAt after (next value) result') :
    YieldsAt state (action >>= next) result' := by
  obtain ⟨continues, valid, answers⟩ := first
  have run := run_bind action next state
  generalize action.run state = outcome at continues valid answers run
  obtain ⟨outcome, after⟩ := outcome
  cases outcome with
  | error error =>
      exact .of_run run continues valid nofun
  | ok value =>
      have second := later continues valid (answers value rfl)
      exact .of_run run (continues.trans second.continues) second.valid
        second.answers

theorem mono
    {weaker : SymbolTable → α → Prop}
    (yields : YieldsAt state action result)
    (imp : ∀ {table value}, result table value → weaker table value) :
    YieldsAt state action weaker :=
  ⟨yields.continues, yields.valid,
    fun value same => imp (yields.answers value same)⟩

/-- A step that looks at the state first. -/
theorem get_bind
    {next : σ → Effect σ β}
    (yields : YieldsAt state (next state) result') :
    YieldsAt state (get >>= next) result' :=
  ⟨yields.continues, yields.valid, yields.answers⟩

/-- A step of the session alone. -/
theorem inSession
    {action : Action α}
    (valid : Valid state)
    (yields : YieldsAt (session state) action result) :
    YieldsAt state (Host.inSession action) result := by
  obtain ⟨continues, -, answers⟩ := yields
  refine ⟨⟨?_, ?_⟩, ?_, ?_⟩
  · change (table state).ExtendedBy (table (withSession state _))
    rw [table_withSession]
    exact continues.extended
  · change (session (withSession state _)).busy = _
    rw [session_withSession]
    exact continues.busy
  · exact valid.withSession continues.extended
  · intro value same
    change result (table (withSession state _)) value
    rw [table_withSession]
    exact answers value same

end YieldsAt

/-- A session holds on to nothing. -/
theorem valid_session
    (session : Session) :
    Valid session :=
  List.forall_mem_nil _

/-- A change of the session that keeps names and the busy mark. -/
theorem YieldsAt.modify
    {session : Session}
    {change : Session → Session}
    (continues : Continues session (change session)) :
    YieldsAt session (modify change) fun _ (_ : PUnit) => True :=
  ⟨continues, valid_session _, fun _ _ => trivial⟩

end Steps

/-! ## Walks -/

section Walk

/-- The result is stable. -/
abbrev Stable
    (table : SymbolTable)
    (expr : Expr) : Prop :=
  expr.StableIn table

/-- The replacement is stable, if there is one. -/
abbrev StableReplacement
    (table : SymbolTable)
    (replacement : Option Expr) : Prop :=
  ∀ after, replacement = some after → after.StableIn table

/-- Building with stable terms yields stable terms. -/
def Builds
    (build : Expr → List Expr → Effect σ Expr) : Prop :=
  ∀ {table head args},
    head.StableIn table → (∀ arg ∈ args, arg.StableIn table) →
      Yields table (build head args) Stable

/-- With the names of a table or more, visits of stable nodes yield stable replacements. -/
def VisitsStably
    (table : SymbolTable)
    (visit : Expr → Effect σ (Option Expr)) : Prop :=
  ∀ {later node},
    table.ExtendedBy later → node.StableIn later →
      Yields later (visit node) StableReplacement

variable {build : Expr → List Expr → Effect σ Expr}
  {visit : Expr → Effect σ (Option Expr)} {table : SymbolTable}

theorem VisitsStably.mono
    {later : SymbolTable}
    (visits : VisitsStably table visit)
    (extended : table.ExtendedBy later) :
    VisitsStably later visit :=
  fun further stable => visits (extended.trans further) stable

theorem stableIn_getD
    {expr : Expr}
    {replacement : Option Expr}
    (stable : expr.StableIn table)
    (replaced : StableReplacement table replacement) :
    (replacement.getD expr).StableIn table := by
  cases replacement with
  | none =>
      exact stable
  | some after =>
      exact replaced after rfl

theorem Yields.rebuild
    (builds : Builds build)
    {head : Expr}
    {args : List Expr}
    {head' : Option Expr}
    {args' : Option (List Expr)}
    (headStable : (head'.getD head).StableIn table)
    (argsStable : ∀ arg ∈ args'.getD args, arg.StableIn table) :
    Yields table (Expr.rebuild build head args head' args') StableReplacement := by
  intro state extended valid
  unfold Expr.rebuild
  split
  · exact .pure valid nofun
  · have yields := builds headStable argsStable state extended valid
    refine yields.bind (fun _ valid stable => .pure valid ?_)
    intro after same
    cases same
    exact stable

theorem Yields.walkArgs
    {args : List Expr}
    (each :
      ∀ arg ∈ args, ∀ {later},
        table.ExtendedBy later → arg.StableIn later →
          Yields later (arg.walk build visit) StableReplacement)
    (stable : ∀ arg ∈ args, arg.StableIn table) :
    Yields table (Expr.walkArgs build visit args) fun table args' =>
      ∀ arg ∈ args'.getD args, arg.StableIn table := by
  intro state extended valid
  induction args generalizing state table with
  | nil =>
      exact .pure valid (List.forall_mem_nil _)
  | cons arg rest inductionHypothesis =>
      obtain ⟨first, later⟩ := List.forall_mem_cons.mp each
      obtain ⟨argStable, restStable⟩ := List.forall_mem_cons.mp stable
      refine (first (.refl _) argStable state extended valid).bind
        (fun {after arg'} continues valid argReplaced => ?_)
      have extended := extended.trans continues.extended
      refine (inductionHypothesis later restStable after extended valid).bind
        (fun {last rest'} continues valid restReplaced => .pure valid ?_)
      have argStable : (arg'.getD arg).StableIn (Host.table last) :=
        (stableIn_getD (argStable.mono extended) argReplaced).mono
          continues.extended
      rw [getD_replacedArgs]
      exact List.forall_mem_cons.mpr ⟨argStable, restReplaced⟩

/-- Walks yield stable terms if building and visits do. -/
theorem Yields.walk
    (builds : Builds build)
    (visits : VisitsStably table visit)
    {expr : Expr}
    (stable : expr.StableIn table) :
    Yields table (expr.walk build visit) StableReplacement := by
  induction expr generalizing table with
  | apply head args headHypothesis argsHypothesis =>
      intro state extended valid
      obtain ⟨-, headStable, argsStable⟩ := StableIn.apply_iff.mp stable
      have argWalks : ∀ arg ∈ args, ∀ {later},
          table.ExtendedBy later → arg.StableIn later →
            Yields later (arg.walk build visit) StableReplacement :=
        fun arg isArg _ extended argStable =>
          argsHypothesis arg isArg (visits.mono extended) argStable
      refine (headHypothesis visits headStable state extended valid).bind
        (fun {second head'} continues valid headReplaced => ?_)
      have extended := extended.trans continues.extended
      have headStable := stableIn_getD (headStable.mono extended) headReplaced
      refine (Yields.walkArgs argWalks argsStable second extended valid).bind
          (fun {third args'} continues valid argsReplaced => ?_)
      have extended := extended.trans continues.extended
      refine (Yields.rebuild builds (headStable.mono continues.extended)
        argsReplaced third (.refl _) valid).bind
          (fun {fourth rebuilt} continues valid rebuiltStable => ?_)
      have extended := extended.trans continues.extended
      have nodeStable := stableIn_getD (stable.mono extended) rebuiltStable
      refine (visits extended nodeStable fourth (.refl _) valid).bind
        (fun {last replacement} continues valid replaced => .pure valid ?_)
      intro after same
      cases replacement with
      | none =>
          exact (rebuiltStable after same).mono continues.extended
      | some _ =>
          exact replaced after same
  | _ =>
      exact visits (.refl _) stable

/-- Passes that yield stable terms end with one. -/
theorem Yields.settle?
    {pass : Expr → Effect σ Expr}
    (passes :
      ∀ {later expr},
        table.ExtendedBy later → expr.StableIn later →
          Yields later (pass expr) Stable)
    {expr : Expr}
    (stable : expr.StableIn table)
    (done ceiling : Nat) :
    Yields table (Expr.settle? pass done expr ceiling) fun table settled =>
      ∀ result, settled = some result → result.1.StableIn table := by
  intro state extended valid
  induction ceiling generalizing expr done state table with
  | zero =>
      exact .pure valid nofun
  | succ ceiling inductionHypothesis =>
      refine (passes (.refl _) stable state extended valid).bind
        (fun {after next} continues valid nextStable => ?_)
      have extended := extended.trans continues.extended
      split
      · refine .pure valid fun result same => ?_
        cases same
        exact nextStable
      · exact inductionHypothesis
          (fun further => passes (extended.trans further)) nextStable (done + 1)
          after (.refl _) valid

/-- So does a whole simplification. -/
theorem Yields.settle
    (builds : Builds build)
    (visits : VisitsStably table visit)
    (ceiling : Nat)
    {subject : Expr}
    (stable : subject.StableIn table) :
    Yields table (Host.settle build visit ceiling subject) fun table answer =>
      answer.1.StableIn table := by
  have passes
      {later : SymbolTable}
      {expr : Expr}
      (further : table.ExtendedBy later)
      (stable : expr.StableIn later) :
      Yields later
        (do let replaced ← expr.walk build visit; pure (replaced.getD expr))
        Stable := by
    intro state extended valid
    refine (Yields.walk builds (visits.mono further) stable state extended valid).bind
      (fun {after replaced} continues valid replacedStable => .pure valid ?_)
    exact stableIn_getD ((stable.mono extended).mono continues.extended)
      replacedStable
  intro state extended valid
  refine (Yields.settle? passes stable 0 ceiling state extended valid).bind
    (fun {after settled} continues valid settledStable => ?_)
  cases settled with
  | none =>
      exact .inSession valid
        ((YieldsAt.modify ⟨.refl _, rfl⟩).bind fun _ valid _ => .throw valid _)
  | some settled =>
      refine .inSession valid (.get_bind ?_)
      refine (YieldsAt.modify ⟨.refl _, rfl⟩).bind
        (fun continues valid _ => .pure valid ?_)
      exact (settledStable settled rfl).mono continues.extended

/-- The only simplification of a session yields what its work yields; a refused one yields its subject. -/
theorem Yields.exclusively
    {subject : Expr}
    {work : Effect σ (Expr × Stats)}
    (stable : subject.StableIn table)
    (yields : Yields table work fun table answer => answer.1.StableIn table) :
    Yields table (Host.exclusively subject work) fun table answer =>
      answer.1.StableIn table := by
  intro state extended valid
  cases busy : (session state).busy with
  | true =>
      have run :
          (Host.exclusively subject work).run state =
            (.ok (subject, { reentrant := true }),
              withSession state ((session state).note (.refused subject))) :=
        if_pos busy
      refine .of_run run ⟨?_, ?_⟩ (valid.withSession (.refl _)) ?_
      · rw [table_withSession]
        exact .refl _
      · rw [session_withSession]
        rfl
      · intro answer same
        cases same
        rw [table_withSession]
        exact stable.mono extended
  | false =>
      -- The work runs in a session that is marked as busy; the mark is taken away again.
      generalize entry :
        withSession state { session state with busy := true, changes := 0 } =
          entered
      have sameTable : Host.table entered = Host.table state := by
        rw [← entry, table_withSession]
        rfl
      have enteredYields := yields entered (sameTable ▸ extended)
        (entry ▸ valid.withSession (.refl _))
      have run :
          (Host.exclusively subject work).run state =
            ((work.run entered).1,
              withSession (work.run entered).2
                { session (work.run entered).2 with busy := false }) := by
        rw [← entry]
        exact if_neg (by simp [busy])
      obtain ⟨continues, validAfter, answers⟩ := enteredYields
      refine .of_run run ⟨?_, ?_⟩ (validAfter.withSession (.refl _)) ?_
      · rw [table_withSession, ← sameTable]
        exact continues.extended
      · rw [session_withSession, busy]
      · intro answer same
        rw [table_withSession]
        exact answers answer same

end Walk

end Effect

/-! ## The steps of a session -/

namespace Session

open Effect

variable {table : SymbolTable}

theorem yields_constructRaw :
    Builds constructRaw := by
  intro table head args headStable argsStable session extended valid
  refine .get_bind ?_
  cases constructed : session.workspace.table.construct head args with
  | error error =>
      exact .throw valid error
  | ok raw =>
      exact .pure valid <|
        (StableIn.closedUnderBuilding _).built (headStable.mono extended)
          (fun arg isArg => (argsStable arg isArg).mono extended) constructed

/-- Both ways in which a session builds terms make stable terms of stable ones. -/
theorem closedUnderBuilding_builder
    (session : Session) :
    ClosedUnderBuilding session.builder
      (StableIn session.workspace.table) := by
  have closed := StableIn.closedUnderBuilding session.workspace.table
  unfold builder
  split
  · exact closed
  · exact closed.simplified StableIn.ofFloat

theorem yieldsAt_observe
    (session : Session)
    (rule : String)
    (node : Expr)
    (replacement : Option Expr) :
    YieldsAt session (observe rule node replacement) fun _ _ => True := by
  unfold observe
  split
  · split
    · exact .pure (valid_session _) trivial
    · exact .modify ⟨.refl _, rfl⟩
  · exact .pure (valid_session _) trivial

/-- What a rule of the catalogue makes of a stable node is stable. -/
theorem stable_of_transform?
    {session : Session}
    {rule : Rule}
    {node replacement : Expr}
    (member : rule ∈ catalogue)
    (stable : node.StableIn session.workspace.table)
    (transformed :
      rule.transform? session.workspace.table session.builder node =
        some replacement) :
    replacement.StableIn session.workspace.table :=
  session.closedUnderBuilding_builder.keeps StableIn.ofFloat member stable
    transformed

theorem yields_visitRules
    {rules : List Rule}
    (fromCatalogue : rules ⊆ catalogue) :
    VisitsStably table (visitRules rules) := by
  intro later node further stable session extended valid
  induction rules generalizing later node session with
  | nil =>
      exact .pure valid nofun
  | cons rule rest inductionHypothesis =>
      obtain ⟨member, restFromCatalogue⟩ := List.cons_subset.mp fromCatalogue
      have further := further.trans extended
      have stable := stable.mono extended
      refine .get_bind ((yieldsAt_observe session _ _ _).bind
        fun {after _} continues valid _ => ?_)
      cases transformed :
          rule.transform? session.workspace.table session.builder node with
      | none =>
          exact inductionHypothesis restFromCatalogue further stable after
            continues.extended valid
      | some replacement =>
          have replacementStable := stable_of_transform? member stable transformed
          refine (inductionHypothesis restFromCatalogue further
            replacementStable after continues.extended valid).bind
              (fun {last result} continues' valid resultStable =>
                .pure valid ?_)
          intro value same
          cases same
          exact stableIn_getD
            (replacementStable.mono (continues.trans continues').extended)
            resultStable

theorem yields_simplifyWith
    {rules : List Rule}
    (fromCatalogue : rules ⊆ catalogue)
    (ceiling : Nat)
    {subject : Expr}
    (stable : subject.StableIn table) :
    Yields table (simplifyWith rules ceiling subject) fun table answer =>
      answer.1.StableIn table :=
  Yields.exclusively stable
    (Yields.settle yields_constructRaw (yields_visitRules fromCatalogue) ceiling
      stable)

theorem yields_apply :
    Builds apply := by
  intro table head args headStable argsStable session extended valid
  refine (yields_constructRaw headStable argsStable session extended valid).bind
    (fun {after raw} _ valid rawStable => .get_bind ?_)
  split
  · exact .pure valid rawStable
  · refine (yields_simplifyWith (List.Subset.refl _) _ rawStable after (.refl _)
      valid).bind (fun _ valid answerStable => .pure valid ?_)
    exact answerStable

theorem yields_substitute
    {substitution : Substitution}
    {expr : Expr}
    (valuesStable :
      ∀ entry ∈ substitution.entries, entry.2.StableIn table)
    (stable : expr.StableIn table) :
    Yields table (substitute substitution expr) Stable := by
  have visits :
      VisitsStably (σ := Session) table fun node =>
        pure (substitution.replacement? node) := by
    intro later node further _ session extended valid
    refine .pure valid fun value replaces => ?_
    obtain ⟨key, isEntry⟩ := Substitution.exists_entry_of_replacement? replaces
    exact (valuesStable _ isEntry).mono (further.trans extended)
  intro session extended valid
  refine (Yields.walk yields_apply visits stable session extended valid).bind
    (fun {after replaced} continues valid replacedStable => .pure valid ?_)
  exact stableIn_getD ((stable.mono extended).mono continues.extended)
    replacedStable

/-- A session goes on when a name is taken into use. -/
theorem continues_intern
    (session : Session)
    (name : String)
    (spec : Option OperatorSpec) :
    Host.Continues session
      { session with
        workspace :=
          { session.workspace with
            table := session.workspace.table.intern name spec } } :=
  ⟨session.workspace.table.extendedBy_intern name spec, rfl⟩

theorem yields_register
    (name : String)
    (spec : OperatorSpec) :
    Yields table (register name spec) Stable := by
  intro session extended valid
  have stable : ∀ value,
      Except.ok (ε := ExprError) (symbol name) = .ok value →
        value.StableIn (session.workspace.table.intern name (some spec)) := by
    intro value same
    cases same
    exact .symbol_intern _ _ _
  refine .get_bind ?_
  dsimp only
  split
  · have noted : Host.Continues session (session.note (.specConflict name)) :=
      ⟨.refl _, rfl⟩
    exact .of_run rfl (noted.trans (continues_intern _ name (some spec)))
      (valid_session _) stable
  · exact .of_run rfl (continues_intern session name (some spec))
      (valid_session _) stable

end Session

end SymbolicAlgebra
