import SymbolicAlgebra.Proofs.Stability.Run

/-!
# Rebuilding what did not change

A walk keeps the applications of which no part was replaced.  Inside a simplification it makes no difference if
they are built again: a stable, plainly named application is what its head and its arguments are built to.
-/

namespace SymbolicAlgebra

open SymbolicAlgebra.Expr

namespace Expr

section Walk

variable {m : Type → Type} [Monad m]

mutual

/-- Walks an expression and builds each application again, whether or not something in it was replaced. -/
def walkAnew
    (build : Expr → List Expr → m Expr)
    (visit : Expr → m (Option Expr)) : Expr → m Expr
  | apply head args => do
    let head' ← walkAnew build visit head
    let args' ← walkArgsAnew build visit args
    let rebuilt ← build head' args'
    let replaced ← visit rebuilt
    pure (replaced.getD rebuilt)
  | leaf => do
    let replaced ← visit leaf
    pure (replaced.getD leaf)

/-- Walks arguments from left to right. -/
def walkArgsAnew
    (build : Expr → List Expr → m Expr)
    (visit : Expr → m (Option Expr)) : List Expr → m (List Expr)
  | [] => pure []
  | arg :: rest => do
    let arg' ← walkAnew build visit arg
    let rest' ← walkArgsAnew build visit rest
    pure (arg' :: rest')

end

end Walk

end Expr

namespace Effect

open Host

variable {σ α β : Type} [Host σ] {state : σ}

/-! ## Steps that agree -/

/-- In a state two steps do the same to it, and the answer of the second is read off the answer of the first. -/
def Agrees
    (state : σ)
    (first : Effect σ α)
    (second : Effect σ β)
    (read : α → β) : Prop :=
  second.run state = ((first.run state).1.map read, (first.run state).2)

theorem Agrees.bind
    {α' β' : Type}
    {first : Effect σ α}
    {second : Effect σ β}
    {read : α → β}
    {result : SymbolTable → α → Prop}
    {next : α → Effect σ α'}
    {next' : β → Effect σ β'}
    {read' : α' → β'}
    (agrees : Agrees state first second read)
    (yields : YieldsAt state first result)
    (later :
      ∀ {after value},
        Continues state after → Valid after → result (table after) value →
          Agrees after (next value) (next' (read value)) read') :
    Agrees state (first >>= next) (second >>= next') read' := by
  obtain ⟨continues, valid, answers⟩ := yields
  unfold Agrees at agrees ⊢
  rw [run_bind, run_bind, agrees]
  generalize first.run state = outcome at continues valid answers
  obtain ⟨outcome, after⟩ := outcome
  cases outcome with
  | error error =>
      rfl
  | ok value =>
      exact later continues valid (answers value rfl)

omit [Host σ] in
theorem Agrees.refl
    (state : σ)
    (action : Effect σ α) :
    Agrees state action action id := by
  unfold Agrees
  rcases action.run state with ⟨_ | _, after⟩ <;> rfl

omit [Host σ] in
/-- Reading off an answer afterwards. -/
theorem Agrees.readOff
    (state : σ)
    (action : Effect σ α)
    (read : α → β) :
    Agrees state action (do let value ← action; pure (read value)) read := by
  unfold Agrees
  rw [run_bind]
  rcases action.run state with ⟨_ | _, after⟩ <;> rfl

omit [Host σ] in
/-- Steps that follow each other agree if they do so whatever comes before. -/
theorem Agrees.followed
    {α' β' : Type}
    {first : Effect σ α}
    {second : Effect σ β}
    {read : α → β}
    {next : α → Effect σ α'}
    {next' : β → Effect σ β'}
    {read' : α' → β'}
    (agrees : Agrees state first second read)
    (later : ∀ after value, Agrees after (next value) (next' (read value)) read') :
    Agrees state (first >>= next) (second >>= next') read' := by
  unfold Agrees at agrees ⊢
  rw [run_bind, run_bind, agrees]
  rcases first.run state with ⟨_ | value, after⟩
  · rfl
  · exact later after value

/-- While a simplification is under way, terms are built raw. -/
def BuildsRaw
    (build : Expr → List Expr → Effect σ Expr) : Prop :=
  ∀ {state head args},
    (session state).busy = true →
      (build head args).run state = ((table state).construct head args, state)

/-! ## Walks -/

section Walk

variable {build : Expr → List Expr → Effect σ Expr}
  {visit : Expr → Effect σ (Option Expr)}

/-- An application of stable parts that were not replaced is built again as it is. -/
theorem agrees_rebuild
    (raw : BuildsRaw build)
    (busy : (session state).busy = true)
    {head : Expr}
    {args : List Expr}
    {head' : Option Expr}
    {args' : Option (List Expr)}
    (stores : (table state).Stores head args)
    (plain : ∀ arg ∈ args, arg.PlainlyNamed) :
    Agrees state (Expr.rebuild build head args head' args')
      (build (head'.getD head) (args'.getD args))
      (·.getD (.apply head args)) := by
  unfold Agrees Expr.rebuild
  split
  · rename_i untouched
    rw [Bool.and_eq_true, Option.isNone_iff_eq_none, Option.isNone_iff_eq_none]
      at untouched
    obtain ⟨rfl, rfl⟩ := untouched
    rw [Option.getD_none, Option.getD_none, raw busy, stores.construct_eq plain]
    rfl
  · rw [run_map, raw busy]
    cases (table state).construct (head'.getD head) (args'.getD args) <;> rfl

theorem agrees_walkArgs
    (builds : Builds build)
    (visits : VisitsStably (table state) visit)
    {args : List Expr}
    (stable : ∀ arg ∈ args, arg.StableIn (table state))
    (valid : Valid state)
    (each :
      ∀ arg ∈ args, ∀ {after},
        Continues state after → Valid after →
          Agrees after (arg.walk build visit) (arg.walkAnew build visit)
            (·.getD arg)) :
    Agrees state (walkArgs build visit args) (walkArgsAnew build visit args)
      (·.getD args) := by
  induction args generalizing state with
  | nil =>
      rfl
  | cons arg rest inductionHypothesis =>
      obtain ⟨argAgrees, restAgree⟩ := List.forall_mem_cons.mp each
      obtain ⟨argStable, restStable⟩ := List.forall_mem_cons.mp stable
      have argYields := Yields.walk builds visits argStable state (.refl _) valid
      refine (argAgrees (.refl _) valid).bind argYields
        fun {after arg'} continues valid _ => ?_
      have extended := continues.extended
      have restAgrees :=
        inductionHypothesis (visits.mono extended)
          (fun item isItem => (restStable item isItem).mono extended) valid
          fun item isItem _ further => restAgree item isItem (continues.trans further)
      refine restAgrees.followed fun last rest' => ?_
      cases arg' <;> cases rest' <;> rfl

/-- Inside a simplification a walk does and answers the same if it builds everything again. -/
theorem agrees_walk
    (raw : BuildsRaw build)
    (builds : Builds build)
    (visits : VisitsStably (table state) visit)
    {expr : Expr}
    (stable : expr.StableIn (table state))
    (plain : expr.PlainlyNamed)
    (valid : Valid state)
    (busy : (session state).busy = true) :
    Agrees state (expr.walk build visit) (expr.walkAnew build visit)
      (·.getD expr) := by
  induction expr generalizing state with
  | apply head args headHypothesis argsHypothesis =>
      obtain ⟨stores, headStable, argsStable⟩ := StableIn.apply_iff.mp stable
      have argsPlain : ∀ arg ∈ args, arg.PlainlyNamed :=
        fun arg isArg => plain.arg isArg
      refine (headHypothesis visits headStable plain.head valid busy).bind
        (Yields.walk builds visits headStable state (.refl _) valid)
        fun {second head'} continues valid _ => ?_
      have argsStable : ∀ arg ∈ args, arg.StableIn (table second) :=
        fun arg isArg => (argsStable arg isArg).mono continues.extended
      have visits : VisitsStably (table second) visit :=
        visits.mono continues.extended
      have stable := stable.mono continues.extended
      have busy := continues.busy.trans busy
      refine (agrees_walkArgs builds visits argsStable valid ?_).bind
        (Yields.walkArgs
          (fun arg _ later extended => Yields.walk builds (visits.mono extended))
          argsStable second (.refl _) valid)
        fun {third args'} continues valid _ => ?_
      · intro arg isArg after continues valid
        exact argsHypothesis arg isArg (visits.mono continues.extended)
          ((argsStable arg isArg).mono continues.extended) (argsPlain arg isArg)
          valid (continues.busy.trans busy)
      · have stores :=
          (StableIn.apply_iff.mp (stable.mono continues.extended)).1
        refine (agrees_rebuild raw (continues.busy.trans busy) stores
          argsPlain).followed fun after rebuilt => ?_
        refine (Agrees.refl after (visit (rebuilt.getD (.apply head args)))).followed
          fun last replaced => ?_
        cases replaced <;> rfl
  | _ =>
      exact .readOff state (visit _) _

end Walk

end Effect

end SymbolicAlgebra
