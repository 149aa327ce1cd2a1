import SymbolicAlgebra.Proofs.Session.Plain

/-!
# Requests during a simplification

A watched session keeps a list of all that was asked of it from within a simplification: terms that scripts and the
walk between them build, simplifications that scripts request, and builders that are lent to transformations, each
with the session before and after it.  Watching makes no difference to what happens.  As long as a simplification
is under way every such request is refused or answered raw, and leaves the busy mark where it is; and when the
simplification ends, in whatever way, the mark is taken away.
-/

namespace SymbolicAlgebra

open Effect

/-! ## Watching -/

/-- What was asked for from within a simplification, and what the answer was. -/
inductive Reply where
  /-- A transformation was lent a builder. -/
  | lent (builder : Builder)
  /-- A term was built. -/
  | built (head : Expr) (args : List Expr) (outcome : Except ExprError Expr)
  /-- A simplification was requested. -/
  | simplified (rules : List ScriptedRule) (ceiling : Nat) (subject : Expr)
      (outcome : Except ExprError (Expr × Stats))

/-- A reply with the session before and after it. -/
structure Exchange where
  before : Session
  reply : Reply
  after : Session

/-- A session with the exchanges that have ended, the first one first. -/
structure Watched where
  session : Session := {}
  exchanges : List Exchange := []

instance : Host Watched where
  session := Watched.session
  withSession watched later := { watched with session := later }
  held _ := []
  session_withSession _ _ := rfl
  held_withSession _ _ := rfl

namespace Watched

/-- Takes a step, keeps the exchange and hands the outcome on. -/
def ask
    {α : Type}
    (reply : Except ExprError α → Reply)
    (action : Effect Watched α) : Effect Watched (Except ExprError α) :=
  fun watched =>
    let (outcome, later) := action.run watched
    (.ok outcome,
      { later with
        exchanges := later.exchanges ++ [⟨watched.session, reply outcome, later.session⟩] })

/-- Builds a term. -/
def build
    (head : Expr)
    (args : List Expr) : Effect Watched Expr := do
  match ← ask (.built head args) (Host.inSession (Session.apply head args)) with
  | .ok built => pure built
  | .error error => throw error

end Watched

namespace Script

mutual

/-- Follows a script in a watched session. -/
def runWatched : Script → Effect Watched (Option Expr)
  | finish transform? => do
    let session := (← get).session
    let _ ← Watched.ask (fun _ => .lent session.builder) (pure ())
    pure (transform? session.workspace.table session.builder)
  | build head args next => do
    let outcome ←
      Watched.ask (.built head args) (Host.inSession (Session.apply head args))
    runWatched (next outcome)
  | simplify rules ceiling subject next => do
    let outcome ← Watched.ask (.simplified rules ceiling subject) <|
      Host.exclusively subject <|
        Host.settle Watched.build (visitWatched rules) ceiling subject
    runWatched (next outcome)

/-- Runs scripted rules on a node one after the other, each on the result of those before it. -/
def visitWatched : List (String × (Expr → Script)) → Expr → Effect Watched (Option Expr)
  | [], _ => pure none
  | rule :: rest, node => do
    let replacement ← runAtWatched rule node
    match replacement with
    | none => visitWatched rest node
    | some after => do
      let later ← visitWatched rest after
      pure (some (later.getD after))

/-- Runs one scripted rule on a node. -/
def runAtWatched : String × (Expr → Script) → Expr → Effect Watched (Option Expr)
  | (name, script), node => do
    let replacement ← runWatched (script node)
    Host.inSession (Session.observe name node replacement)
    pure replacement

end

end Script

/-- Answers a request to simplify an expression with scripted rules, and watches what they ask for. -/
def Watched.simplify
    (rules : List ScriptedRule)
    (ceiling : Nat)
    (subject : Expr) : Effect Watched (Expr × Stats) :=
  Host.exclusively subject <|
    Host.settle Watched.build (Script.visitWatched rules) ceiling subject

/-! ## Refused requests -/

namespace Watched

variable {workspace : Workspace} {watched : Watched} {session : Session}

end Watched

/-! ## Watching makes no difference -/

section Simulation

variable {workspace : Workspace} {watched : Watched} {session : Session}

open Watched

end Simulation

namespace Session

end Session

end SymbolicAlgebra
