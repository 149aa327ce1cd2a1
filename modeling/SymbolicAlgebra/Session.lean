import SymbolicAlgebra.Event
import SymbolicAlgebra.Substitution

/-!
# Sessions

A session carries what outlives a single request: the workspace, whether a simplification is under
way, and the record of what happened.  At most one simplification is under way at a time.  A request
that arrives during one is refused: it is answered with its own input, and the simplification under
way stays the owner of the busy mark, which is taken away when it ends, in whatever way it ends.
-/

namespace SymbolicAlgebra

/-- What is known about an answered simplification request. -/
structure Stats where
  /-- The passes run, the last one, which changed nothing, included. -/
  passes : Nat := 0
  /-- How often a rule changed a node. -/
  changes : Nat := 0
  /-- Whether the request arrived during a simplification. -/
  reentrant : Bool := false
deriving DecidableEq, Repr

/-- The state of a session. -/
structure Session where
  workspace : Workspace := {}
  /-- Whether a simplification is under way. -/
  busy : Bool := false
  /-- The changes made by rules since the simplification under way began. -/
  changes : Nat := 0
  /-- The record, latest event first. -/
  record : List Event := []

/-- A step of a session: it may fail, and what it did to the session stays. -/
abbrev Action :=
  ExceptT ExprError (StateM Session)

namespace Action

/-- An outcome as a step that leaves the session alone. -/
def ofExcept
    {α : Type} : Except ExprError α → Action α
  | .ok value => pure value
  | .error error => throw error

/-- The outcome of a step, handed on instead of failing. -/
def attempt
    {α : Type}
    (action : Action α) : Action (Except ExprError α) :=
  fun session =>
    let (outcome, later) := action.run session
    (.ok outcome, later)

end Action

namespace Session

/-- Adds an event to the record. -/
def note
    (session : Session)
    (event : Event) : Session :=
  { session with record := event :: session.record }

/-- Counts and records a change that a rule made to a node. -/
def noteFiring
    (session : Session)
    (rule : String)
    (before after : Expr) : Session :=
  { session.note (.fired rule before after) with changes := session.changes + 1 }

/-- The events in the order in which they happened. -/
def events
    (session : Session) : List Event :=
  session.record.reverse

/-- How terms are built in the session: raw during a simplification, simplified otherwise. -/
def builder
    (session : Session) : Builder :=
  if session.busy then
    session.workspace.table.construct
  else
    session.workspace.apply

/-- Runs work on a subject as the only simplification of the session.  During another one the
request is refused and nothing but the record changes. -/
def exclusively
    (subject : Expr)
    (work : Action (Expr × Stats)) : Action (Expr × Stats) :=
  fun session =>
    if session.busy then
      (.ok (subject, { reentrant := true }), session.note (.refused subject))
    else
      let (outcome, later) := work.run { session with busy := true, changes := 0 }
      (outcome, { later with busy := false })

/-- Records a rule's replacement of a node, if it differs from the node. -/
def observe
    (rule : String)
    (node : Expr)
    (replacement : Option Expr) : Action Unit :=
  match replacement with
  | some after => if after = node then pure () else modify (·.noteFiring rule node after)
  | none => pure ()

/-- Runs a visit at every node of an expression until a pass changes nothing. -/
def settle
    (build : Expr → List Expr → Action Expr)
    (visit : Expr → Action (Option Expr))
    (ceiling : Nat)
    (subject : Expr) : Action (Expr × Stats) := do
  let pass (expr : Expr) : Action Expr := do
    let replaced ← expr.walk build visit
    pure (replaced.getD expr)
  match ← Expr.settle? pass 0 subject ceiling with
  | some (result, passes) =>
    let changes := (← get).changes
    modify (·.note (.settled passes changes result))
    pure (result, { passes, changes })
  | none =>
    modify (·.note (.abandoned ceiling subject))
    throw (.nonTerminating ceiling)

/-- Runs rules on a node one after the other, each on the result of those before it. -/
def visitRules
    (rules : List Rule)
    (node : Expr) : Action (Option Expr) :=
  match rules with
  | [] => pure none
  | rule :: rest => do
    let session ← get
    let replacement := rule.transform? session.workspace.table session.builder node
    observe rule.name node replacement
    match replacement with
    | none => visitRules rest node
    | some after => do
      let later ← visitRules rest after
      pure (some (later.getD after))

/-- Builds a raw term. -/
def constructRaw
    (head : Expr)
    (args : List Expr) : Action Expr := do
  Action.ofExcept ((← get).workspace.table.construct head args)

/-- Answers a request to simplify an expression with rules. -/
def simplifyWith
    (rules : List Rule)
    (ceiling : Nat)
    (subject : Expr) : Action (Expr × Stats) :=
  exclusively subject (settle constructRaw (visitRules rules) ceiling subject)

/-- Builds `head(args)`: the raw term, which is simplified unless a simplification is under way. -/
def apply
    (head : Expr)
    (args : List Expr) : Action Expr := do
  let raw ← constructRaw head args
  let session ← get
  if raw.isLeaf || session.busy then
    pure raw
  else
    let (result, _) ← simplifyWith catalogue session.workspace.ceiling raw
    pure result

/-- Replaces the keys of a substitution in an expression. -/
def substitute
    (substitution : Substitution)
    (expr : Expr) : Action Expr := do
  let replaced ← expr.walk apply fun node => pure (substitution.replacement? node)
  pure (replaced.getD expr)

/-- Requests a name as an operator; the first use of the name decides its properties. -/
def register
    (name : String)
    (spec : OperatorSpec) : Action Expr := do
  let session ← get
  let table := session.workspace.table
  if table.conflicts name spec then
    modify (·.note (.specConflict name))
  modify fun later =>
    { later with workspace := { later.workspace with table := table.intern name (some spec) } }
  pure (.symbol name)

end Session

end SymbolicAlgebra
