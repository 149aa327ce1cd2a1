import SymbolicAlgebra.Session

/-!
# Scripted rules

Besides transforming its node, a rule may make requests of its own: build terms in between, or ask for
another simplification, with any rules, which may be scripted in turn.  A script is what such a rule
does at one node.  Running a script in a session answers its requests by the session's state, so
inside a simplification every nested one is refused.
-/

namespace SymbolicAlgebra

/-- What a scripted rule does at a node. -/
inductive Script where
  /-- Ends with a transformation that needs no more than a table and a builder. -/
  | finish (transform? : SymbolTable → Builder → Option Expr)
  /-- Builds a term and goes on with the outcome. -/
  | build (head : Expr) (args : List Expr) (next : Except ExprError Expr → Script)
  /-- Requests a simplification with scripted rules and goes on with the answer. -/
  | simplify (rules : List (String × (Expr → Script))) (ceiling : Nat) (subject : Expr)
      (next : Except ExprError (Expr × Stats) → Script)

/-- A rule that follows a script at each node. -/
abbrev ScriptedRule :=
  String × (Expr → Script)

/-- A rule of the library as a scripted rule. -/
def Rule.scripted
    (rule : Rule) : ScriptedRule :=
  (rule.name, fun node => .finish fun table builder => rule.transform? table builder node)

namespace Script

mutual

/-- Follows a script in a session. -/
def run : Script → Action (Option Expr)
  | finish transform? => do
    let session ← get
    pure (transform? session.workspace.table session.builder)
  | build head args next => do
    let outcome ← Action.attempt (Session.apply head args)
    run (next outcome)
  | simplify rules ceiling subject next => do
    let outcome ← Action.attempt <|
      Session.exclusively subject (Session.settle Session.apply (visit rules) ceiling subject)
    run (next outcome)

/-- Runs scripted rules on a node one after the other, each on the result of those before it. -/
def visit : List (String × (Expr → Script)) → Expr → Action (Option Expr)
  | [], _ => pure none
  | rule :: rest, node => do
    let replacement ← runAt rule node
    match replacement with
    | none => visit rest node
    | some after => do
      let later ← visit rest after
      pure (some (later.getD after))

/-- Runs one scripted rule on a node. -/
def runAt : String × (Expr → Script) → Expr → Action (Option Expr)
  | (name, script), node => do
    let replacement ← run (script node)
    Session.observe name node replacement
    pure replacement

end

end Script

namespace Session

/-- Answers a request to simplify an expression with scripted rules. -/
def simplifyScripted
    (rules : List ScriptedRule)
    (ceiling : Nat)
    (subject : Expr) : Action (Expr × Stats) :=
  exclusively subject (settle apply (Script.visit rules) ceiling subject)

/-- Runs scripted rules once over an expression. -/
def walkScripted
    (rules : List ScriptedRule)
    (expr : Expr) : Action Expr := do
  let replaced ← expr.walk apply (Script.visit rules)
  pure (replaced.getD expr)

/-- Single passes of scripted rules, each with its own record, up to the one that returns its input
or fails, at most `ceiling` of them. -/
def tracePasses
    (rules : List ScriptedRule)
    (session : Session)
    (expr : Expr) : (ceiling : Nat) → List (List Event × Except ExprError Expr)
  | 0 => []
  | ceiling + 1 =>
    let (outcome, later) := (walkScripted rules expr).run { session with record := [] }
    let further :=
      match outcome with
      | .ok next => if next = expr then [] else tracePasses rules later next ceiling
      | .error _ => []
    (later.events, outcome) :: further

end Session

end SymbolicAlgebra
