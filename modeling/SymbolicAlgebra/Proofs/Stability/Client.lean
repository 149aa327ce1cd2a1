import SymbolicAlgebra.Proofs.Stability.Session

/-!
# Clients

A client works with a session.  It holds on to every expression that it has obtained, and what it asks for next
may depend on all that it has seen; but it makes expressions in no other way than by asking for them.  The rules
that it hands over are clients as well: at a node they may do whatever the client itself may do, with the
expressions that it holds and with the node, and the client keeps what they obtain.
-/

namespace SymbolicAlgebra

/-- The session of a client and the expressions that it has obtained, the first one first. -/
structure Client where
  session : Session := {}
  held : List Expr := []

instance : Host Client where
  session := Client.session
  withSession client later := { client with session := later }
  held := Client.held
  session_withSession _ _ := rfl
  held_withSession _ _ := rfl

/-- What a client asks for; the expressions that it hands in are given by their places among those it holds. -/
inductive Request where
  | number (value : Float)
  | boolean (value : Bool)
  | wildcard (identity : Wildcard)
  | symbol (name : String)
  | operator (name : String) (spec : OperatorSpec)
  | head (place : Nat)
  | arg (place index : Nat)
  | apply (callee : Nat) (operands : List Nat)
  | substitute (entries : List (Nat × Nat)) (place : Nat)
  /-- Matches a subject against a pattern and puts what the wildcards took into a template. -/
  | instantiate (subject pattern template : Nat)
  /-- Runs a default rule on a node. -/
  | transform (rule place : Nat)

/-- The step of the session that answers a request; `none` if there is no such place or no match. -/
def Request.action?
    (held : List Expr) : Request → Option (Action Expr)
  | number value => some (pure (.ofFloat value))
  | boolean value => some (pure (.boolean value))
  | wildcard identity => some (pure (.wildcard identity))
  | symbol name => some do
    modify fun session =>
      { session with
        workspace :=
          { session.workspace with table := session.workspace.table.intern name none } }
    pure (.symbol name)
  | operator name spec => some (Session.register name spec)
  | head place => do
    let expr ← held[place]?
    some (pure expr.head)
  | arg place index => do
    let expr ← held[place]?
    let found ← expr.args[index]?
    some (pure found)
  | apply callee operands => do
    let callee ← held[callee]?
    let operands ← operands.mapM (held[·]?)
    some (Session.apply callee operands)
  | substitute entries place => do
    let entries ← entries.mapM fun entry => do
      let key ← held[entry.1]?
      let value ← held[entry.2]?
      some (key, value)
    let expr ← held[place]?
    some (Session.substitute ⟨entries⟩ expr)
  | instantiate subject pattern template => do
    let subject ← held[subject]?
    let pattern ← held[pattern]?
    let bindings ← captures? subject pattern
    let template ← held[template]?
    some (Session.substitute bindings.toSubstitution template)
  | transform rule place => do
    let rule ← catalogue[rule]?
    let expr ← held[place]?
    some do
      let session ← get
      let replacement := rule.transform? session.workspace.table session.builder expr
      pure (replacement.getD expr)

namespace Client

/-- Takes a step for an expression and keeps the expression; the error if the step fails. -/
def obtain
    (step? : Option (Effect Client Expr)) : Effect Client (Option ExprError) :=
  match step? with
  | none => pure none
  | some step => fun client =>
    match step.run client with
    | (.ok expr, later) => (.ok none, { later with held := later.held ++ [expr] })
    | (.error error, later) => (.ok (some error), later)

/-- Builds a term. -/
def build
    (head : Expr)
    (args : List Expr) : Effect Client Expr :=
  Host.inSession (Session.apply head args)

end Client

/-- What a client does, as far as it has seen its own state and the errors of its requests. -/
inductive Program where
  /-- Ends, with one of the expressions held for an answer. -/
  | stop (answer : Option Nat)
  /-- Panics. -/
  | abort (error : ExprError)
  /-- Sets the number of passes that simplification is granted. -/
  | configure (ceiling : Nat) (next : Client → Program)
  | ask (request : Request) (next : Option ExprError → Client → Program)
  /-- Runs rules once over an expression. -/
  | walk (rules : List (String × (Client → Program))) (place : Nat)
      (next : Option ExprError → Client → Program)
  /-- Runs rules over an expression until a pass changes nothing. -/
  | simplify (rules : List (String × (Client → Program))) (ceiling place : Nat)
      (next : Option ExprError → Client → Program)

namespace Program

mutual

/-- Follows a program. -/
def run : Program → Effect Client (Option Expr)
  | stop answer => do
    let client ← get
    pure (answer.bind (client.held[·]?))
  | abort error => throw error
  | configure ceiling next => do
    Host.inSession <| modify fun session =>
      { session with workspace := { session.workspace with ceiling } }
    let client ← get
    run (next client)
  | ask request next => do
    let client ← get
    let error ← Client.obtain ((request.action? client.held).map Host.inSession)
    let later ← get
    run (next error later)
  | walk rules place next => do
    let client ← get
    let error ← Client.obtain <| client.held[place]?.map fun expr => do
      let replaced ← expr.walk Client.build (visit rules)
      pure (replaced.getD expr)
    let later ← get
    run (next error later)
  | simplify rules ceiling place next => do
    let client ← get
    let error ← Client.obtain <| client.held[place]?.map fun expr => do
      let (result, _) ← Host.exclusively expr <|
        Host.settle Client.build (visit rules) ceiling expr
      pure result
    let later ← get
    run (next error later)

/-- Runs rules on a node one after the other, each on the result of those before it. -/
def visit : List (String × (Client → Program)) → Expr → Effect Client (Option Expr)
  | [], _ => pure none
  | rule :: rest, node => do
    let replacement ← visitWith rule node
    match replacement with
    | none => visit rest node
    | some after => do
      let later ← visit rest after
      pure (some (later.getD after))

/-- Runs one rule on a node, which the rule gets hold of. -/
def visitWith : String × (Client → Program) → Expr → Effect Client (Option Expr)
  | (name, program), node => do
    modify fun client => { client with held := client.held ++ [node] }
    let client ← get
    let replacement ← run (program client)
    Host.inSession (Session.observe name node replacement)
    pure replacement

end

end Program

end SymbolicAlgebra
