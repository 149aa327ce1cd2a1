import SymbolicAlgebra.Proofs.Agreement.Simplification
import SymbolicAlgebra.Proofs.Stability.Session

/-!
# Symbols over the life of a session

Symbols are compared by name, but construction and rules go by the properties behind the name.  A name gets its
properties from the first request for it and keeps them, so all symbols of a name that are ever handed out have the
same ones, and an expression of names in use is built, simplified and rewritten alike at all later times.
-/

namespace SymbolicAlgebra

open SymbolicAlgebra.Expr

/-! ## Names in use -/

namespace SymbolTable

variable {table later : SymbolTable}

end SymbolTable

/-! ## Requests for symbols -/

/-- A symbol as it is handed out: a name and the properties behind it. -/
@[ext]
structure Symbol where
  name : String
  spec : Option OperatorSpec
deriving DecidableEq

/-- What the symbol table of a session is asked for. -/
inductive SymbolRequest where
  /-- A symbol with properties or without. -/
  | intern (name : String) (spec : Option OperatorSpec)
  /-- A plain symbol. -/
  | symbol (name : String)
  /-- An operator. -/
  | operator (name : String) (spec : OperatorSpec)
  /-- A symbol, if its name is in use. -/
  | lookup (name : String)

/-- The symbol of a name in use. -/
def Session.symbolOf?
    (session : Session)
    (name : String) : Option Symbol :=
  (session.workspace.table.lookup? name).map (⟨name, ·⟩)

/-- Takes a name into use with properties or without; ones that disagree with those it has are noted. -/
def Session.intern
    (name : String) : Option OperatorSpec → Action Unit
  | some spec => do
    let _ ← Session.register name spec
  | none =>
    modify fun session =>
      { session with
        workspace :=
          { session.workspace with table := session.workspace.table.intern name none } }

namespace SymbolRequest

/-- The name that is asked for. -/
def name : SymbolRequest → String
  | intern name _ | symbol name | operator name _ | lookup name => name

/-- Answers a request. -/
def serve : SymbolRequest → Action (Option Symbol)
  | intern name spec => do
    Session.intern name spec
    pure ((← get).symbolOf? name)
  | symbol name => do
    Session.intern name none
    pure ((← get).symbolOf? name)
  | operator name spec => do
    Session.intern name (some spec)
    pure ((← get).symbolOf? name)
  | lookup name => do
    pure ((← get).symbolOf? name)

end SymbolRequest

/-- The session after requests have been answered one after the other. -/
def Session.after
    (session : Session)
    (history : List SymbolRequest) : Session :=
  history.foldl (fun session request => (request.serve.run session).2) session

namespace SymbolTable

variable {table : SymbolTable} {request : SymbolRequest} {history : List SymbolRequest}

end SymbolTable

namespace Session

variable {session : Session} {request : SymbolRequest}

/-- The answer to a request. -/
def answer
    (session : Session)
    (request : SymbolRequest) : Except ExprError (Option Symbol) :=
  (request.serve.run session).1

end Session

namespace SymbolRequest.IsFirst

variable {session : Session} {history : List SymbolRequest} {request : SymbolRequest}

end SymbolRequest.IsFirst

namespace SymbolTable

variable {table : SymbolTable} {request : SymbolRequest}

end SymbolTable

namespace Session

/-- A name that was first used as a plain symbol is no operator, whatever it is registered as. -/
example :
    (({} : Session).after [.lookup "f", .symbol "f"]).answer
        (.operator "f" { commutative := true }) =
      .ok (some ⟨"f", none⟩) := by
  decide +kernel

end Session

end SymbolicAlgebra
