import SymbolicAlgebra.Construction

/-!
# Walking an expression

A walk goes bottom-up through an expression: first the head and the arguments, then the node itself,
rebuilt if any of its parts was replaced.  Every step says whether it replaced something, so parts
that nobody touched are kept as they are and never built again.

The walk works in any monad that can build terms, so the same definition serves plain evaluation and
evaluation that records what happens.
-/

namespace SymbolicAlgebra.Expr

variable {m : Type → Type} [Monad m]

/-- Builds an application again from what its parts became: `none` if none of them was replaced. -/
@[specialize]
def rebuild
    (build : Expr → List Expr → m Expr)
    (head : Expr)
    (args : List Expr)
    (head' : Option Expr)
    (args' : Option (List Expr)) : m (Option Expr) :=
  if head'.isNone && args'.isNone then
    pure none
  else
    some <$> build (head'.getD head) (args'.getD args)

mutual

/-- Walks an expression: `none` if nothing in it was replaced. -/
@[specialize]
def walk
    (build : Expr → List Expr → m Expr)
    (visit : Expr → m (Option Expr)) : Expr → m (Option Expr)
  | apply head args => do
    let head' ← walk build visit head
    let args' ← walkArgs build visit args
    let rebuilt ← rebuild build head args head' args'
    let replaced ← visit (rebuilt.getD (apply head args))
    pure (replaced <|> rebuilt)
  | leaf => visit leaf

/-- Walks arguments from left to right: `none` if nothing in any of them was replaced. -/
@[specialize]
def walkArgs
    (build : Expr → List Expr → m Expr)
    (visit : Expr → m (Option Expr)) : List Expr → m (Option (List Expr))
  | [] => pure none
  | arg :: rest => do
    let arg' ← walk build visit arg
    let rest' ← walkArgs build visit rest
    pure <|
      if arg'.isNone && rest'.isNone then
        none
      else
        some (arg'.getD arg :: rest'.getD rest)

end

/-- Repeats a pass until it returns its input, at most `ceiling` times: the fixed point and the
number of passes run, `done` of them before; `none` if the ceiling is reached first. -/
@[specialize]
def settle?
    (pass : Expr → m Expr)
    (done : Nat)
    (expr : Expr) : (ceiling : Nat) → m (Option (Expr × Nat))
  | 0 => pure none
  | ceiling + 1 => do
    let next ← pass expr
    if next = expr then
      pure (some (next, done + 1))
    else
      settle? pass (done + 1) next ceiling

end SymbolicAlgebra.Expr
