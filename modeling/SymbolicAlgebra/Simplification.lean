import SymbolicAlgebra.Rule.Catalogue
import SymbolicAlgebra.Traversal

/-!
# Simplification

A pass walks an expression once and runs a list of rules at every node; simplification repeats the
pass until it changes nothing.  While it runs, terms are built raw.  Applying a head to arguments
builds the raw term and simplifies it with the catalogue.
-/

namespace SymbolicAlgebra

/-- The number of passes that simplification is granted by default. -/
def defaultCeiling : Nat :=
  256

/-- One pass of rules over an expression. -/
def pass
    (table : SymbolTable)
    (rules : List Rule)
    (expr : Expr) : Except ExprError Expr := do
  let transforms := rules.map (·.transform? table table.construct)
  let replaced ← expr.walk table.construct fun node => pure (transformAll? transforms node)
  pure (replaced.getD expr)

/-- The fixed point of passes of rules, with the number of passes it took. -/
def fixedPoint
    (table : SymbolTable)
    (rules : List Rule)
    (ceiling : Nat)
    (expr : Expr) : Except ExprError (Expr × Nat) := do
  match ← Expr.settle? (pass table rules) 0 expr ceiling with
  | some settled => .ok settled
  | none => .error (.nonTerminating ceiling)

/-- What terms are built with: the symbols in use and the number of passes granted. -/
structure Workspace where
  table : SymbolTable := {}
  ceiling : Nat := defaultCeiling

namespace Workspace

/-- Simplifies an expression with the catalogue. -/
def simplify
    (workspace : Workspace)
    (expr : Expr) : Except ExprError Expr :=
  (fixedPoint workspace.table catalogue workspace.ceiling expr).map (·.1)

/-- Builds `head(args)` in simplified form. -/
def apply
    (workspace : Workspace) : Builder :=
  fun head args => do
    let raw ← workspace.table.construct head args
    if raw.isLeaf then
      pure raw
    else
      workspace.simplify raw

/-- Runs node transformations over an expression, outside any simplification. -/
def walk
    (workspace : Workspace)
    (transforms : List (Expr → Option Expr))
    (expr : Expr) : Except ExprError Expr := do
  let replaced ← expr.walk workspace.apply fun node => pure (transformAll? transforms node)
  pure (replaced.getD expr)

end Workspace

end SymbolicAlgebra
