import SymbolicAlgebra.Expr.Basic
import SymbolicAlgebra.Number.Integral

/-!
# Questions about whole expressions

Size, occurrence of a part, wildcards, and access to the parts by index: index zero is the head and
index `i` the `i`-th argument.
-/

namespace SymbolicAlgebra.Expr

mutual

/-- The number of nodes, heads included. -/
def size : Expr → Nat
  | apply head args => 1 + head.size + sizeOfArgs args
  | _ => 1

/-- The number of nodes of all arguments together. -/
def sizeOfArgs : List Expr → Nat
  | [] => 0
  | arg :: rest => arg.size + sizeOfArgs rest

end

mutual

/-- Whether a part occurs anywhere in an expression, heads included. -/
def contains
    (expr needle : Expr) : Bool :=
  match expr with
  | apply head args =>
    decide (apply head args = needle) || head.contains needle || argsContain args needle
  | leaf => decide (leaf = needle)

/-- Whether a part occurs in one of the arguments. -/
def argsContain
    (args : List Expr)
    (needle : Expr) : Bool :=
  match args with
  | [] => false
  | arg :: rest => arg.contains needle || argsContain rest needle

end

mutual

/-- Whether a wildcard occurs anywhere, heads included. -/
def hasWildcards : Expr → Bool
  | wildcard _ => true
  | apply head args => head.hasWildcards || argsHaveWildcards args
  | _ => false

/-- Whether a wildcard occurs in one of the arguments. -/
def argsHaveWildcards : List Expr → Bool
  | [] => false
  | arg :: rest => arg.hasWildcards || argsHaveWildcards rest

end

/-- One more than the number of arguments. -/
def length
    (expr : Expr) : Nat :=
  expr.args.length + 1

/-- The head at index zero, then the arguments. -/
def get?
    (expr : Expr) : (index : Nat) → Option Expr
  | 0 => some expr.head
  | index + 1 => expr.args[index]?

/-- Whether the expression is a literal with an integral value. -/
def isInteger : Expr → Bool
  | number value => (integer? value).isSome
  | _ => false

end SymbolicAlgebra.Expr
