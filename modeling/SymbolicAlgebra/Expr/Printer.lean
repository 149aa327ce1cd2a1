import SymbolicAlgebra.Expr.Basic
import SymbolicAlgebra.Number.Format
import SymbolicAlgebra.Text.Alphanumeric

/-!
# The text of an expression

An application of a symbol to two arguments is written between them, `(lhs op rhs)`, when the
symbol's name starts with a character that is not alphanumeric.  Every other application is written
`head(arg,arg)`.  The canonical text writes numbers in the default format, and the order of
expressions rests on it.
-/

namespace SymbolicAlgebra

/-- Whether an operator of this name stands between its two operands. -/
def isInfixName
    (name : String) : Bool :=
  match name.toList with
  | first :: _ => !isAlphanumeric first
  | [] => false

namespace Expr

mutual

/-- The characters of an expression, followed by `rest`. -/
def charsBefore
    (format : NumberFormat)
    (expr : Expr)
    (rest : List Char) : List Char :=
  match expr with
  | symbol name => name.toList ++ rest
  | wildcard identity => identity.name.toList ++ rest
  | number value => format.chars value ++ rest
  | boolean true => 'T' :: 'r' :: 'u' :: 'e' :: rest
  | boolean false => 'F' :: 'a' :: 'l' :: 's' :: 'e' :: rest
  | apply head args =>
    match head, args with
    | symbol name, [lhs, rhs] =>
      if isInfixName name then
        '(' :: charsBefore format lhs
          (' ' :: (name.toList ++ ' ' :: charsBefore format rhs (')' :: rest)))
      else
        name.toList ++
          '(' :: charsBefore format lhs (',' :: charsBefore format rhs (')' :: rest))
    | head, args => charsBefore format head ('(' :: argCharsBefore format args (')' :: rest))

/-- The characters of arguments separated by commas, followed by `rest`. -/
def argCharsBefore
    (format : NumberFormat)
    (args : List Expr)
    (rest : List Char) : List Char :=
  match args with
  | [] => rest
  | [arg] => charsBefore format arg rest
  | arg :: next :: others =>
    charsBefore format arg (',' :: argCharsBefore format (next :: others) rest)

end

/-- The characters of an expression. -/
def chars
    (format : NumberFormat)
    (expr : Expr) : List Char :=
  charsBefore format expr []

/-- The text of an expression in a number format. -/
def text
    (format : NumberFormat)
    (expr : Expr) : String :=
  String.ofList (chars format expr)

/-- The characters of the canonical text. -/
def canonicalChars
    (expr : Expr) : List Char :=
  chars {} expr

/-- The canonical text: the one in the default number format. -/
def canonicalText
    (expr : Expr) : String :=
  text {} expr

end Expr

end SymbolicAlgebra
