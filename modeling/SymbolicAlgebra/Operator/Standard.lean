import SymbolicAlgebra.Operator.Spec

/-!
# The standard operators

Arithmetic, bitwise and comparison operators that every symbol table knows.
-/

namespace SymbolicAlgebra

namespace Operator

/-- Addition. -/
abbrev add : Expr := .symbol "+"

/-- Subtraction. -/
abbrev sub : Expr := .symbol "-"

/-- Multiplication. -/
abbrev mul : Expr := .symbol "*"

/-- Division. -/
abbrev div : Expr := .symbol "/"

/-- Exponentiation. -/
abbrev pow : Expr := .symbol "**"

/-- Bitwise conjunction. -/
abbrev bitAnd : Expr := .symbol "&"

/-- Bitwise disjunction. -/
abbrev bitOr : Expr := .symbol "|"

/-- Bitwise exclusive disjunction. -/
abbrev bitXor : Expr := .symbol "^"

/-- Left shift. -/
abbrev shiftLeft : Expr := .symbol "<<"

/-- Arithmetic right shift. -/
abbrev shiftRight : Expr := .symbol ">>"

end Operator

/-- The properties of a standard operator; `none` for every other name. -/
def standardSpec? : (name : String) → Option OperatorSpec
  | "+" => some
    { evaluator := some .add, commutative := true, associative := true,
      identity := some (.number 0) }
  | "-" => some { evaluator := some .sub, rightIdentity := some (.number 0) }
  | "*" => some
    { evaluator := some .mul, commutative := true, associative := true,
      identity := some (.number 1), zero := some (.number 0) }
  | "/" => some { evaluator := some .div, rightIdentity := some (.number 1) }
  | "**" => some { evaluator := some .pow, rightIdentity := some (.number 1) }
  | "&" => some
    { evaluator := some .bitAnd, cast := some .integer, commutative := true, associative := true,
      zero := some (.number 0) }
  | "|" => some
    { evaluator := some .bitOr, cast := some .integer, commutative := true, associative := true,
      identity := some (.number 0) }
  | "^" => some
    { evaluator := some .bitXor, cast := some .integer, commutative := true, associative := true,
      identity := some (.number 0) }
  | "<<" => some
    { evaluator := some .shiftLeft, cast := some .integer, rightIdentity := some (.number 0) }
  | ">>" => some
    { evaluator := some .shiftRight, cast := some .integer, rightIdentity := some (.number 0) }
  | "<" => some { evaluator := some .less }
  | ">" => some { evaluator := some .greater }
  | "<=" => some { evaluator := some .lessEqual }
  | ">=" => some { evaluator := some .greaterEqual }
  | _ => none

end SymbolicAlgebra
