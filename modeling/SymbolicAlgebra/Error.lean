import SymbolicAlgebra.Expr.Printer
import SymbolicAlgebra.Operator.Evaluator

/-!
# Errors

Building, indexing and simplifying expressions fails for four causes.  A failed match is not an
error, and neither is a simplification request that has to be refused.
-/

namespace SymbolicAlgebra

/-- Why an expression could not be built, indexed or simplified. -/
inductive ExprError where
  /-- An application without arguments was asked for. -/
  | emptyArguments (head : Expr)
  /-- An operator's evaluator rejected two literal operands. -/
  | evaluation (op : String) (lhs rhs : Float) (reason : EvalFailure)
  /-- An index past the last argument. -/
  | indexOutOfRange (index length : Nat)
  /-- No fixed point within the permitted number of passes. -/
  | nonTerminating (passes : Nat)
deriving DecidableEq

namespace ExprError

/-- The text of an error; expressions in it are written in the given format. -/
def message
    (format : NumberFormat) : ExprError → String
  | emptyArguments head =>
    "cannot apply " ++ head.text format ++ " to an empty argument list"
  | evaluation op lhs rhs reason =>
    "could not evaluate " ++ plainText lhs ++ " " ++ op ++ " " ++ plainText rhs ++ ": " ++
      reason.message
  | indexOutOfRange index length =>
    "index " ++ toString index ++ " out of range for expression of length " ++ toString length
  | nonTerminating passes =>
    "non-terminating simplification: no fixed point after " ++ toString passes ++ " passes"

end ExprError

end SymbolicAlgebra
