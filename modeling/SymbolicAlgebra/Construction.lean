import SymbolicAlgebra.Expr.Order
import SymbolicAlgebra.SymbolTable

/-!
# Settling an application

Before a term exists its head's properties are consulted: two literals are evaluated, an absorbing
value takes over, and commutative operands are sorted.  A term built this way is raw; simplification
comes on top of it.
-/

namespace SymbolicAlgebra

/-- A way of building `head(args)`: raw, or with simplification. -/
abbrev Builder :=
  Expr → List Expr → Except ExprError Expr

/-- Builds the negative of an expression, its product with minus one. -/
def Builder.negate
    (builder : Builder)
    (operand : Expr) : Except ExprError Expr :=
  builder Operator.mul [operand, .number (-1)]

namespace OperatorSpec

/-- The value of the operator on exactly two literal numbers; `none` if it is not called for. -/
def evaluateLiterals?
    (spec : OperatorSpec)
    (name : String) : (args : List Expr) → Option (Except ExprError Expr)
  | [.number lhs, .number rhs] => spec.evaluate? name lhs rhs
  | _ => none

/-- The absorbing value, if it is among the arguments. -/
def absorbed?
    (spec : OperatorSpec)
    (args : List Expr) : Option Expr :=
  spec.zero.filter (args.contains ·)

end OperatorSpec

namespace SymbolTable

/-- Builds the raw term `head(args)`. -/
def construct
    (table : SymbolTable)
    (head : Expr)
    (args : List Expr) : Except ExprError Expr :=
  if args.isEmpty then
    .error (.emptyArguments head)
  else
    match table.specOf? head with
    | none => .ok (.apply head args)
    | some spec =>
      match spec.evaluateLiterals? (head.symbol?.getD "") args with
      | some outcome => outcome
      | none =>
        match spec.absorbed? args with
        | some zero => .ok zero
        | none =>
          if spec.commutative then
            .ok (.apply head (Expr.sortBy (Expr.operandCompare head) args))
          else
            .ok (.apply head args)

end SymbolTable

end SymbolicAlgebra
