import SymbolicAlgebra.Expr.Basic
import SymbolicAlgebra.Number.Integral
import SymbolicAlgebra.Number.Power

/-!
# Evaluators

An evaluator computes an operator on two literal numbers.  Arithmetic is binary floating-point
arithmetic, bitwise operators work on two's-complement words, and a result that is not finite is a
failure.
-/

namespace SymbolicAlgebra

/-- Why an evaluator rejects its operands. -/
inductive EvalFailure where
  | divisionByZero
  | notInteger
  | negativeShift
  | nonFinite
deriving DecidableEq, Repr

namespace EvalFailure

/-- The text of a failure. -/
def message : EvalFailure → String
  | divisionByZero => "division by zero"
  | notInteger => "value is not representable as an integer"
  | negativeShift => "negative shift count"
  | nonFinite => "result is not finite"

end EvalFailure

/-- What an operator computes on two literal numbers. -/
inductive Evaluator where
  | add
  | sub
  | mul
  | div
  | pow
  | bitAnd
  | bitOr
  | bitXor
  | shiftLeft
  | shiftRight
  | less
  | greater
  | lessEqual
  | greaterEqual
deriving DecidableEq, Repr

/-- A coercion of both operands before evaluation. -/
inductive Cast where
  /-- Rounds toward zero to a word. -/
  | integer
deriving DecidableEq, Repr

namespace Cast

/-- Coerces one operand. -/
def convert
    (cast : Cast)
    (value : Float) : Except EvalFailure Float :=
  match cast with
  | integer =>
    match truncatedWord? value with
    | some whole => .ok (floatOfInt whole)
    | none => .error .notInteger

end Cast

namespace Evaluator

/-- An operand of a bitwise operator. -/
def word
    (value : Float) : Except EvalFailure Int :=
  match word? value with
  | some whole => .ok whole
  | none => .error .notInteger

/-- The count of a shift. -/
def shiftCount
    (value : Float) : Except EvalFailure Nat := do
  let count ← word value
  if count < 0 then
    .error .negativeShift
  else
    .ok count.toNat

/-- The literal of a finite result. -/
def finite
    (value : Float) : Except EvalFailure Expr :=
  if value.isFinite then
    .ok (Expr.ofFloat value)
  else
    .error .nonFinite

/-- A bitwise operation on two operands. -/
def bitwise
    (operation : BitVec 64 → BitVec 64 → BitVec 64)
    (lhs rhs : Float) : Except EvalFailure Expr := do
  let first ← word lhs
  let second ← word rhs
  finite (floatOfInt (onWords operation first second))

/-- Computes an operator on two literal numbers.

A left shift multiplies by a power of two, which is not finite itself from `2 ^ 1024` on, whatever it
multiplies; a right shift rounds down, and shifts by more than a word's width act like shifts by
63. -/
def evaluate
    (evaluator : Evaluator)
    (lhs rhs : Float) : Except EvalFailure Expr :=
  match evaluator with
  | add => finite (lhs + rhs)
  | sub => finite (lhs - rhs)
  | mul => finite (lhs * rhs)
  | div => if rhs == 0 then .error .divisionByZero else finite (lhs / rhs)
  | pow => if lhs == 0 && decide (rhs < 0) then .error .divisionByZero else finite (power lhs rhs)
  | bitAnd => bitwise (· &&& ·) lhs rhs
  | bitOr => bitwise (· ||| ·) lhs rhs
  | bitXor => bitwise (· ^^^ ·) lhs rhs
  | shiftLeft => do
    let value ← word lhs
    let count ← shiftCount rhs
    if count < 1024 then
      finite (floatOfInt (value * 2 ^ count))
    else
      .error .nonFinite
  | shiftRight => do
    let value ← word lhs
    let count ← shiftCount rhs
    finite (floatOfInt (value >>> min count 63))
  | less => .ok (.boolean (decide (lhs < rhs)))
  | greater => .ok (.boolean (decide (rhs < lhs)))
  | lessEqual => .ok (.boolean (decide (lhs ≤ rhs)))
  | greaterEqual => .ok (.boolean (decide (rhs ≤ lhs)))

end Evaluator

end SymbolicAlgebra
