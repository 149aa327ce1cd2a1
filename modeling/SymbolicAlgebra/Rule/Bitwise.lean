import SymbolicAlgebra.Chain
import SymbolicAlgebra.Rule.Basic

/-!
# Bitwise identities

Idempotence and self-inverse laws of the bitwise operators: equal operands of an exclusive
disjunction cancel in pairs, repeated operands of a conjunction or disjunction collapse, and a shift
undoes the opposite shift by the same count.
-/

namespace SymbolicAlgebra.Transform

/-- Removes the item at an index by moving the last item there. -/
def swapRemove
    (items : List Expr)
    (index : Nat) : List Expr :=
  match items.getLast? with
  | some last => (items.set index last).dropLast
  | none => []

/-- Keeps one of each item that occurs an odd number of times. -/
def oddItems
    (items : List Expr) : List Expr :=
  items.foldl
    (fun kept item =>
      match kept.findIdx? (· == item) with
      | some index => swapRemove kept index
      | none => kept ++ [item])
    []

/-- Keeps the first of equal items. -/
def distinctItems
    (items : List Expr) : List Expr :=
  items.foldl (fun kept item => if kept.contains item then kept else kept ++ [item]) []

/-- Cancels equal operands of an exclusive disjunction in pairs. -/
def cancelPairs?
    (builder : Builder)
    (node : Expr) : Option Expr :=
  let operands := Chain.flatten Operator.bitXor node
  let kept := oddItems operands
  if kept.length = operands.length then
    none
  else if kept.isEmpty then
    some (.number 0)
  else
    (Chain.build builder Operator.bitXor (Expr.sortCanonically kept)).toOption

/-- Collapses repeated operands of a chain. -/
def deduplicate?
    (builder : Builder)
    (op node : Expr) : Option Expr :=
  let operands := Chain.flatten op node
  let kept := distinctItems operands
  if kept.length = operands.length then
    none
  else
    (Chain.build builder op (Expr.sortCanonically kept)).toOption

/-- The value under two opposite shifts by the same count. -/
def cancelShift?
    (inverse shifted count : Expr) : Option Expr :=
  match shifted.operands? inverse with
  | some (value, inner) => if inner = count then some value else none
  | none => none

/-- The identities of the bitwise operators. -/
def bitIdentities? : Transform :=
  fun _ builder node =>
    match node with
    | .apply head args =>
      if head = Operator.bitXor then
        cancelPairs? builder node
      else if head = Operator.bitAnd then
        deduplicate? builder Operator.bitAnd node
      else if head = Operator.bitOr then
        deduplicate? builder Operator.bitOr node
      else
        match args with
        | [shifted, count] =>
          if head = Operator.shiftRight then
            cancelShift? Operator.shiftLeft shifted count
          else if head = Operator.shiftLeft then
            cancelShift? Operator.shiftRight shifted count
          else
            none
        | _ => none
    | _ => none

end SymbolicAlgebra.Transform
