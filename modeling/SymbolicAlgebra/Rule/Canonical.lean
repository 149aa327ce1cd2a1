import SymbolicAlgebra.Chain
import SymbolicAlgebra.Rule.Basic

/-!
# Canonical form

Operand order, identities, evaluation, absorption and the shape of associative chains.  These rules
consult nothing but the head's properties, so they serve every operator.
-/

namespace SymbolicAlgebra.Transform

/-- Sorts the operands of a commutative operator. -/
def commutativeOrder? : Transform :=
  fun table builder node =>
    match node with
    | .apply head args =>
      if ((table.specOf? head).any (·.commutative)) &&
          !Expr.isSortedBy (Expr.operandCompare head) args then
        (builder head args).toOption
      else
        none
    | _ => none

/-- Drops identity operands until none is left at the node. -/
def stripIdentities?
    (table : SymbolTable)
    (builder : Builder)
    (node : Expr) : Option Expr :=
  match node with
  | .apply head [lhs, rhs] =>
    match table.specOf? head with
    | none => none
    | some spec =>
      if spec.effectiveLeftIdentity = some lhs then
        some ((stripIdentities? table builder rhs).getD rhs)
      else if spec.effectiveRightIdentity = some rhs then
        some ((stripIdentities? table builder lhs).getD lhs)
      else
        none
  | _ => none

/-- Evaluates an operator applied to two literal numbers. -/
def evaluateNumeric? : Transform :=
  fun table _ node =>
    match node with
    | .apply head args => do
      let spec ← table.specOf? head
      let outcome ← spec.evaluateLiterals? (head.symbol?.getD "") args
      outcome.toOption
    | _ => none

/-- Collapses an application that has its operator's absorbing value among its arguments. -/
def absorbZero? : Transform :=
  fun table _ node =>
    match node with
    | .apply head args => do
      let spec ← table.specOf? head
      spec.absorbed? args
    | _ => none

/-- Folds literal operands into one literal, from left to right. -/
def foldConstants?
    (spec : OperatorSpec)
    (name : String)
    (total : Expr) : List Expr → Option Expr
  | [] => some total
  | next :: rest => do
    let outcome ← spec.evaluateLiterals? name [total, next]
    let value ← outcome.toOption
    if value.isNumber then
      foldConstants? spec name value rest
    else
      none

/-- The literal operands of a chain after folding: unchanged unless there are several of them and
the operator has an evaluator; `none` if they cannot be folded. -/
def foldedConstants?
    (spec : OperatorSpec)
    (name : String) : (constants : List Expr) → Option (List Expr)
  | first :: second :: rest =>
    if spec.evaluator.isSome then
      (foldConstants? spec name first (second :: rest)).map ([·])
    else
      some (first :: second :: rest)
  | constants => some constants

/-- Whether a value is neutral on one of the sides. -/
def isIdentity
    (spec : OperatorSpec)
    (value : Expr) : Bool :=
  decide (spec.effectiveLeftIdentity = some value) ||
    decide (spec.effectiveRightIdentity = some value)

/-- Regroups the chain of a commutative operator: literals are folded, an absorbing one takes over,
an identity is dropped, and the operands are sorted. -/
def reassociateSorted?
    (spec : OperatorSpec)
    (builder : Builder)
    (op node : Expr) : Option Expr := do
  let flat := Chain.flatten op node
  let others := flat.filter (!·.isNumber)
  let constants ← foldedConstants? spec (op.symbol?.getD "") (flat.filter (·.isNumber))
  let rebuilt (kept : List Expr) : Option Expr :=
    let operands := Expr.sortCanonically (kept ++ others)
    if operands = flat ∧ Chain.isRightNested op node then
      none
    else
      (Chain.build builder op operands).toOption
  match constants with
  | [constant] =>
    if spec.zero = some constant then
      some constant
    else if isIdentity spec constant && !others.isEmpty then
      rebuilt []
    else
      rebuilt [constant]
  | constants => rebuilt constants

/-- Flattens an associative chain and rebuilds it right-nested. -/
def reassociate? : Transform :=
  fun table builder node =>
    match node with
    | .apply op _ =>
      match table.specOf? op with
      | none => none
      | some spec =>
        if !spec.associative then
          none
        else if spec.commutative then
          reassociateSorted? spec builder op node
        else if Chain.isRightNested op node then
          none
        else
          (Chain.build builder op (Chain.flatten op node)).toOption
    | _ => none

end SymbolicAlgebra.Transform
