import SymbolicAlgebra.Factors
import SymbolicAlgebra.Rule.Basic

/-!
# Arithmetic

Powers, subtraction, division and like terms.
-/

namespace SymbolicAlgebra.Transform

/-- Collects repeated factors of a product or power into powers. -/
def convertPowers? : Transform :=
  fun _ builder node =>
    if node.isApplyOf Operator.mul || node.isBinaryOf Operator.pow then do
      let factors ← Factors.of? builder node
      factors.rebuild? builder
    else
      none

/-- Writes `a - b` as `a + b * -1`. -/
def removeSubtraction? : Transform :=
  fun _ builder node =>
    match node.operands? Operator.sub with
    | none => none
    | some (lhs, rhs) => Except.toOption do
      let negated ← builder Operator.mul [rhs, .number (-1)]
      builder Operator.add [lhs, negated]

/-- Writes `factor * (numerator / denominator)` as `numerator` if the factor is the denominator and
as `(factor * numerator) / denominator` otherwise. -/
def multiplyQuotient?
    (builder : Builder)
    (factor numerator denominator : Expr) : Option Expr :=
  if factor = denominator then
    some numerator
  else Except.toOption do
    let product ← builder Operator.mul [factor, numerator]
    builder Operator.div [product, denominator]

/-- Multiplies a product with a quotient among its two factors out. -/
def cancelProduct?
    (builder : Builder)
    (lhs rhs : Expr) : Option Expr :=
  match rhs.operands? Operator.div with
  | some (numerator, denominator) => multiplyQuotient? builder lhs numerator denominator
  | none =>
    match lhs.operands? Operator.div with
    | some (numerator, denominator) => multiplyQuotient? builder rhs numerator denominator
    | none => none

/-- Turns division by a literal into multiplication, and divides the factors of the denominator out
of the numerator if they all occur there. -/
def cancelQuotient?
    (builder : Builder)
    (numerator denominator : Expr) : Option Expr :=
  match denominator with
  | .number divisor =>
    let reciprocal : Float := 1 / divisor
    if reciprocal.isFinite then
      (builder Operator.mul [numerator, .ofFloat reciprocal]).toOption
    else
      none
  | denominator => do
    let dividend ← Factors.of? builder numerator
    let divisor ← Factors.of? builder denominator
    let quotient ← dividend.divide? builder divisor
    quotient.rebuild? builder

/-- Cancels and normalizes quotients. -/
def cancelDivision? : Transform :=
  fun _ builder node =>
    match node.operands? Operator.mul with
    | some (lhs, rhs) => cancelProduct? builder lhs rhs
    | none =>
      match node.operands? Operator.div with
      | some (numerator, denominator) => cancelQuotient? builder numerator denominator
      | none => none

/-- Splits a leading literal factor off a product of two. -/
def splitCoefficient
    (term : Expr) : Float × Expr :=
  match term.operands? Operator.mul with
  | some (.number coefficient, rest) => (coefficient, rest)
  | _ => (1, term)

/-- Adds `coefficient · base` to a list of like terms. -/
def addTerm
    (base : Expr)
    (coefficient : Float) : List (Expr × Float) → List (Expr × Float)
  | [] => [(base, coefficient)]
  | (base', total) :: rest =>
    if base' = base then
      (base', total + coefficient) :: rest
    else
      (base', total) :: addTerm base coefficient rest

/-- The like terms of a list of addends: different bases with their total coefficients. -/
def likeTerms
    (addends : List Expr) : List (Expr × Float) :=
  addends.foldl
    (fun groups addend =>
      let (coefficient, base) := splitCoefficient addend
      addTerm base coefficient groups)
    []

/-- The other factor of a product of two that has the given factor. -/
def cofactor?
    (factor product : Expr) : Option Expr :=
  match product.operands? Operator.mul with
  | some (lhs, rhs) =>
    if lhs = factor then
      some rhs
    else if rhs = factor then
      some lhs
    else
      none
  | none => none

/-- The first group, other than the one at `index`, that is a product with the given factor: its
place and the other factor.  Groups that have cancelled are passed over. -/
def multipleOf?
    (factor : Expr)
    (index : Nat) : (groups : List (Expr × Float)) → (place : Nat) → Option (Nat × Expr)
  | [], _ => none
  | (product, coefficient) :: rest, place =>
    let found := if place = index || coefficient == 0 then none else cofactor? factor product
    match found with
    | some cofactor => some (place, cofactor)
    | none => multipleOf? factor index rest (place + 1)

/-- The first two groups of which one is a multiple of the other's base: both places and the other
factor. -/
def sharedFactor?
    (groups : List (Expr × Float)) : (candidates : List (Expr × Float)) → (place : Nat) →
      Option (Nat × Nat × Expr)
  | [], _ => none
  | (base, coefficient) :: rest, place =>
    let found := if coefficient == 0 then none else multipleOf? base place groups 0
    match found with
    | some (multiple, cofactor) => some (place, multiple, cofactor)
    | none => sharedFactor? groups rest (place + 1)

/-- `coefficient · term`, or the term itself for coefficient one. -/
def scaled
    (builder : Builder)
    (coefficient : Float)
    (term : Expr) : Except ExprError Expr :=
  if coefficient == 1 then
    .ok term
  else
    builder Operator.mul [.ofFloat coefficient, term]

/-- Pulls shared factors out of groups, at most `steps` times, which loses one group each time.
The answer says whether any was found; `none` if a coefficient cannot be built. -/
def mergeShared?
    (builder : Builder)
    (groups : List (Expr × Float))
    (merged : Bool) : (steps : Nat) → Option (List (Expr × Float) × Bool)
  | 0 => some (groups, merged)
  | steps + 1 =>
    match sharedFactor? groups groups 0 with
    | none => some (groups, merged)
    | some (place, multiple, cofactor) =>
      match groups[place]?, groups[multiple]? with
      | some (base, first), some (_, second) => do
        let combined ← Except.toOption do
          let term ← scaled builder second cofactor
          let coefficient ← builder Operator.add [.ofFloat first, term]
          builder Operator.mul [coefficient, base]
        mergeShared? builder ((groups.set place (combined, 1)).eraseIdx multiple) true steps
      | _, _ => some (groups, merged)

/-- The addends that groups stand for; cancelled groups vanish. -/
def groupTerms?
    (builder : Builder) : List (Expr × Float) → Option (List Expr)
  | [] => some []
  | (base, coefficient) :: rest =>
    if !coefficient.isFinite then
      none
    else if coefficient == 0 then
      groupTerms? builder rest
    else do
      let term ← (scaled builder coefficient base).toOption
      let following ← groupTerms? builder rest
      some (term :: following)

/-- Combines the like terms of an addition chain and pulls shared factors out of products. -/
def foldAdditions? : Transform :=
  fun _ builder node =>
    if !node.isApplyOf Operator.add then
      none
    else do
      let flat := Chain.flatten Operator.add node
      let addends := flat.filter (!·.isNumber)
      let groups := likeTerms addends
      let (groups', merged) ← mergeShared? builder groups false groups.length
      if !merged && groups'.length == addends.length then
        none
      else
        let terms ← groupTerms? builder groups'
        let operands := flat.filter (·.isNumber) ++ terms
        if operands.isEmpty then
          some (.number 0)
        else
          (Chain.build builder Operator.add (Expr.sortCanonically operands)).toOption

end SymbolicAlgebra.Transform
