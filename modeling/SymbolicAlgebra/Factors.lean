import SymbolicAlgebra.Chain

/-!
# Products as factors

A nest of products and powers is a numeric coefficient times a list of powers with different bases.
Repeated bases add their exponents, a power of a power multiplies them, and a power of a product
spreads over its factors.
-/

namespace SymbolicAlgebra

/-- A coefficient and powers, each a base with its exponent. -/
structure Factors where
  coefficient : Float
  powers : List (Expr × Expr)

/-- The product of two exponents, without introducing a factor of one. -/
def scaleExponent?
    (builder : Builder)
    (outer inner : Expr) : Option Expr :=
  if outer.number?.any (· == 1) then
    some inner
  else if inner.number?.any (· == 1) then
    some outer
  else
    (builder Operator.mul [outer, inner]).toOption

/-- The sum of two exponents. -/
def addExponents?
    (builder : Builder)
    (first second : Expr) : Option Expr :=
  (builder Operator.add [first, second]).toOption

namespace Factors

/-- The empty product. -/
def one : Factors :=
  ⟨1, []⟩

/-- Multiplies one more power into a list; its exponent is added to the one of an equal base. -/
def insertPower?
    (builder : Builder)
    (base exponent : Expr) : List (Expr × Expr) → Option (List (Expr × Expr))
  | [] => some [(base, exponent)]
  | (base', exponent') :: rest =>
    if base' = base then
      (addExponents? builder exponent' exponent).map fun total => (base', total) :: rest
    else
      (insertPower? builder base exponent rest).map ((base', exponent') :: ·)

/-- Multiplies one more power into a product.  A literal power of a literal goes into the
coefficient. -/
def push?
    (builder : Builder)
    (factors : Factors)
    (base exponent : Expr) : Option Factors :=
  match base, exponent with
  | .number value, .number count =>
    some { factors with coefficient := factors.coefficient * power value count }
  | base, exponent =>
    (insertPower? builder base exponent factors.powers).map ({ factors with powers := · })

mutual

/-- Multiplies `expr ** exponent` into a product. -/
def collect?
    (builder : Builder)
    (factors : Factors)
    (expr exponent : Expr) : Option Factors :=
  match expr with
  | .apply head args =>
    if head = Operator.mul then
      collectArgs? builder factors args exponent
    else
      match args with
      | [base, inner] =>
        if head = Operator.pow then
          match scaleExponent? builder exponent inner with
          | some combined => collect? builder factors base combined
          | none => none
        else
          push? builder factors (.apply head [base, inner]) exponent
      | args => push? builder factors (.apply head args) exponent
  | leaf => push? builder factors leaf exponent

/-- Multiplies all arguments, each with the same exponent, into a product. -/
def collectArgs?
    (builder : Builder)
    (factors : Factors)
    (args : List Expr)
    (exponent : Expr) : Option Factors :=
  match args with
  | [] => some factors
  | arg :: rest =>
    match collect? builder factors arg exponent with
    | some extended => collectArgs? builder extended rest exponent
    | none => none

end

/-- The factors of an expression; `none` if some exponents cannot be combined. -/
def of?
    (builder : Builder)
    (expr : Expr) : Option Factors :=
  collect? builder one expr (.number 1)

/-- Divides one power out of a list that has its base. -/
def removePower?
    (builder : Builder)
    (base exponent : Expr) : List (Expr × Expr) → Option (List (Expr × Expr))
  | [] => none
  | (base', exponent') :: rest =>
    if base' = base then do
      let negated ← scaleExponent? builder exponent (.number (-1))
      let total ← addExponents? builder exponent' negated
      some ((base', total) :: rest)
    else
      (removePower? builder base exponent rest).map ((base', exponent') :: ·)

/-- The quotient, if every base of the divisor occurs in the dividend. -/
def divide?
    (builder : Builder)
    (dividend divisor : Factors) : Option Factors :=
  if divisor.coefficient == 0 then
    none
  else do
    let powers ← divisor.powers.foldlM
      (fun powers entry => removePower? builder entry.1 entry.2 powers) dividend.powers
    some ⟨dividend.coefficient / divisor.coefficient, powers⟩

/-- The operand that a power contributes: nothing for exponent zero, the bare base for one. -/
def operands?
    (builder : Builder) : List (Expr × Expr) → Option (List Expr)
  | [] => some []
  | (base, exponent) :: rest => do
    let following ← operands? builder rest
    if exponent.number?.any (· == 0) then
      some following
    else if exponent.number?.any (· == 1) then
      some (base :: following)
    else
      let operand ← (builder Operator.pow [base, exponent]).toOption
      some (operand :: following)

/-- The canonical product: a right-nested chain of sorted operands. -/
def rebuild?
    (builder : Builder)
    (factors : Factors) : Option Expr :=
  if !factors.coefficient.isFinite then
    none
  else if factors.coefficient == 0 then
    some (.number 0)
  else do
    let operands ← operands? builder factors.powers
    let all :=
      if factors.coefficient != 1 || operands.isEmpty then
        operands ++ [.ofFloat factors.coefficient]
      else
        operands
    (Chain.build builder Operator.mul (Expr.sortCanonically all)).toOption

end Factors

end SymbolicAlgebra
