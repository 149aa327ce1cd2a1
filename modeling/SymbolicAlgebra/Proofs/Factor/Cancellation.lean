import SymbolicAlgebra.Proofs.Factor.Basic

/-!
# Multiplying a quotient by its denominator

Multiplying `b / c` by `c` gives `b` back if `c` is a factor, neither a sum nor a quotient, whose base is
not among the factors of `b`.  Then the quotient is kept as it is until it meets its denominator.  A
denominator that is a sum is distributed over the quotient before the two can meet.
-/

namespace SymbolicAlgebra

open SymbolicAlgebra.Expr

/-- The properties of division. -/
def quotientSpec : OperatorSpec :=
  { evaluator := some .div, rightIdentity := some (.number 1) }

theorem SymbolTable.specOf?_div
    (table : SymbolTable) :
    table.specOf? Operator.div = some quotientSpec :=
  rfl

/-- The rules from the one that folds sums on. -/
def rulesAfterCancellation : List Rule :=
  catalogue.drop 8

/-- The denominator is a factor, neither a sum nor a quotient, whose base is no base of the numerator. -/
structure Divides
    (table : SymbolTable)
    (denominator numerator : Expr) : Prop where
  isFactor :
    denominator.IsFactor
  notSum :
    denominator.isApplyOf Operator.add = false
  notQuotient :
    denominator.isApplyOf Operator.div = false
  fresh :
    ∀ factors,
      Factors.of? table.construct numerator = some factors →
        denominator.base ∉ factors.powers.map (·.1)

/-- A base that is not there cannot be divided out. -/
theorem Factors.removePower?_eq_none
    {builder : Builder}
    {base exponent : Expr}
    {powers : List (Expr × Expr)}
    (fresh : base ∉ powers.map (·.1)) :
    Factors.removePower? builder base exponent powers = none := by
  induction powers with
  | nil =>
      rfl
  | cons entry rest inductionHypothesis =>
      rw [List.map_cons, List.mem_cons, not_or] at fresh
      rw [Factors.removePower?, if_neg (Ne.symm fresh.1),
        inductionHypothesis fresh.2]
      rfl

namespace Divides

variable {table : SymbolTable} {numerator denominator lhs rhs : Expr}

theorem construct_quotient
    (divides : Divides table denominator numerator) :
    table.construct Operator.div [numerator, denominator] =
      .ok (.apply Operator.div [numerator, denominator]) :=
  construct_stored table.specOf?_div (List.cons_ne_nil _ _)
    (quotientSpec.evaluateLiterals?_pair _
      (by rw [divides.isFactor.notLiteral, Bool.and_false]))
    rfl

/-- The quotient has no factors that cancel. -/
theorem cancelQuotient?_eq_none
    (divides : Divides table denominator numerator) :
    Transform.cancelQuotient? table.construct numerator denominator = none := by
  have divisor :
      Factors.of? table.construct denominator =
        some ⟨1, [(denominator.base, denominator.exponent)]⟩ :=
    Factors.collect?_of_isFactor divides.isFactor List.not_mem_nil
  have notLiteral := divides.isFactor.notLiteral
  cases dividend : Factors.of? table.construct numerator with
  | none =>
      unfold Transform.cancelQuotient?
      split
      · cases notLiteral
      · rw [dividend]
        rfl
  | some factors =>
      have undivided :
          factors.divide? table.construct
              ⟨1, [(denominator.base, denominator.exponent)]⟩ =
            none := by
        simp [Factors.divide?,
          Factors.removePower?_eq_none (divides.fresh factors dividend)]
      unfold Transform.cancelQuotient?
      split
      · cases notLiteral
      · simp [dividend, divisor, undivided]

/-- The quotient is kept. -/
theorem visited_quotient
    (divides : Divides table denominator numerator) :
    visited table catalogue (.apply Operator.div [numerator, denominator]) =
      .apply Operator.div [numerator, denominator] := by
  have notLiteral := divides.isFactor.notLiteral
  have notNeutral : quotientSpec.effectiveLeftIdentity ≠ some numerator := by
    intro same
    cases same
  have notUnit : quotientSpec.effectiveRightIdentity ≠ some denominator := by
    intro same
    cases same
    cases notLiteral
  apply visited_of_waits
  intro rule member
  simp only [catalogue, List.mem_cons, List.not_mem_nil, or_false] at member
  rcases member with rfl | rfl | rfl | rfl | rfl | rfl | rfl | rfl | rfl | rfl |
      rfl | rfl
  · rfl
  · exact Transform.stripIdentities?_pair table.specOf?_div notNeutral notUnit
  · exact Transform.evaluateNumeric?_pair table.construct
      (by rw [notLiteral, Bool.and_false])
  · rfl
  · rfl
  · rfl
  · rfl
  · exact divides.cancelQuotient?_eq_none
  · rfl
  · rfl
  · rfl
  · rfl

/-- The base of the denominator is not the quotient, of which it is a part. -/
theorem base_ne_quotient
    (divides : Divides table denominator numerator) :
    denominator.base ≠ .apply Operator.div [numerator, denominator] := by
  intro same
  cases divides.isFactor with
  | base notLiteral notProduct notPower =>
      rw [(base_of_notPower notPower).1] at same
      have notQuotient := divides.notQuotient
      rw [same] at notQuotient
      cases notQuotient
  | @power base exponent notLiterals notProduct notPower notZero notOne =>
      have size := congrArg sizeOf same
      simp [base_power] at size
      omega

/-- The quotient and its denominator cancel, in whichever order they stand. -/
theorem cancelDivision?_product
    (divides : Divides table denominator numerator)
    (isPair :
      IsPair lhs rhs denominator (.apply Operator.div [numerator, denominator])) :
    Transform.cancelDivision? table table.construct
        (.apply Operator.mul [lhs, rhs]) =
      some numerator := by
  have other : denominator.operands? Operator.div = none :=
    operands?_eq_none_of_not_isApplyOf divides.notQuotient
  rcases isPair with ⟨rfl, rfl⟩ | ⟨rfl, rfl⟩
  · simp [Transform.cancelDivision?, Transform.cancelProduct?, operands?_pair,
      Transform.multiplyQuotient?]
  · simp [Transform.cancelDivision?, Transform.cancelProduct?, operands?_pair,
      other, Transform.multiplyQuotient?]

/-- The product of the quotient and its denominator becomes the numerator. -/
theorem visited_product
    (divides : Divides table denominator numerator)
    (isPair :
      IsPair lhs rhs denominator (.apply Operator.div [numerator, denominator]))
    (inOrder : InOrder Operator.mul lhs rhs)
    (kept : visited table rulesAfterCancellation numerator = numerator) :
    visited table catalogue (.apply Operator.mul [lhs, rhs]) = numerator := by
  have quotientFactor : (Expr.apply Operator.div [numerator, denominator]).IsFactor :=
    .base rfl rfl rfl
  have before :
      visited table rulesBeforeSpreading (.apply Operator.mul [lhs, rhs]) =
        .apply Operator.mul [lhs, rhs] := by
    rcases isPair with ⟨rfl, rfl⟩ | ⟨rfl, rfl⟩
    · exact visited_product_before divides.isFactor quotientFactor
        divides.base_ne_quotient inOrder
    · exact visited_product_before quotientFactor divides.isFactor
        divides.base_ne_quotient.symm inOrder
  have undistributed :
      Transform.mulOverAdd? table table.construct
          (.apply Operator.mul [lhs, rhs]) =
        none := by
    have sums :
        lhs.operands? Operator.add = none ∧ rhs.operands? Operator.add = none :=
      isPair.forall (fun expr => expr.operands? Operator.add = none)
        (operands?_eq_none_of_not_isApplyOf divides.notSum) rfl
    simp [Transform.mulOverAdd?, Transform.distribute?, operands?_pair, sums]
  have catalogued :
      catalogue =
        rulesBeforeSpreading ++
          ⟨"distribute-mul-add", Transform.mulOverAdd?⟩ ::
            ⟨"distribute-and-or", Transform.andOverOr?⟩ ::
              ⟨"cancel-division", Transform.cancelDivision?⟩ ::
                rulesAfterCancellation :=
    rfl
  rw [catalogued, visited_append, before, visited_cons,
    result_of_none undistributed, visited_cons, result_of_none rfl, visited_cons,
    result_of_some (divides.cancelDivision?_product isPair), kept]

theorem visited_stored_product
    (divides : Divides table denominator numerator)
    (isPair :
      IsPair lhs rhs denominator (.apply Operator.div [numerator, denominator]))
    (kept : visited table rulesAfterCancellation numerator = numerator) :
    visited table catalogue (stored Operator.mul lhs rhs) = numerator := by
  obtain ⟨first, second, shape, inOrder, operands⟩ :=
    exists_stored Operator.mul lhs rhs
  rw [shape]
  refine divides.visited_product ?_ inOrder kept
  rcases isPair with ⟨rfl, rfl⟩ | ⟨rfl, rfl⟩
  · exact operands
  · exact operands.swap

end Divides

/--
A quotient by a factor that has no base in common with the numerator gives the numerator back when it is
multiplied by the factor, in either operand order.
-/
theorem apply_product_of_quotient
    {workspace : Workspace}
    (enough : 2 ≤ workspace.ceiling)
    {numerator denominator : Expr}
    (divides : Divides workspace.table denominator numerator)
    (numeratorFixed : pass workspace.table catalogue numerator = .ok numerator)
    (denominatorFixed :
      pass workspace.table catalogue denominator = .ok denominator)
    (kept :
      visited workspace.table rulesAfterCancellation numerator = numerator) :
    ∃ quotient,
      workspace.apply Operator.div [numerator, denominator] = .ok quotient ∧
        workspace.apply Operator.mul [denominator, quotient] = .ok numerator ∧
          workspace.apply Operator.mul [quotient, denominator] =
            .ok numerator := by
  have notLiteral := divides.isFactor.notLiteral
  have construction := divides.construct_quotient
  have quotientFixed :
      pass workspace.table catalogue
          (.apply Operator.div [numerator, denominator]) =
        .ok (.apply Operator.div [numerator, denominator]) := by
    obtain ⟨node, rfl | rfl, passes⟩ :=
      exists_pass_pair rfl numeratorFixed denominatorFixed construction
    · rw [passes, divides.visited_quotient]
    · rw [passes, divides.visited_quotient]
  refine ⟨.apply Operator.div [numerator, denominator], ?_, ?_, ?_⟩
  · rw [apply_eq_simplify construction rfl]
    exact simplify_of_pass enough quotientFixed quotientFixed
  · exact apply_of_visited enough rfl denominatorFixed quotientFixed
      (storesPair_product notLiteral rfl)
      (divides.visited_stored_product (.inl ⟨rfl, rfl⟩) kept) numeratorFixed
  · exact apply_of_visited enough rfl quotientFixed denominatorFixed
      (storesPair_product rfl notLiteral)
      (divides.visited_stored_product (.inr ⟨rfl, rfl⟩) kept) numeratorFixed

/-- Dividing `y + z` by `x ** 2` and multiplying by it again gives `y + z`. -/
theorem apply_product_of_quotient_sum :
    let sum := Expr.apply Operator.add [.symbol "y", .symbol "z"]
    let square := Expr.apply Operator.pow [.symbol "x", .number 2]
    let workspace : Workspace := {}
    Divides workspace.table square sum ∧
      pass workspace.table catalogue sum = .ok sum ∧
        pass workspace.table catalogue square = .ok square ∧
          visited workspace.table rulesAfterCancellation sum = sum ∧
            ∃ quotient,
              workspace.apply Operator.div [sum, square] = .ok quotient ∧
                workspace.apply Operator.mul [square, quotient] = .ok sum ∧
                  workspace.apply Operator.mul [quotient, square] = .ok sum := by
  intro sum square workspace
  have fresh
      (factors : Factors)
      (found :
        Factors.of? workspace.table.construct sum = some factors) :
      square.base ∉ factors.powers.map (·.1) := by
    have collected :
        Factors.of? workspace.table.construct sum =
          some ⟨1, [(sum, .number 1)]⟩ :=
      rfl
    rw [collected] at found
    cases found
    decide
  have divides : Divides workspace.table square sum :=
    { isFactor := .power rfl rfl rfl (by decide) (by decide)
      notSum := rfl
      notQuotient := rfl
      fresh := fresh }
  have sumFixed : pass workspace.table catalogue sum = .ok sum := by
    decide +kernel
  have squareFixed : pass workspace.table catalogue square = .ok square := by
    decide +kernel
  have kept : visited workspace.table rulesAfterCancellation sum = sum := by
    decide +kernel
  exact ⟨divides, sumFixed, squareFixed, kept,
    apply_product_of_quotient (by decide) divides sumFixed squareFixed kept⟩

/-- Dividing `z` by `x + y` and multiplying by it again does not give `z`: the sum is distributed first. -/
theorem apply_product_of_quotient_ne :
    ¬∀ (workspace : Workspace)
        (numerator denominator quotient result : Expr),
      2 ≤ workspace.ceiling →
        numerator.isNumber = false → denominator.isNumber = false →
          pass workspace.table catalogue numerator = .ok numerator →
            pass workspace.table catalogue denominator = .ok denominator →
              workspace.apply Operator.div [numerator, denominator] =
                  .ok quotient →
                workspace.apply Operator.mul [denominator, quotient] =
                    .ok result →
                  result = numerator := by
  intro cancels
  let z := Expr.symbol "z"
  let sum := Expr.apply Operator.add [.symbol "x", .symbol "y"]
  let quotient := Expr.apply Operator.div [z, sum]
  let share
      (name : String) : Expr :=
    .apply Operator.div [.apply Operator.mul [.symbol name, z], sum]
  have sumFixed : pass ({} : Workspace).table catalogue sum = .ok sum := by
    decide +kernel
  have divided : ({} : Workspace).apply Operator.div [z, sum] = .ok quotient := by
    decide +kernel
  have multiplied :
      ({} : Workspace).apply Operator.mul [sum, quotient] =
        .ok (.apply Operator.add [share "x", share "y"]) := by
    decide +kernel
  have differ : Expr.apply Operator.add [share "x", share "y"] ≠ z :=
    nofun
  exact differ
    (cancels {} z sum quotient _ (by decide) rfl rfl (pass_leaf rfl) sumFixed
      divided multiplied)

end SymbolicAlgebra
