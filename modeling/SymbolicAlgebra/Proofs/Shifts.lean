import SymbolicAlgebra.Proofs.Evaluation
import SymbolicAlgebra.Proofs.Number.Integer
import SymbolicAlgebra.Proofs.Visit

/-!
# Opposite shifts

A symbol that is shifted in one direction and back by the same count is simplified to the symbol.  The
evaluators agree if the left shift comes first: it is computed exactly or not at all.  A right shift
drops the last digits, so the evaluators agree with the simplified form only if these are all zero.
-/

namespace SymbolicAlgebra

/-! ## Integers -/

theorem Cast.exists_of_convert
    {value converted : Float}
    (converts : Cast.integer.convert value = .ok converted) :
    ∃ whole, truncatedWord? value = some whole ∧ converted = floatOfInt whole := by
  unfold convert at converts
  dsimp only at converts
  split at converts
  · rename_i whole rounded
    cases converts
    exact ⟨whole, rounded, rfl⟩
  · cases converts

namespace Evaluator

theorem word_floatOfInt
    {whole : Int}
    (fits : FitsFloat whole.natAbs)
    (small : whole.natAbs < wordLimit) :
    word (floatOfInt whole) = .ok whole := by
  rw [word, (floatOfInt_isExactly fits).word?_eq small]

theorem eq_of_shiftCount
    {count : Int}
    {places : Nat}
    (fits : FitsFloat count.natAbs)
    (small : count.natAbs < wordLimit)
    (counted : shiftCount (floatOfInt count) = .ok places) :
    count = places := by
  rw [shiftCount, word_floatOfInt fits small, ok_bind] at counted
  split at counted
  · cases counted
  · cases counted
    omega

theorem of_finite_floatOfInt
    {whole : Int}
    {result : Expr}
    (succeeds : finite (floatOfInt whole) = .ok result) :
    whole.natAbs.log2 < 1024 ∧ result = .ofInt whole := by
  unfold finite at succeeds
  split at succeeds
  · rename_i isFinite
    cases succeeds
    exact ⟨log2_lt_of_isFinite isFinite, rfl⟩
  · cases succeeds

end Evaluator

/-! ## Directions -/

/-- The direction of a shift. -/
inductive ShiftDirection where
  | left
  | right

namespace ShiftDirection

def opposite : ShiftDirection → ShiftDirection
  | left => right
  | right => left

/-- The name of the operator. -/
def name : ShiftDirection → String
  | left => "<<"
  | right => ">>"

/-- The operator that shifts in this direction. -/
def op
    (direction : ShiftDirection) : Expr :=
  .symbol direction.name

def evaluator : ShiftDirection → Evaluator
  | left => .shiftLeft
  | right => .shiftRight

def spec
    (direction : ShiftDirection) : OperatorSpec :=
  { evaluator := some direction.evaluator
    cast := some .integer
    rightIdentity := some (.number 0) }

/-- A shift in this direction under a shift back by the same count. -/
def nested
    (direction : ShiftDirection)
    (operand count : Expr) : Expr :=
  .apply direction.opposite.op [.apply direction.op [operand, count], count]

/-- Applies a shift in this direction and then a shift back by the same count. -/
def build
    (direction : ShiftDirection)
    (workspace : Workspace)
    (operand count : Expr) : Except ExprError Expr := do
  let shifted ← workspace.apply direction.op [operand, count]
  workspace.apply direction.opposite.op [shifted, count]

theorem standardSpec?_name
    (direction : ShiftDirection) :
    standardSpec? direction.name = some direction.spec := by
  cases direction <;> rfl

theorem specOf?_op
    (direction : ShiftDirection)
    (table : SymbolTable) :
    table.specOf? direction.op = some direction.spec :=
  table.specOf?_standard direction.standardSpec?_name

theorem op_ne
    (direction : ShiftDirection)
    {other : String}
    (different : other ≠ "<<" ∧ other ≠ ">>") :
    direction.op ≠ .symbol other := by
  intro same
  cases direction with
  | left =>
      cases same
      exact different.1 rfl
  | right =>
      cases same
      exact different.2 rfl

/-! ## Simplification -/

section Simplification

variable {table : SymbolTable} {shifted count : Expr}

/-- A shift of something that is no literal is stored. -/
theorem construct_eq
    (direction : ShiftDirection)
    (table : SymbolTable)
    (notLiteral : shifted.isNumber = false)
    (count : Expr) :
    table.construct direction.op [shifted, count] =
      .ok (.apply direction.op [shifted, count]) :=
  construct_stored (direction.specOf?_op table) (List.cons_ne_nil _ _)
    (direction.spec.evaluateLiterals?_pair _ (by simp [notLiteral])) rfl

theorem commutativeOrder?_eq_none
    (direction : ShiftDirection)
    (table : SymbolTable)
    (builder : Builder)
    (shifted count : Expr) :
    Transform.commutativeOrder? table builder
        (.apply direction.op [shifted, count]) =
      none := by
  simp [Transform.commutativeOrder?, direction.specOf?_op table, spec]

theorem stripIdentities?_eq_none
    (direction : ShiftDirection)
    (table : SymbolTable)
    (builder : Builder)
    (shifted : Expr)
    (nonzero : count ≠ .number 0) :
    Transform.stripIdentities? table builder
        (.apply direction.op [shifted, count]) =
      none := by
  simp [Transform.stripIdentities?, direction.specOf?_op table, spec,
    OperatorSpec.effectiveLeftIdentity, OperatorSpec.effectiveRightIdentity,
    nonzero.symm]

/-- A shift is undone by the opposite shift. -/
theorem bitIdentities?_eq
    (direction : ShiftDirection)
    (table : SymbolTable)
    (builder : Builder)
    (shifted count : Expr) :
    Transform.bitIdentities? table builder
        (.apply direction.op [shifted, count]) =
      Transform.cancelShift? direction.opposite.op shifted count := by
  cases direction <;> rfl

/-- Nothing happens to a shift by a count other than zero, except that it undoes the opposite shift. -/
theorem visited_eq
    (direction : ShiftDirection)
    (table : SymbolTable)
    (notLiteral : shifted.isNumber = false)
    (nonzero : count ≠ .number 0) :
    visited table catalogue (.apply direction.op [shifted, count]) =
      (Transform.cancelShift? direction.opposite.op shifted count).getD
        (.apply direction.op [shifted, count]) := by
  have found := direction.specOf?_op table
  have strips :=
    direction.stripIdentities?_eq_none table table.construct shifted nonzero
  obtain ⟨powers, subtraction, distribution, division, addition⟩ :=
    Transform.arithmetic_eq_none_of_ne (direction.op_ne (by decide))
      (direction.op_ne (by decide)) (direction.op_ne (by decide))
      (direction.op_ne (by decide)) (direction.op_ne (by decide)) table
      table.construct shifted count
  have sorts := direction.commutativeOrder?_eq_none table table.construct shifted count
  have evaluates :
      Transform.evaluateNumeric? table table.construct
        (.apply direction.op [shifted, count]) = none := by
    have unevaluated :=
      direction.spec.evaluateLiterals?_pair (direction.op.symbol?.getD "")
        (show (shifted.isNumber && count.isNumber) = false by simp [notLiteral])
    simp [Transform.evaluateNumeric?, found, unevaluated]
  have conjunction :
      Transform.andOverOr? table table.construct
        (.apply direction.op [shifted, count]) = none := by
    simp [Transform.andOverOr?, Transform.distribute?, Expr.operands?,
      direction.op_ne (show "&" ≠ "<<" ∧ "&" ≠ ">>" by decide)]
  have absorbs :
      Transform.absorbZero? table table.construct
        (.apply direction.op [shifted, count]) = none := by
    simp [Transform.absorbZero?, found, spec, OperatorSpec.absorbed?]
  have regroups :
      Transform.reassociate? table table.construct
        (.apply direction.op [shifted, count]) = none := by
    simp [Transform.reassociate?, found, spec]
  have kept :
      visited table (catalogue.take 11) (.apply direction.op [shifted, count]) =
        .apply direction.op [shifted, count] := by
    apply visited_of_waits
    simp [catalogue, sorts, strips, evaluates, powers, subtraction, distribution,
      conjunction, division, addition, absorbs, regroups]
  have last := visited_append table (catalogue.take 11) (catalogue.drop 11)
    (.apply direction.op [shifted, count])
  rw [List.take_append_drop, kept] at last
  rw [last, ← direction.bitIdentities?_eq table table.construct]
  rfl

/-- A count of zero is dropped. -/
theorem visited_zero
    (direction : ShiftDirection)
    (isLeaf : shifted.isLeaf = true) :
    visited table catalogue (.apply direction.op [shifted, .number 0]) =
      shifted := by
  have sorts :=
    direction.commutativeOrder?_eq_none table table.construct shifted (.number 0)
  have strips :
      Transform.stripIdentities? table table.construct
        (.apply direction.op [shifted, .number 0]) = some shifted := by
    have stays :
        Transform.stripIdentities? table table.construct shifted = none := by
      cases shifted with
      | apply head args => cases isLeaf
      | _ => rfl
    simp [Transform.stripIdentities?, direction.specOf?_op table, spec,
      OperatorSpec.effectiveLeftIdentity, OperatorSpec.effectiveRightIdentity,
      stays]
  have stripped :
      visited table (catalogue.take 2) (.apply direction.op [shifted, .number 0]) =
        shifted := by
    simp [catalogue, visited, result_of_none sorts, result_of_some strips]
  have last := visited_append table (catalogue.take 2) (catalogue.drop 2)
    (.apply direction.op [shifted, .number 0])
  rw [List.take_append_drop, stripped] at last
  rw [last]
  exact visited_of_waits fun rule member =>
    transform?_of_isLeaf (List.mem_of_mem_drop member) table table.construct isLeaf

/-- A pass over a shift of what it leaves alone visits the shift itself. -/
theorem pass_eq
    (direction : ShiftDirection)
    (notLiteral : shifted.isNumber = false)
    (shiftedFixed : pass table catalogue shifted = .ok shifted)
    (countFixed : pass table catalogue count = .ok count) :
    pass table catalogue (.apply direction.op [shifted, count]) =
      .ok (visited table catalogue (.apply direction.op [shifted, count])) := by
  obtain ⟨node, rfl | rfl, passed⟩ :=
    exists_pass_pair rfl shiftedFixed countFixed
      (direction.construct_eq table notLiteral count)
  · exact passed
  · exact passed

variable {workspace : Workspace} {operand : Expr}

/-- A shift of what is simplified already is simplified by one visit, if that ends there. -/
theorem apply_eq
    (direction : ShiftDirection)
    (enough : 2 ≤ workspace.ceiling)
    (notLiteral : shifted.isNumber = false)
    (shiftedFixed :
      pass workspace.table catalogue shifted = .ok shifted)
    (countFixed : pass workspace.table catalogue count = .ok count)
    {result : Expr}
    (becomes :
      visited workspace.table catalogue (.apply direction.op [shifted, count]) =
        result)
    (fixed : pass workspace.table catalogue result = .ok result) :
    workspace.apply direction.op [shifted, count] = .ok result := by
  have passed := direction.pass_eq notLiteral shiftedFixed countFixed
  rw [becomes] at passed
  rw [apply_eq_simplify (direction.construct_eq _ notLiteral count) rfl]
  exact simplify_of_pass enough passed fixed

/-- A leaf that is no literal is left when it is shifted in one direction and back. -/
theorem build_eq
    (direction : ShiftDirection)
    (enough : 2 ≤ workspace.ceiling)
    (notLiteral : operand.isNumber = false)
    (operandLeaf : operand.isLeaf = true)
    (countLeaf : count.isLeaf = true) :
    direction.build workspace operand count = .ok operand := by
  have operandFixed : pass workspace.table catalogue operand = .ok operand :=
    pass_leaf operandLeaf
  have countFixed : pass workspace.table catalogue count = .ok count :=
    pass_leaf countLeaf
  by_cases zero : count = .number 0
  · subst zero
    have dropped
        (direction : ShiftDirection) :
        workspace.apply direction.op [operand, .number 0] = .ok operand :=
      direction.apply_eq enough notLiteral operandFixed countFixed
        (direction.visited_zero operandLeaf) operandFixed
    rw [build, dropped, ok_bind, dropped]
  · have kept :
        visited workspace.table catalogue (.apply direction.op [operand, count]) =
          .apply direction.op [operand, count] := by
      rw [direction.visited_eq _ notLiteral zero]
      cases operand with
      | apply head args => cases operandLeaf
      | _ => rfl
    have shiftFixed := direction.pass_eq notLiteral operandFixed countFixed
    rw [kept] at shiftFixed
    have shifted :=
      direction.apply_eq enough notLiteral operandFixed countFixed kept shiftFixed
    have undone :
        visited workspace.table catalogue (direction.nested operand count) =
          operand := by
      rw [nested, direction.opposite.visited_eq _ rfl zero]
      cases direction <;> simp [Transform.cancelShift?, Expr.operands?, opposite]
    rw [build, shifted, ok_bind]
    exact direction.opposite.apply_eq enough rfl shiftFixed countFixed undone
      operandFixed

end Simplification

/-! ## Evaluation -/

/-- What a shift makes of an integer.  A right shift is by no more than 63 places. -/
def onInts : ShiftDirection → Int → Nat → Int
  | left, whole, places => whole * 2 ^ places
  | right, whole, places => whole >>> min places 63

/-- What a shift makes of a literal: both operands are rounded first. -/
def shift
    (direction : ShiftDirection)
    (value places : Float) : Except EvalFailure Expr := do
  let first ← Cast.integer.convert value
  let second ← Cast.integer.convert places
  direction.evaluator.evaluate first second

theorem evaluateLiterals?_eq
    (direction : ShiftDirection)
    (value places : Float) :
    direction.spec.evaluateLiterals? direction.name [.number value, .number places] =
      some ((direction.shift value places).mapError
        (.evaluation direction.name value places)) := by
  cases direction <;> rfl

/-- A shift of integers that succeeds is by some places and gives an integer that fits. -/
theorem of_evaluate
    (direction : ShiftDirection)
    {whole count : Int}
    {result : Expr}
    (fits : FitsFloat whole.natAbs)
    (small : whole.natAbs < wordLimit)
    (countFits : FitsFloat count.natAbs)
    (countSmall : count.natAbs < wordLimit)
    (evaluated :
      direction.evaluator.evaluate (floatOfInt whole) (floatOfInt count) =
        .ok result) :
    ∃ places : Nat,
      count = places ∧ FitsFloat (direction.onInts whole places).natAbs ∧
        result = .ofInt (direction.onInts whole places) := by
  have word := Evaluator.word_floatOfInt fits small
  cases direction with
  | left =>
      obtain ⟨first, firstWord, evaluated⟩ := exists_of_bind_eq_ok evaluated
      obtain ⟨places, counted, evaluated⟩ := exists_of_bind_eq_ok evaluated
      cases word.symm.trans firstWord
      split at evaluated
      · obtain ⟨digits, same⟩ := Evaluator.of_finite_floatOfInt evaluated
        exact ⟨places, Evaluator.eq_of_shiftCount countFits countSmall counted,
          fits.shiftLeft digits, same⟩
      · cases evaluated
  | right =>
      obtain ⟨first, firstWord, evaluated⟩ := exists_of_bind_eq_ok evaluated
      obtain ⟨places, counted, evaluated⟩ := exists_of_bind_eq_ok evaluated
      cases word.symm.trans firstWord
      obtain ⟨-, same⟩ := Evaluator.of_finite_floatOfInt evaluated
      exact ⟨places, Evaluator.eq_of_shiftCount countFits countSmall counted,
        fits.shiftRight (min places 63), same⟩

/-- A shift of an integer that succeeds shifts the integer itself, by the count rounded to a word. -/
theorem of_shift
    (direction : ShiftDirection)
    {whole : Int}
    {places : Float}
    {result : Expr}
    (fits : FitsFloat whole.natAbs)
    (shifts : direction.shift (floatOfInt whole) places = .ok result) :
    whole.natAbs < wordLimit ∧
      ∃ count : Nat,
        truncatedWord? places = some (count : Int) ∧
          FitsFloat (direction.onInts whole count).natAbs ∧
            result = .ofInt (direction.onInts whole count) := by
  obtain ⟨first, converted, shifts⟩ := exists_of_bind_eq_ok shifts
  obtain ⟨second, countConverted, evaluated⟩ := exists_of_bind_eq_ok shifts
  obtain ⟨word, rounded, rfl⟩ := Cast.exists_of_convert converted
  obtain ⟨count, countRounded, rfl⟩ := Cast.exists_of_convert countConverted
  obtain ⟨small, -⟩ := of_truncatedWord? rounded
  obtain ⟨countSmall, countFits⟩ := of_truncatedWord? countRounded
  obtain rfl := (floatOfInt_isExactly fits).eq_of_truncatedWord? rounded
  obtain ⟨places, rfl, resultFits, same⟩ :=
    direction.of_evaluate fits small countFits countSmall evaluated
  exact ⟨small, places, countRounded, resultFits, same⟩

/-- An integer below the limit that is a multiple of a power of two with too many digits is zero. -/
theorem eq_zero_of_dvd
    {whole : Int}
    {places : Nat}
    (small : whole.natAbs < wordLimit)
    (long : 63 ≤ places)
    (divides : (2 : Int) ^ places ∣ whole) :
    whole = 0 := by
  apply Int.eq_zero_of_dvd_of_natAbs_lt_natAbs divides
  rw [Int.natAbs_pow]
  exact small.trans_le (Nat.pow_le_pow_right (by decide) long)

/--
Words come back from a shift and the shift back exactly if the left shift comes first or all digits that
the right shift drops are zero.
-/
theorem onInts_opposite_iff
    (direction : ShiftDirection)
    {whole : Int}
    {places : Nat}
    (small : whole.natAbs < wordLimit)
    (shiftedSmall : (direction.onInts whole places).natAbs < wordLimit) :
    direction.opposite.onInts (direction.onInts whole places) places = whole ↔
      direction = left ∨ (2 : Int) ^ places ∣ whole := by
  cases direction with
  | left =>
      simp only [opposite, onInts, true_or, iff_true] at shiftedSmall ⊢
      rcases Nat.le_total places 63 with short | long
      · rw [Nat.min_eq_left short, Int.shiftRight_eq_div_pow, Nat.cast_pow,
          Nat.cast_ofNat, Int.mul_ediv_cancel _ (Int.pow_ne_zero (by decide))]
      · have zero := eq_zero_of_dvd shiftedSmall long (Int.dvd_mul_left _ _)
        rw [zero, Int.zero_shiftRight]
        exact ((Int.mul_eq_zero.mp zero).resolve_right
          (Int.pow_ne_zero (by decide))).symm
  | right =>
      simp only [opposite, onInts, reduceCtorEq, false_or]
      constructor
      · exact fun same => ⟨_, (Int.mul_comm _ _ ▸ same).symm⟩
      · intro divides
        rcases Nat.le_total places 63 with short | long
        · rw [Nat.min_eq_left short, Int.shiftRight_eq_div_pow, Nat.cast_pow,
            Nat.cast_ofNat, Int.ediv_mul_cancel divides]
        · rw [eq_zero_of_dvd small long divides, Int.zero_shiftRight, Int.zero_mul]

section Evaluation

variable {values : Substitution} {operand count result : Expr} {places : Float}

theorem evaluate_eq
    (direction : ShiftDirection)
    {value : Float}
    (operandEvaluated : operand.evaluate values = .ok (.number value))
    (countEvaluated : count.evaluate values = .ok (.number places)) :
    (Expr.apply direction.op [operand, count]).evaluate values =
      (direction.shift value places).mapError
        (.evaluation direction.name value places) :=
  Expr.evaluate_apply operandEvaluated countEvaluated direction.standardSpec?_name
    (direction.evaluateLiterals?_eq value places)

/-- The value of a shift of an integer. -/
theorem of_evaluate_apply
    (direction : ShiftDirection)
    {whole : Int}
    (fits : FitsFloat whole.natAbs)
    (operandEvaluated : operand.evaluate values = .ok (.ofInt whole))
    (countEvaluated : count.evaluate values = .ok (.number places))
    (evaluated :
      (Expr.apply direction.op [operand, count]).evaluate values = .ok result) :
    whole.natAbs < wordLimit ∧
      ∃ count : Nat,
        truncatedWord? places = some (count : Int) ∧
          FitsFloat (direction.onInts whole count).natAbs ∧
            result = .ofInt (direction.onInts whole count) := by
  rw [Expr.ofInt_eq_number fits] at operandEvaluated
  rw [direction.evaluate_eq operandEvaluated countEvaluated] at evaluated
  exact direction.of_shift fits (eq_ok_of_mapError evaluated)

/-- The value of a shift and the shift back, which is that of the operand if no digit is lost. -/
theorem of_evaluate_nested
    (direction : ShiftDirection)
    {whole : Int}
    (fits : FitsFloat whole.natAbs)
    (operandEvaluated : operand.evaluate values = .ok (.ofInt whole))
    (countEvaluated : count.evaluate values = .ok (.number places))
    (evaluated : (direction.nested operand count).evaluate values = .ok result) :
    ∃ count : Nat,
      truncatedWord? places = some (count : Int) ∧
        (result = .ofInt whole ↔ direction = left ∨ (2 : Int) ^ count ∣ whole) := by
  obtain ⟨shifted, shiftedEvaluated, -⟩ := exists_of_bind_eq_ok evaluated
  obtain ⟨small, count, rounded, shiftedFits, rfl⟩ :=
    direction.of_evaluate_apply fits operandEvaluated countEvaluated shiftedEvaluated
  obtain ⟨shiftedSmall, count', rounded', resultFits, rfl⟩ :=
    direction.opposite.of_evaluate_apply shiftedFits shiftedEvaluated countEvaluated
      evaluated
  obtain rfl : count = count' := by
    simpa using rounded.symm.trans rounded'
  refine ⟨count, rounded, ?_⟩
  rw [Expr.ofInt_inj resultFits fits]
  exact direction.onInts_opposite_iff small shiftedSmall

end Evaluation

/-! ## Agreement -/

/--
A symbol that is shifted in one direction and back is simplified to the symbol.  For an integer for which
both shifts evaluate, substitution in the simplified form agrees with the evaluators exactly if the left
shift comes first or all digits that the right shift drops are zero.
-/
theorem substitute_build
    (direction : ShiftDirection)
    {workspace : Workspace}
    {values : Substitution}
    {name : String}
    {count result : Expr}
    {value places : Float}
    {whole : Int}
    (enough : 2 ≤ workspace.ceiling)
    (integral : integer? value = some whole)
    (assigned : values.find? (.symbol name) = some (.ofFloat value))
    (countLeaf : count.isLeaf = true)
    (countEvaluated : count.evaluate values = .ok (.number places))
    (evaluated :
      (direction.nested (.symbol name) count).evaluate values = .ok result) :
    ∃ simplified substituted,
      direction.build workspace (.symbol name) count = .ok simplified ∧
        workspace.substitute values simplified = .ok substituted ∧
          ∃ count : Nat,
            truncatedWord? places = some (count : Int) ∧
              (substituted = result ↔
                direction = left ∨ (2 : Int) ^ count ∣ whole) := by
  have built : direction.build workspace (.symbol name) count = .ok (.symbol name) :=
    direction.build_eq enough rfl rfl countLeaf
  have substituted :
      workspace.substitute values (.symbol name) = .ok (.ofInt whole) := by
    simp only [Workspace.substitute, Expr.walk, Substitution.replacement?, assigned,
      ofFloat_eq_ofInt integral]
    rfl
  have operandEvaluated :
      (Expr.symbol name).evaluate values = .ok (.ofInt whole) := by
    rw [Expr.evaluate, assigned, ofFloat_eq_ofInt integral, Option.getD_some]
  obtain ⟨digits, rounded, agrees⟩ :=
    direction.of_evaluate_nested (fitsFloat_of_integer? integral) operandEvaluated
      countEvaluated evaluated
  exact ⟨_, _, built, substituted, digits, rounded, eq_comm.trans agrees⟩

/-- Shifting six to the right by one and back drops a zero. -/
theorem substitute_build_even :
    let workspace : Workspace := { table := ⟨[("x", none)]⟩ }
    let x := Expr.symbol "x"
    let count := Expr.number 1
    let values : Substitution := ⟨[(x, .number 6)]⟩
    (right.nested x count).evaluate values = .ok (.number 6) ∧
      ∃ simplified,
        right.build workspace x count = .ok simplified ∧
          workspace.substitute values simplified = .ok (.number 6) := by
  intro workspace x count values
  have evaluated : (right.nested x count).evaluate values = .ok (.number 6) := by
    decide +kernel
  have integral : integer? 6 = some 6 := by
    decide +kernel
  have one : truncatedWord? 1 = some 1 := by
    decide +kernel
  obtain ⟨simplified, substituted, built, becomes, digits, rounded, agrees⟩ :=
    @substitute_build right workspace values "x" count (.number 6) 6 1 6 (by decide)
      integral rfl rfl rfl evaluated
  obtain rfl : 1 = digits :=
    Int.ofNat.inj (Option.some.inj (one.symm.trans rounded))
  obtain rfl : substituted = .number 6 :=
    agrees.mpr (.inr (by decide))
  exact ⟨evaluated, simplified, built, becomes⟩

/-- Shifting five to the right by one and back gives four. -/
theorem substitute_build_ne :
    ¬∀ (direction : ShiftDirection)
        (workspace : Workspace)
        (values : Substitution)
        (name : String)
        (value places : Float)
        (whole : Int)
        (count : Nat)
        (simplified substituted result : Expr),
      2 ≤ workspace.ceiling → integer? value = some whole →
        integer? places = some (count : Int) →
          values.find? (.symbol name) = some (.ofFloat value) →
            (direction.nested (.symbol name) (.ofFloat places)).evaluate values =
                .ok result →
              direction.build workspace (.symbol name) (.ofFloat places) =
                  .ok simplified →
                workspace.substitute values simplified = .ok substituted →
                  substituted = result := by
  intro agrees
  let workspace : Workspace := { table := ⟨[("x", none)]⟩ }
  let x := Expr.symbol "x"
  let values : Substitution := ⟨[(x, .number 5)]⟩
  have integral : integer? 5 = some 5 := by
    decide +kernel
  have one : integer? 1 = some 1 := by
    decide +kernel
  have assigned : values.find? x = some (.ofFloat 5) := by
    decide +kernel
  have evaluated :
      (right.nested x (.ofFloat 1)).evaluate values = .ok (.number 4) := by
    decide +kernel
  have built : right.build workspace x (.ofFloat 1) = .ok x := by
    decide +kernel
  have substituted : workspace.substitute values x = .ok (.number 5) := by
    decide +kernel
  have same :=
    agrees right workspace values "x" 5 1 5 1 x (.number 5) (.number 4) (by decide)
      integral one assigned evaluated built substituted
  exact absurd same (by decide +kernel)

end ShiftDirection

end SymbolicAlgebra
