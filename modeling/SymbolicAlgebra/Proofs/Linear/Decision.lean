import SymbolicAlgebra.Proofs.Linear.Simplification

/-!
# Deciding equality of linear expressions

Expressions that are built from symbols and integers by sums, differences and integral multiples end up
in normal form, as long as their integers stay exact.  So they are equal exactly if their coefficients
and their constant terms are.
-/

namespace SymbolicAlgebra

/-- A tree of sums, differences and integral multiples over symbols and integers. -/
inductive LinearTree where
  | symbol (name : String)
  | literal (value : Int)
  | sum (lhs rhs : LinearTree)
  | difference (lhs rhs : LinearTree)
  | multipleLeft (factor : Int) (operand : LinearTree)
  | multipleRight (operand : LinearTree) (factor : Int)

namespace LinearTree

/-- Builds the tree bottom-up. -/
def build
    (builder : Builder) : LinearTree → Except ExprError Expr
  | symbol name => .ok (.symbol name)
  | literal value => .ok (.ofInt value)
  | sum lhs rhs => do
    let lhs' ← lhs.build builder
    let rhs' ← rhs.build builder
    builder Operator.add [lhs', rhs']
  | difference lhs rhs => do
    let lhs' ← lhs.build builder
    let rhs' ← rhs.build builder
    builder Operator.sub [lhs', rhs']
  | multipleLeft factor operand => do
    let operand' ← operand.build builder
    builder Operator.mul [.ofInt factor, operand']
  | multipleRight operand factor => do
    let operand' ← operand.build builder
    builder Operator.mul [operand', .ofInt factor]

/-- The coefficient of a symbol. -/
def coefficient
    (name : String) : LinearTree → Int
  | symbol name' => if name' = name then 1 else 0
  | literal _ => 0
  | sum lhs rhs => lhs.coefficient name + rhs.coefficient name
  | difference lhs rhs => lhs.coefficient name - rhs.coefficient name
  | multipleLeft factor operand => factor * operand.coefficient name
  | multipleRight operand factor => operand.coefficient name * factor

/-- The constant term. -/
def constant : LinearTree → Int
  | symbol _ => 0
  | literal value => value
  | sum lhs rhs => lhs.constant + rhs.constant
  | difference lhs rhs => lhs.constant - rhs.constant
  | multipleLeft factor operand => factor * operand.constant
  | multipleRight operand factor => operand.constant * factor

/-- The value with all integers made positive, all symbols one and all differences sums. -/
def weight : LinearTree → Nat
  | symbol _ => 1
  | literal value => value.natAbs
  | sum lhs rhs => lhs.weight + rhs.weight
  | difference lhs rhs => lhs.weight + rhs.weight
  | multipleLeft factor operand => factor.natAbs * operand.weight
  | multipleRight operand factor => operand.weight * factor.natAbs

/-- The coefficients with the constant term. -/
def form
    (tree : LinearTree) : LinearForm
  | none => tree.constant
  | some name => tree.coefficient name

theorem form_symbol
    (name : String) :
    (symbol name).form = Pi.single (some name) 1 := by
  funext key
  cases key with
  | none =>
      rfl
  | some name' =>
      simp [form, coefficient, Pi.single_apply, eq_comm]

theorem form_literal
    (value : Int) :
    (literal value).form = Pi.single none value := by
  funext key
  cases key with
  | none =>
      simp [form, constant]
  | some name =>
      simp [form, coefficient]

theorem form_sum
    (lhs rhs : LinearTree) :
    (sum lhs rhs).form = lhs.form + rhs.form := by
  funext key
  cases key <;> rfl

theorem form_difference
    (lhs rhs : LinearTree) :
    (difference lhs rhs).form = lhs.form - rhs.form := by
  funext key
  cases key <;> rfl

theorem form_multipleLeft
    (factor : Int)
    (operand : LinearTree) :
    (multipleLeft factor operand).form = factor • operand.form := by
  funext key
  cases key <;> rfl

theorem form_multipleRight
    (operand : LinearTree)
    (factor : Int) :
    (multipleRight operand factor).form = factor • operand.form := by
  funext key
  cases key <;> exact Int.mul_comm _ _

theorem form_eq_iff
    {tree tree' : LinearTree} :
    tree.form = tree'.form ↔
      (∀ name, tree.coefficient name = tree'.coefficient name) ∧
        tree.constant = tree'.constant := by
  constructor
  · intro same
    exact ⟨fun name => congrFun same (some name), congrFun same none⟩
  · rintro ⟨sameCoefficients, sameConstant⟩
    funext key
    cases key with
    | none =>
        exact sameConstant
    | some name =>
        exact sameCoefficients name

/-- A tree without weight is zero. -/
theorem form_eq_zero
    {tree : LinearTree}
    (weightless : tree.weight = 0) :
    tree.form = 0 := by
  induction tree with
  | symbol name =>
      cases weightless
  | literal value =>
      rw [form_literal, Int.natAbs_eq_zero.mp weightless, Pi.single_zero]
  | sum lhs rhs lhsHypothesis rhsHypothesis =>
      obtain ⟨lhsWeightless, rhsWeightless⟩ := Nat.add_eq_zero_iff.mp weightless
      rw [form_sum, lhsHypothesis lhsWeightless, rhsHypothesis rhsWeightless,
        add_zero]
  | difference lhs rhs lhsHypothesis rhsHypothesis =>
      obtain ⟨lhsWeightless, rhsWeightless⟩ := Nat.add_eq_zero_iff.mp weightless
      rw [form_difference, lhsHypothesis lhsWeightless,
        rhsHypothesis rhsWeightless, sub_zero]
  | multipleLeft factor operand hypothesis =>
      rw [form_multipleLeft]
      rcases Nat.mul_eq_zero.mp weightless with zero | weightless
      · rw [Int.natAbs_eq_zero.mp zero, zero_smul]
      · rw [hypothesis weightless, smul_zero]
  | multipleRight operand factor hypothesis =>
      rw [form_multipleRight]
      rcases Nat.mul_eq_zero.mp weightless with weightless | zero
      · rw [hypothesis weightless, smul_zero]
      · rw [Int.natAbs_eq_zero.mp zero, zero_smul]

end LinearTree

/-! ## Products with zero -/

open SymbolicAlgebra.Expr

theorem ofInt_eq_whole
    {value : Int}
    (small : value.natAbs < 2 ^ 53) :
    ofInt value = whole value :=
  ofInt_eq_number (fitsFloat_of_le (Nat.le_of_lt small))

/-- A product with a literal zero is zero if it can be built at all. -/
theorem eq_whole_zero_of_construct
    {table : SymbolTable}
    {operand raw : Expr}
    {args : List Expr}
    (arguments : args = [whole 0, operand] ∨ args = [operand, whole 0])
    (constructed : table.construct Operator.mul args = .ok raw) :
    raw = whole 0 := by
  cases literal : operand.isNumber with
  | false =>
      rw [construct_zero_eq literal arguments] at constructed
      cases constructed
      rfl
  | true =>
      cases operand with
      | number value =>
          rcases arguments with rfl | rfl
          · exact evaluate_zero_mul (eq_ok_of_mapError constructed)
          · exact evaluate_mul_zero (eq_ok_of_mapError constructed)
      | _ =>
          cases literal

/-! ## Building trees -/

/-- The expression is in normal form and has the form of a tree and no more weight. -/
structure Represents
    (expr : Expr)
    (tree : LinearTree) : Prop where
  linear :
    expr.IsLinear
  form_eq :
    expr.reading.form = tree.form
  weight_le :
    expr.reading.weight ≤ tree.weight
  normal :
    IsNormal expr

namespace LinearTree

variable {workspace : Workspace} {tree operand : LinearTree} {result : Expr}

theorem represents_zero
    (zero : tree.form = 0) :
    Represents (whole 0) tree := by
  have reads : (whole 0).reading = .literal 0 :=
    reading_whole (by decide)
  refine ⟨.literal (by decide), ?_, ?_, .zero⟩
  · rw [reads, zero]
    simp
  · rw [reads]
    exact Nat.zero_le _

/-- What is built within a bound represents a tree with the form and the weight of the bound. -/
theorem represents_of_apply
    {head raw : Expr}
    {args : List Expr}
    {bound : Reading}
    (constructed : workspace.table.construct head args = .ok raw)
    (within : raw.Within bound)
    (sameForm : bound.form = tree.form)
    (lighter : bound.weight ≤ tree.weight)
    (small : tree.weight < 2 ^ 53)
    (built : workspace.apply head args = .ok result) :
    Represents result tree := by
  obtain ⟨⟨linear, le⟩, normal⟩ :=
    isNormal_of_apply constructed within (lighter.trans_lt small) built
  exact ⟨linear, le.1.trans sameForm, le.2.1.trans lighter, normal⟩

theorem represents_sum
    {lhs rhs : LinearTree}
    {lhs' rhs' : Expr}
    (lhsRepresents : Represents lhs' lhs)
    (rhsRepresents : Represents rhs' rhs)
    (small : (sum lhs rhs).weight < 2 ^ 53)
    (built : workspace.apply Operator.add [lhs', rhs'] = .ok result) :
    Represents result (sum lhs rhs) := by
  have lighter : (lhs'.reading + rhs'.reading).weight ≤ (sum lhs rhs).weight :=
    Nat.add_le_add lhsRepresents.weight_le rhsRepresents.weight_le
  obtain ⟨raw, constructed, within⟩ :
      ∃ raw,
        workspace.table.construct Operator.add [lhs', rhs'] = .ok raw ∧
          raw.Within (lhs'.reading + rhs'.reading) :=
    exists_construct_sum lhsRepresents.linear.within
      rhsRepresents.linear.within (lighter.trans_lt small)
  refine represents_of_apply constructed within ?_ lighter small built
  rw [Reading.add_form, lhsRepresents.form_eq, rhsRepresents.form_eq, form_sum]

theorem represents_difference
    {lhs rhs : LinearTree}
    {lhs' rhs' : Expr}
    (lhsRepresents : Represents lhs' lhs)
    (rhsRepresents : Represents rhs' rhs)
    (small : (difference lhs rhs).weight < 2 ^ 53)
    (built : workspace.apply Operator.sub [lhs', rhs'] = .ok result) :
    Represents result (difference lhs rhs) := by
  have lighter :
      (lhs'.reading.difference rhs'.reading).weight ≤
        (difference lhs rhs).weight :=
    Nat.add_le_add lhsRepresents.weight_le rhsRepresents.weight_le
  obtain ⟨raw, constructed, within⟩ :
      ∃ raw,
        workspace.table.construct Operator.sub [lhs', rhs'] = .ok raw ∧
          raw.Within (lhs'.reading.difference rhs'.reading) :=
    exists_construct_difference lhsRepresents.linear.within
      rhsRepresents.linear.within (lighter.trans_lt small)
  refine represents_of_apply constructed within ?_ lighter small built
  rw [Reading.difference_form, lhsRepresents.form_eq, rhsRepresents.form_eq,
    form_difference]

/-- A product with an integer represents the multiple of what its operand represents. -/
theorem represents_multiple
    {factor : Int}
    {expr : Expr}
    {args : List Expr}
    (sameForm : tree.form = factor • operand.form)
    (sameWeight : tree.weight = factor.natAbs * operand.weight)
    (small : tree.weight < 2 ^ 53)
    (represents : operand.weight < 2 ^ 53 → Represents expr operand)
    (arguments : args = [.ofInt factor, expr] ∨ args = [expr, .ofInt factor])
    (built : workspace.apply Operator.mul args = .ok result) :
    Represents result tree := by
  have zeroResult
      {other : Expr}
      (zero : tree.form = 0)
      (arguments : args = [whole 0, other] ∨ args = [other, whole 0]) :
      Represents result tree := by
    obtain ⟨raw, constructed, settled⟩ := exists_of_bind_eq_ok built
    obtain rfl := eq_whole_zero_of_construct arguments constructed
    cases settled
    exact represents_zero zero
  by_cases zero : factor = 0
  · subst zero
    rw [zero_smul] at sameForm
    rw [ofInt_eq_whole (by decide)] at arguments
    exact zeroResult sameForm arguments
  · by_cases weightless : operand.weight = 0
    · obtain ⟨linear, -, lighter, -⟩ := represents (by omega)
      have literal : expr.isNumber = true := by
        rw [← Bool.not_eq_false]
        intro notLiteral
        have := (linear.cost_pos.2 notLiteral).2
        omega
      obtain ⟨value, valueSmall, rfl⟩ := linear.exists_whole literal
      rw [reading_whole valueSmall, weightless] at lighter
      obtain rfl : value = 0 := Int.natAbs_eq_zero.mp (Nat.le_zero.mp lighter)
      rw [form_eq_zero weightless, smul_zero] at sameForm
      exact zeroResult sameForm arguments.symm
    · rw [sameWeight] at small
      have factorSmall : factor.natAbs < 2 ^ 53 :=
        (Nat.le_mul_of_pos_right _ (Nat.pos_of_ne_zero weightless)).trans_lt small
      have operandSmall : operand.weight < 2 ^ 53 :=
        (Nat.le_mul_of_pos_left _ (Int.natAbs_pos.mpr zero)).trans_lt small
      obtain ⟨linear, operandForm, lighter, -⟩ := represents operandSmall
      rw [← sameWeight] at small
      have lighter :
          (expr.reading.multiple factor).weight ≤ tree.weight := by
        rw [sameWeight, Reading.multiple_weight]
        exact Nat.mul_le_mul_left _ lighter
      rw [ofInt_eq_whole factorSmall] at arguments
      obtain ⟨raw, constructed, within⟩ :
          ∃ raw,
            workspace.table.construct Operator.mul args = .ok raw ∧
              raw.Within (expr.reading.multiple factor) :=
        exists_construct_multiple factorSmall linear.within
          (lighter.trans_lt small) arguments
      refine represents_of_apply constructed within ?_ lighter small built
      rw [Reading.multiple_form, operandForm, sameForm]

/-- A tree that is light and can be built is represented by what it is built into. -/
theorem represents_of_build
    (small : tree.weight < 2 ^ 53)
    (built : tree.build workspace.apply = .ok result) :
    Represents result tree := by
  induction tree generalizing result with
  | symbol name =>
      cases built
      exact ⟨.symbol name, (form_symbol name).symm, le_rfl, isNormal_symbol name⟩
  | literal value =>
      cases built
      rw [ofInt_eq_whole small]
      have reads := reading_whole small
      refine ⟨.literal small, ?_, ?_, isNormal_whole small⟩
      · rw [form_literal, reads]
        rfl
      · rw [reads]
        exact le_rfl
  | sum lhs rhs lhsHypothesis rhsHypothesis =>
      have light := small
      rw [weight] at light
      obtain ⟨lhs', lhsBuilt, built⟩ := exists_of_bind_eq_ok built
      obtain ⟨rhs', rhsBuilt, built⟩ := exists_of_bind_eq_ok built
      exact represents_sum (lhsHypothesis (by omega) lhsBuilt)
        (rhsHypothesis (by omega) rhsBuilt) small built
  | difference lhs rhs lhsHypothesis rhsHypothesis =>
      have light := small
      rw [weight] at light
      obtain ⟨lhs', lhsBuilt, built⟩ := exists_of_bind_eq_ok built
      obtain ⟨rhs', rhsBuilt, built⟩ := exists_of_bind_eq_ok built
      exact represents_difference (lhsHypothesis (by omega) lhsBuilt)
        (rhsHypothesis (by omega) rhsBuilt) small built
  | multipleLeft factor operand hypothesis =>
      obtain ⟨expr, operandBuilt, built⟩ := exists_of_bind_eq_ok built
      exact represents_multiple (form_multipleLeft factor operand) rfl small
        (fun light => hypothesis light operandBuilt) (.inl rfl) built
  | multipleRight operand factor hypothesis =>
      obtain ⟨expr, operandBuilt, built⟩ := exists_of_bind_eq_ok built
      exact represents_multiple (form_multipleRight operand factor)
        (Nat.mul_comm _ _) small (fun light => hypothesis light operandBuilt)
        (.inr rfl) built

/--
If two trees are light and can be built, the results are equal exactly if both trees have the same
coefficient for every symbol and the same constant term.
-/
theorem build_eq_iff
    {workspace workspace' : Workspace}
    {tree tree' : LinearTree}
    {result result' : Expr}
    (small : tree.weight < 2 ^ 53)
    (small' : tree'.weight < 2 ^ 53)
    (built : tree.build workspace.apply = .ok result)
    (built' : tree'.build workspace'.apply = .ok result') :
    result = result' ↔
      (∀ name, tree.coefficient name = tree'.coefficient name) ∧
        tree.constant = tree'.constant := by
  have represents := represents_of_build small built
  have represents' := represents_of_build small' built'
  rw [← form_eq_iff, ← represents.form_eq, ← represents'.form_eq]
  constructor
  · rintro rfl
    rfl
  · exact represents.normal.eq_of_form_eq represents'.normal represents.linear
      represents'.linear

/-- Two ways of writing `2x + y + 5`, one of them with subtraction and distribution. -/
theorem build_rewritten :
    let x := symbol "x"
    let y := symbol "y"
    let tree :=
      sum (multipleLeft 2 (difference x y))
        (sum (multipleRight y 3) (literal 5))
    let tree' := sum (sum (literal 5) x) (sum y x)
    ∃ result,
      tree.build ({} : Workspace).apply = .ok result ∧
        tree'.build ({} : Workspace).apply = .ok result ∧
        (∀ name, tree.coefficient name = tree'.coefficient name) ∧
        tree.constant = tree'.constant := by
  intro x y tree tree'
  let result :=
    Expr.apply Operator.add
      [.number 5, .apply Operator.add
        [.symbol "y", .apply Operator.mul [.number 2, .symbol "x"]]]
  have built : tree.build ({} : Workspace).apply = .ok result := by
    decide +kernel
  have built' : tree'.build ({} : Workspace).apply = .ok result := by
    decide +kernel
  exact ⟨result, built, built',
    (build_eq_iff (by decide) (by decide) built built').mp rfl⟩

/-- Sums of linear expressions do not depend on how they are grouped. -/
theorem build_regrouped
    {workspace : Workspace}
    {first second third : LinearTree}
    {result result' : Expr}
    (small : first.weight + second.weight + third.weight < 2 ^ 53)
    (built :
      (sum (sum first second) third).build workspace.apply = .ok result)
    (built' :
      (sum first (sum second third)).build workspace.apply = .ok result') :
    result = result' := by
  have represents : Represents result (sum (sum first second) third) :=
    represents_of_build small built
  have represents' : Represents result' (sum first (sum second third)) :=
    represents_of_build (by rwa [weight, weight, ← Nat.add_assoc]) built'
  apply represents.normal.eq_of_form_eq represents'.normal represents.linear
    represents'.linear
  rw [represents.form_eq, represents'.form_eq]
  simp only [form_sum, add_assoc]

/-- Both groupings of `(x - 2y) + 3x + y` can be built. -/
theorem build_regrouped_cancelling :
    let x := symbol "x"
    let y := symbol "y"
    let first := difference x (multipleLeft 2 y)
    let second := multipleRight x 3
    ∃ result,
      (sum (sum first second) y).build ({} : Workspace).apply = .ok result ∧
        (sum first (sum second y)).build ({} : Workspace).apply =
          .ok result := by
  intro x y first second
  let result :=
    Expr.apply Operator.add
      [.apply Operator.mul [.number (-1), .symbol "y"],
        .apply Operator.mul [.number 4, .symbol "x"]]
  have built :
      (sum (sum first second) y).build ({} : Workspace).apply =
        .ok result := by
    decide +kernel
  obtain ⟨result', built'⟩ :
      ∃ result',
        (sum first (sum second y)).build ({} : Workspace).apply =
          .ok result' :=
    ⟨result, by decide +kernel⟩
  have same : result = result' :=
    build_regrouped (by decide) built built'
  exact ⟨result, built, same ▸ built'⟩

/--
Grouping matters for `x + y + xy`: once `x + y` has been built, the product shares its factor `x` first,
and its factor `y` otherwise.
-/
theorem sum_not_associative :
    let x := Expr.symbol "x"
    let y := Expr.symbol "y"
    let apply := ({} : Workspace).apply
    ∃ product left right result result',
      apply Operator.mul [x, y] = .ok product ∧
        apply Operator.add [x, y] = .ok left ∧
        apply Operator.add [left, product] = .ok result ∧
        apply Operator.add [y, product] = .ok right ∧
        apply Operator.add [x, right] = .ok result' ∧
        result ≠ result' := by
  intro x y apply
  refine ⟨.apply Operator.mul [x, y], .apply Operator.add [x, y],
    .apply Operator.mul [y, .apply Operator.add [.number 1, x]],
    .apply Operator.add
      [y, .apply Operator.mul [x, .apply Operator.add [.number 1, y]]],
    .apply Operator.add
      [x, .apply Operator.mul [y, .apply Operator.add [.number 1, x]]],
    ?_, ?_, ?_, ?_, ?_, ?_⟩
  all_goals decide +kernel

end LinearTree

end SymbolicAlgebra
