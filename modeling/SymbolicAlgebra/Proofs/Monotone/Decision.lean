import SymbolicAlgebra.Proofs.Monotone.Simplification

/-!
# Deciding monotone expressions

Whatever conjunctions and disjunctions of symbols are built from the bottom up, the outcome is the
polynomial of their monomials.  So two of them are equal if and only if they multiply out to the same
monomials, and whether a conjunction can be built at all depends on how many monomials there are.
-/

namespace SymbolicAlgebra

open SymbolicAlgebra.Expr
open scoped FinsetFamily

/-- A tree of conjunctions and disjunctions over variables. -/
inductive MonotoneTree where
  | input (name : String)
  | conjunction (lhs rhs : MonotoneTree)
  | disjunction (lhs rhs : MonotoneTree)

namespace MonotoneTree

/-- Builds the tree bottom-up. -/
def build
    (builder : Builder) : MonotoneTree → Except ExprError Expr
  | input name => .ok (.symbol name)
  | conjunction lhs rhs => do
    let lhs' ← lhs.build builder
    let rhs' ← rhs.build builder
    builder Operator.bitAnd [lhs', rhs']
  | disjunction lhs rhs => do
    let lhs' ← lhs.build builder
    let rhs' ← rhs.build builder
    builder Operator.bitOr [lhs', rhs']

/-- The sets of variables that the tree multiplies out to. -/
def monomials : MonotoneTree → Finset (Finset String)
  | input name => {{name}}
  | conjunction lhs rhs => lhs.monomials ⊻ rhs.monomials
  | disjunction lhs rhs => lhs.monomials ∪ rhs.monomials

end MonotoneTree

section Apply

variable {workspace : Workspace} {lhs rhs result : Expr}

/-- A polynomial is a disjunction of products. -/
theorem Expr.IsPolynomial.combinesProducts
    (isPolynomial : lhs.IsPolynomial) :
    Combines Operator.bitOr IsProduct lhs :=
  isPolynomial.combines.of_flatten IsMonomial.isApplyOf_eq_false
    fun _ member => (isPolynomial.isMonomial_of_mem member).isProduct.1

/-- Applying conjunction to polynomials multiplies them. -/
theorem isPolynomial_of_apply_conjunction
    (lhsPolynomial : lhs.IsPolynomial)
    (rhsPolynomial : rhs.IsPolynomial)
    (applied : workspace.apply Operator.bitAnd [lhs, rhs] = .ok result) :
    result.IsPolynomial ∧ result.monomials = lhs.monomials ⊻ rhs.monomials := by
  have product := isProductOf_sorted lhsPolynomial rhsPolynomial
  rw [apply_eq_simplify
    (construct_conjunction workspace.table lhsPolynomial rhsPolynomial) rfl]
    at applied
  obtain ⟨passes, settles⟩ := exists_settle?_of_simplify applied
  obtain ⟨isPolynomial, monomials⟩ :=
    isPolynomial_of_settle? (.operand product.isProduct) settles
  exact ⟨isPolynomial, monomials.trans product.monomials_eq⟩

/-- Applying disjunction to polynomials adds them. -/
theorem isPolynomial_of_apply_disjunction
    (lhsPolynomial : lhs.IsPolynomial)
    (rhsPolynomial : rhs.IsPolynomial)
    (applied : workspace.apply Operator.bitOr [lhs, rhs] = .ok result) :
    result.IsPolynomial ∧ result.monomials = lhs.monomials ∪ rhs.monomials := by
  have stores :=
    (regroups_products workspace.table).stores lhsPolynomial.combinesProducts
      rhsPolynomial.combinesProducts
  rw [apply_eq_simplify stores rfl] at applied
  obtain ⟨passes, settles⟩ := exists_settle?_of_simplify applied
  rcases sortBy_pair_cases (operandCompare Operator.bitOr) lhs rhs with
    same | swapped
  · rw [same] at settles
    obtain ⟨isPolynomial, monomials⟩ :=
      isPolynomial_of_settle?
        (.node lhsPolynomial.combinesProducts rhsPolynomial.combinesProducts)
        settles
    exact ⟨isPolynomial, monomials.trans (monomials_disjunction lhs rhs)⟩
  · rw [swapped] at settles
    obtain ⟨isPolynomial, monomials⟩ :=
      isPolynomial_of_settle?
        (.node rhsPolynomial.combinesProducts lhsPolynomial.combinesProducts)
        settles
    refine ⟨isPolynomial, monomials.trans ?_⟩
    rw [monomials_disjunction, Finset.union_comm]

/-- A conjunction of polynomials is distributed twice less than the two have monomials. -/
theorem distributions_sorted
    (lhsPolynomial : lhs.IsPolynomial)
    (rhsPolynomial : rhs.IsPolynomial) :
    (Expr.apply Operator.bitAnd
        (sortBy (operandCompare Operator.bitAnd) [lhs, rhs])).distributions + 2 =
      lhs.monomials.card + rhs.monomials.card := by
  have lhsPos := lhsPolynomial.alternatives_pos
  have rhsPos := rhsPolynomial.alternatives_pos
  rw [(isProductOf_sorted lhsPolynomial rhsPolynomial).distributions_eq,
    lhsPolynomial.card_monomials, rhsPolynomial.card_monomials]
  simp only [alternatives] at lhsPos rhsPos ⊢
  omega

/-- A conjunction of polynomials is built if the ceiling allows for the monomials of both. -/
theorem exists_apply_conjunction
    (lhsPolynomial : lhs.IsPolynomial)
    (rhsPolynomial : rhs.IsPolynomial)
    (enough : lhs.monomials.card + rhs.monomials.card ≤ workspace.ceiling) :
    ∃ result, workspace.apply Operator.bitAnd [lhs, rhs] = .ok result := by
  have product := isProductOf_sorted lhsPolynomial rhsPolynomial
  have within :=
    (distributesWithin_of_not_isApplyOf product.isProduct.isApplyOf_eq_false).mpr
      le_rfl
  rw [← distributions_sorted lhsPolynomial rhsPolynomial] at enough
  obtain ⟨settled, settles⟩ :=
    exists_settle? (.operand product.isProduct) within enough
  rw [apply_eq_simplify
    (construct_conjunction workspace.table lhsPolynomial rhsPolynomial) rfl]
  exact ⟨settled.1, simplify_of_settle? settles⟩

/-- A conjunction of polynomials is given up if together they have too many monomials. -/
theorem apply_conjunction_eq_error
    (lhsPolynomial : lhs.IsPolynomial)
    (rhsPolynomial : rhs.IsPolynomial)
    (tooMany :
      workspace.ceiling + 2 ≤ lhs.monomials.card + rhs.monomials.card) :
    workspace.apply Operator.bitAnd [lhs, rhs] =
      .error (.nonTerminating workspace.ceiling) := by
  have product := isProductOf_sorted lhsPolynomial rhsPolynomial
  rw [← distributions_sorted lhsPolynomial rhsPolynomial] at tooMany
  rw [apply_eq_simplify
    (construct_conjunction workspace.table lhsPolynomial rhsPolynomial) rfl]
  apply simplify_of_settle?_eq_none
  apply settle?_eq_none (.operand product.isProduct)
  intro count within
  rw [distributesWithin_of_not_isApplyOf product.isProduct.isApplyOf_eq_false]
    at within
  omega

/-- A disjunction of polynomials is always built. -/
theorem exists_apply_disjunction
    (enough : 2 ≤ workspace.ceiling)
    (lhsPolynomial : lhs.IsPolynomial)
    (rhsPolynomial : rhs.IsPolynomial) :
    ∃ result, workspace.apply Operator.bitOr [lhs, rhs] = .ok result := by
  obtain ⟨result, applied, -⟩ :=
    (regroups_monomials workspace.table).exists_apply enough
      (fun _ isMonomial => isMonomial.pass_eq workspace.table) lhsPolynomial
      rhsPolynomial
  exact ⟨result, applied⟩

end Apply

namespace MonotoneTree

variable {workspace : Workspace} {first second third : MonotoneTree}
  {lhs rhs : Expr}

/-- Building a tree multiplies it out. -/
theorem isPolynomial_of_build
    {tree : MonotoneTree}
    {expr : Expr}
    (built : tree.build workspace.apply = .ok expr) :
    expr.IsPolynomial ∧ expr.monomials = tree.monomials := by
  induction tree generalizing expr with
  | input name =>
      cases built
      exact ⟨(isMonomial_symbol name).isPolynomial, rfl⟩
  | conjunction first second firstHypothesis secondHypothesis =>
      obtain ⟨lhs, firstBuilt, built⟩ := exists_of_bind_eq_ok built
      obtain ⟨rhs, secondBuilt, applied⟩ := exists_of_bind_eq_ok built
      obtain ⟨lhsPolynomial, lhsMonomials⟩ := firstHypothesis firstBuilt
      obtain ⟨rhsPolynomial, rhsMonomials⟩ := secondHypothesis secondBuilt
      obtain ⟨isPolynomial, monomials⟩ :=
        isPolynomial_of_apply_conjunction lhsPolynomial rhsPolynomial applied
      rw [lhsMonomials, rhsMonomials] at monomials
      exact ⟨isPolynomial, monomials⟩
  | disjunction first second firstHypothesis secondHypothesis =>
      obtain ⟨lhs, firstBuilt, built⟩ := exists_of_bind_eq_ok built
      obtain ⟨rhs, secondBuilt, applied⟩ := exists_of_bind_eq_ok built
      obtain ⟨lhsPolynomial, lhsMonomials⟩ := firstHypothesis firstBuilt
      obtain ⟨rhsPolynomial, rhsMonomials⟩ := secondHypothesis secondBuilt
      obtain ⟨isPolynomial, monomials⟩ :=
        isPolynomial_of_apply_disjunction lhsPolynomial rhsPolynomial applied
      rw [lhsMonomials, rhsMonomials] at monomials
      exact ⟨isPolynomial, monomials⟩

/-- Trees are built to the same expression if and only if they multiply out to the same monomials. -/
theorem eq_iff_monomials_eq
    (firstBuilt : first.build workspace.apply = .ok lhs)
    (secondBuilt : second.build workspace.apply = .ok rhs) :
    lhs = rhs ↔ first.monomials = second.monomials := by
  obtain ⟨lhsPolynomial, lhsMonomials⟩ := isPolynomial_of_build firstBuilt
  obtain ⟨rhsPolynomial, rhsMonomials⟩ := isPolynomial_of_build secondBuilt
  rw [← lhsMonomials, ← rhsMonomials]
  exact ⟨congrArg Expr.monomials, lhsPolynomial.eq_of_monomials_eq rhsPolynomial⟩

/--
Conjunction distributes over disjunction, whatever the operands were built from: both ways lead to the
polynomial of all monomials.
-/
theorem build_distributed
    (factored :
      (conjunction first (disjunction second third)).build workspace.apply =
        .ok lhs)
    (distributed :
      (disjunction (conjunction first second) (conjunction first third)).build
          workspace.apply =
        .ok rhs) :
    lhs = rhs ∧ lhs.IsPolynomial ∧
      lhs.monomials = first.monomials ⊻ (second.monomials ∪ third.monomials) := by
  obtain ⟨isPolynomial, monomials⟩ := isPolynomial_of_build factored
  refine ⟨?_, isPolynomial, monomials⟩
  rw [eq_iff_monomials_eq factored distributed]
  exact Finset.sups_union_right

/-- Operands that have parts in common are distributed and merged to the same expression. -/
theorem build_distributed_overlapping :
    let x := Expr.symbol "x"
    let y := Expr.symbol "y"
    let z := Expr.symbol "z"
    let first := disjunction (input "x") (input "y")
    let second := conjunction (input "y") (disjunction (input "x") (input "z"))
    let third := disjunction (input "z") (conjunction (input "x") (input "y"))
    let factored := conjunction first (disjunction second third)
    let distributed :=
      disjunction (conjunction first second) (conjunction first third)
    let expr :=
      Expr.apply Operator.bitOr
        [.apply Operator.bitAnd [x, .apply Operator.bitAnd [y, z]],
          .apply Operator.bitOr
            [.apply Operator.bitAnd [x, y],
              .apply Operator.bitOr
                [.apply Operator.bitAnd [x, z],
                  .apply Operator.bitAnd [y, z]]]]
    factored.build ({} : Workspace).apply = .ok expr ∧
      distributed.build ({} : Workspace).apply = .ok expr ∧
        expr.monomials =
          {{"x", "y"}, {"x", "z"}, {"y", "z"}, {"x", "y", "z"}} := by
  intro x y z first second third factored distributed expr
  have factoredBuilt :
      factored.build ({} : Workspace).apply = .ok expr := by
    decide +kernel
  obtain ⟨other, distributedBuilt⟩ :
      ∃ other, distributed.build ({} : Workspace).apply = .ok other :=
    ⟨expr, by decide +kernel⟩
  obtain ⟨same, -, monomials⟩ :=
    build_distributed factoredBuilt distributedBuilt
  rw [← same] at distributedBuilt
  refine ⟨factoredBuilt, distributedBuilt, monomials.trans ?_⟩
  decide

/-! ## The ceiling -/

/--
The number of monomials decides whether a conjunction of two trees is built within the ceiling.  Their
disjunction is built in any case.
-/
theorem apply_of_card_monomials
    (several : 2 ≤ workspace.ceiling)
    (firstBuilt : first.build workspace.apply = .ok lhs)
    (secondBuilt : second.build workspace.apply = .ok rhs) :
    (∃ result, workspace.apply Operator.bitOr [lhs, rhs] = .ok result) ∧
      (first.monomials.card + second.monomials.card ≤ workspace.ceiling →
        ∃ result, workspace.apply Operator.bitAnd [lhs, rhs] = .ok result) ∧
      (workspace.ceiling + 2 ≤ first.monomials.card + second.monomials.card →
        workspace.apply Operator.bitAnd [lhs, rhs] =
          .error (.nonTerminating workspace.ceiling)) := by
  obtain ⟨lhsPolynomial, lhsMonomials⟩ := isPolynomial_of_build firstBuilt
  obtain ⟨rhsPolynomial, rhsMonomials⟩ := isPolynomial_of_build secondBuilt
  rw [← lhsMonomials, ← rhsMonomials]
  refine ⟨?_, ?_, ?_⟩
  · exact exists_apply_disjunction several lhsPolynomial rhsPolynomial
  · exact exists_apply_conjunction lhsPolynomial rhsPolynomial
  · exact apply_conjunction_eq_error lhsPolynomial rhsPolynomial

/-- A ceiling of four passes is enough to multiply a sum of three variables, and one of two is not. -/
theorem apply_of_card_monomials_three :
    let y := Expr.symbol "y"
    let sum :=
      Expr.apply Operator.bitOr
        [.symbol "a", .apply Operator.bitOr [.symbol "b", .symbol "c"]]
    (∃ result,
        ({ ceiling := 4 } : Workspace).apply Operator.bitAnd [y, sum] =
          .ok result) ∧
      ({ ceiling := 2 } : Workspace).apply Operator.bitAnd [y, sum] =
        .error (.nonTerminating 2) := by
  intro y sum
  let first := input "y"
  let second :=
    disjunction (input "a") (disjunction (input "b") (input "c"))
  have settles :
      ∃ result,
        ({ ceiling := 4 } : Workspace).apply Operator.bitAnd [y, sum] =
          .ok result := by
    have firstBuilt :
        first.build ({ ceiling := 4 } : Workspace).apply = .ok y := rfl
    have secondBuilt :
        second.build ({ ceiling := 4 } : Workspace).apply = .ok sum := by
      decide +kernel
    exact (apply_of_card_monomials (by decide) firstBuilt secondBuilt).2.1
      (by decide)
  have givesUp :
      ({ ceiling := 2 } : Workspace).apply Operator.bitAnd [y, sum] =
        .error (.nonTerminating 2) := by
    have firstBuilt :
        first.build ({ ceiling := 2 } : Workspace).apply = .ok y := rfl
    have secondBuilt :
        second.build ({ ceiling := 2 } : Workspace).apply = .ok sum := by
      decide +kernel
    exact (apply_of_card_monomials (by decide) firstBuilt secondBuilt).2.2
      (by decide)
  exact ⟨settles, givesUp⟩

/-- The name of the variable with a number. -/
def numbered
    (index : Nat) : String :=
  "v" ++ index.repr

/-- The disjunction of the variables up to a number. -/
def alternation : Nat → MonotoneTree
  | 0 => input (numbered 0)
  | count + 1 => disjunction (input (numbered (count + 1))) (alternation count)

theorem numbered_injective :
    Function.Injective numbered := by
  intro index index' same
  have sameNumerals := (String.append_right_inj "v").mp same
  rw [Nat.repr_eq_ofList_toDigits, Nat.repr_eq_ofList_toDigits] at sameNumerals
  have sameDigits := String.ofList_injective sameNumerals
  rw [← @Nat.ofDigitChars_ten_toDigits index, sameDigits,
    Nat.ofDigitChars_ten_toDigits]

theorem mem_monomials_alternation
    {count : Nat}
    {names : Finset String} :
    names ∈ (alternation count).monomials ↔
      ∃ index ≤ count, names = {numbered index} := by
  induction count with
  | zero =>
      simp [alternation, monomials]
  | succ count inductionHypothesis =>
      rw [alternation, monomials, monomials, Finset.mem_union,
        Finset.mem_singleton, inductionHypothesis]
      constructor
      · rintro (rfl | ⟨index, within, rfl⟩)
        · exact ⟨count + 1, le_rfl, rfl⟩
        · exact ⟨index, Nat.le_succ_of_le within, rfl⟩
      · rintro ⟨index, within, rfl⟩
        rcases Nat.le_succ_iff.mp within with before | rfl
        · exact .inr ⟨index, before, rfl⟩
        · exact .inl rfl

theorem card_monomials_alternation
    (count : Nat) :
    (alternation count).monomials.card = count + 1 := by
  induction count with
  | zero =>
      rfl
  | succ count inductionHypothesis =>
      have new :
          {numbered (count + 1)} ∉ (alternation count).monomials := by
        rw [mem_monomials_alternation]
        rintro ⟨index, within, same⟩
        have sameIndex := numbered_injective (Finset.singleton_injective same)
        omega
      rw [alternation, monomials, monomials, Finset.singleton_union,
        Finset.card_insert_of_notMem new, inductionHypothesis]

theorem exists_build_alternation
    (several : 2 ≤ workspace.ceiling)
    (count : Nat) :
    ∃ expr, (alternation count).build workspace.apply = .ok expr := by
  induction count with
  | zero =>
      exact ⟨_, rfl⟩
  | succ count inductionHypothesis =>
      obtain ⟨expr, built⟩ := inductionHypothesis
      obtain ⟨isPolynomial, -⟩ := isPolynomial_of_build built
      rw [alternation, build, build, built]
      exact exists_apply_disjunction several
        (isMonomial_symbol _).isPolynomial isPolynomial

/-- No ceiling is high enough for all conjunctions of expressions that can be built. -/
theorem exists_apply_eq_error
    (several : 2 ≤ workspace.ceiling)
    (name : String) :
    ∃ expr,
      (alternation workspace.ceiling).build workspace.apply = .ok expr ∧
        pass workspace.table catalogue expr = .ok expr ∧
          workspace.apply Operator.bitAnd [.symbol name, expr] =
            .error (.nonTerminating workspace.ceiling) := by
  obtain ⟨expr, built⟩ := exists_build_alternation several workspace.ceiling
  obtain ⟨isPolynomial, monomials⟩ := isPolynomial_of_build built
  refine ⟨expr, built, isPolynomial.pass_eq workspace.table, ?_⟩
  apply apply_conjunction_eq_error (isMonomial_symbol name).isPolynomial
    isPolynomial
  rw [monomials, card_monomials_alternation, Expr.monomials,
    Finset.card_singleton]
  omega

/-- With the default ceiling a variable cannot be multiplied by a sum of 257 others. -/
theorem apply_alternation_eq_error :
    ∃ expr,
      (alternation 256).build ({} : Workspace).apply = .ok expr ∧
        pass ({} : Workspace).table catalogue expr = .ok expr ∧
          ({} : Workspace).apply Operator.bitAnd [.symbol "y", expr] =
            .error (.nonTerminating 256) :=
  exists_apply_eq_error (show 2 ≤ ({} : Workspace).ceiling by decide) "y"

end MonotoneTree

end SymbolicAlgebra
