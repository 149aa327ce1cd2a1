import SymbolicAlgebra.Proofs.Evaluation
import SymbolicAlgebra.Proofs.Powers.Simplification

/-!
# The value of products and natural powers

A tree of products and natural powers over symbols and integers is simplified to one product of powers.  Where
all arithmetic is exact, substitution in the simplified form gives the value of the tree.  Exponents that are no
natural numbers are multiplied all the same, and then the value is not kept.
-/

namespace SymbolicAlgebra

open SymbolicAlgebra.Expr

section Value

variable {values : String → Int} {substitution : Substitution} {expr lhs rhs base : Expr}
  {product : PowerProduct} {first second : Int} {count : Nat}

/-! ## Evaluators -/

theorem Expr.evaluate_product
    (lhsEvaluated : lhs.evaluate substitution = .ok (whole first))
    (rhsEvaluated : rhs.evaluate substitution = .ok (whole second))
    (firstSmall : first.natAbs < 2 ^ 53)
    (secondSmall : second.natAbs < 2 ^ 53)
    (small : (first * second).natAbs < 2 ^ 53) :
    (apply Operator.mul [lhs, rhs]).evaluate substitution =
      .ok (whole (first * second)) :=
  evaluate_apply lhsEvaluated rhsEvaluated rfl
    (evaluateLiterals?_product "*" firstSmall secondSmall small)

theorem Expr.evaluate_power
    (baseEvaluated : base.evaluate substitution = .ok (whole first))
    (firstSmall : first.natAbs < 2 ^ 53)
    (countSmall : count < 2 ^ 53)
    (small : (first ^ count).natAbs < 2 ^ 53) :
    (apply Operator.pow [base, whole count]).evaluate substitution =
      .ok (whole (first ^ count)) :=
  evaluate_apply baseEvaluated rfl rfl
    (evaluateLiterals?_power "**" firstSmall countSmall small)

namespace Expr.IsPowerProduct

theorem isArithmetic
    (isProduct : expr.IsPowerProduct values product) :
    expr.IsArithmetic := by
  induction isProduct with
  | literal nonzero fits =>
      exact .number _
  | symbol fits =>
      exact .symbol _
  | product lhsProduct rhsProduct fits lhsHypothesis rhsHypothesis =>
      exact .node (by decide) lhsHypothesis rhsHypothesis
  | power baseProduct symbolic small fits baseHypothesis =>
      exact .node (by decide) baseHypothesis (.number _)

/-- An expression of products and powers evaluates to the value of its product. -/
theorem evaluate_eq
    (isProduct : expr.IsPowerProduct values product)
    (assigned :
      ∀ name ∈ expr.inputs,
        substitution.find? (.symbol name) = some (whole (values name))) :
    expr.evaluate substitution = .ok (whole (product.value values)) := by
  induction isProduct with
  | @literal number nonzero fits =>
      rw [PowerProduct.value_literal]
      rfl
  | @symbol name fits =>
      rw [evaluate, assigned name (by simp [inputs]), PowerProduct.value_symbol]
      rfl
  | product lhsProduct rhsProduct fits lhsHypothesis rhsHypothesis =>
      obtain ⟨lhsAssigned, rhsAssigned⟩ := List.forall_mem_append.mp assigned
      have small := fits.value_lt
      rw [PowerProduct.value_mul] at small ⊢
      exact evaluate_product (lhsHypothesis lhsAssigned) (rhsHypothesis rhsAssigned)
        lhsProduct.fits.value_lt rhsProduct.fits.value_lt small
  | power baseProduct symbolic countSmall fits baseHypothesis =>
      have baseAssigned := (List.forall_mem_append.mp assigned).1
      have small := fits.value_lt
      rw [PowerProduct.value_pow] at small ⊢
      exact evaluate_power (baseHypothesis baseAssigned) baseProduct.fits.value_lt
        countSmall small

end Expr.IsPowerProduct

end Value

/-! ## Substitution in the simplified form -/

section Collected

variable {values : String → Int} {substitution : Substitution} {workspace : Workspace}
  {expr first : Expr} {rest : List Expr} {product : PowerProduct}

theorem inputs_nested
    (op first : Expr)
    (rest : List Expr) :
    (nested op first rest).inputs = (first :: rest).flatMap inputs := by
  induction rest generalizing first with
  | nil =>
      simp [nested]
  | cons second rest inductionHypothesis =>
      rw [nested, inputs, inductionHypothesis]
      rfl

/-- No operator is applied to two literals in a chain if its operands hold at most one. -/
theorem everywhere_isUnevaluated_nested
    (op : String)
    (unevaluated : ∀ item ∈ first :: rest, item.Everywhere IsUnevaluated)
    (oneLiteral : ((first :: rest).filter isNumber).length ≤ 1) :
    (nested (.symbol op) first rest).Everywhere IsUnevaluated := by
  induction rest generalizing first with
  | nil =>
      exact unevaluated first List.mem_cons_self
  | cons second rest inductionHypothesis =>
      obtain ⟨firstUnevaluated, restUnevaluated⟩ := List.forall_mem_cons.mp unevaluated
      have restLiteral : ((second :: rest).filter isNumber).length ≤ 1 :=
        ((List.sublist_cons_self first _).filter isNumber).length_le.trans oneLiteral
      refine Everywhere.apply_iff.mpr ⟨?_, .of_isLeaf rfl nofun, ?_⟩
      · intro head lhs rhs same
        cases same
        exact unevaluated_of_suffix List.suffix_rfl oneLiteral
      · intro arg isArg
        rcases List.mem_pair.mp isArg with rfl | rfl
        · exact firstUnevaluated
        · exact inductionHypothesis restUnevaluated restLiteral

theorem inputs_powerOf
    (name : String)
    (count : Nat) :
    (powerOf name count).inputs = [name] := by
  rcases powerOf_cases name count with ⟨same, -⟩ | same
  · rw [same, inputs]
  · rw [same]
    rfl

theorem everywhere_isUnevaluated_powerOf
    (name : String)
    (count : Nat) :
    (powerOf name count).Everywhere IsUnevaluated := by
  rcases powerOf_cases name count with ⟨same, -⟩ | same
  · rw [same]
    exact .of_isLeaf rfl nofun
  · rw [same]
    refine Everywhere.apply_iff.mpr ⟨?_, .of_isLeaf rfl nofun, ?_⟩
    · intro head lhs rhs same
      cases same
      rfl
    · intro arg isArg
      rcases List.mem_pair.mp isArg with rfl | rfl
      · exact .of_isLeaf rfl nofun
      · exact .of_isLeaf rfl nofun

/-- A collected product is a chain of the operands in some order. -/
theorem Expr.IsCollected.exists_nested
    (isCollected : expr.IsCollected product) :
    ∃ names first rest,
      (∀ name ∈ names, name ∈ product.symbols) ∧
        (first :: rest).Perm (operandsOf product names) ∧
          expr = nested Operator.mul first rest := by
  obtain ⟨names, -, members, isChain⟩ := isCollected.exists_names
  obtain ⟨first, rest, flat, same⟩ :=
    exists_nested_of_isRightNested isChain.isNested
  rw [isChain.flatten_eq] at flat
  exact ⟨names, first, rest, fun name => (members name).mp,
    flat ▸ sortCanonically_perm _, same⟩

/-- The symbols among the operands of a collected product are those of the product. -/
theorem Expr.IsCollected.mem_symbols
    (isCollected : expr.IsCollected product)
    {name : String}
    (member : name ∈ expr.inputs) :
    name ∈ product.symbols := by
  obtain ⟨names, first, rest, isSymbol, permuted, rfl⟩ := isCollected.exists_nested
  rw [inputs_nested, List.mem_flatMap] at member
  obtain ⟨item, isItem, member⟩ := member
  rcases mem_operandsOf (permuted.mem_iff.mp isItem) with ⟨other, isName, rfl⟩ | rfl
  · rw [inputs_powerOf, List.mem_singleton] at member
    exact isSymbol name (member ▸ isName)
  · cases member

theorem Expr.IsCollected.everywhere_isUnevaluated
    (isCollected : expr.IsCollected product) :
    expr.Everywhere IsUnevaluated := by
  obtain ⟨names, first, rest, -, permuted, rfl⟩ := isCollected.exists_nested
  apply everywhere_isUnevaluated_nested
  · intro item isItem
    rcases mem_operandsOf (permuted.mem_iff.mp isItem) with ⟨other, -, rfl⟩ | rfl
    · exact everywhere_isUnevaluated_powerOf _ _
    · exact .of_isLeaf rfl nofun
  · rw [(permuted.filter isNumber).length_eq, literals_operandsOf]
    split <;> simp

/-- Substitution in a normal form gives the value of its product. -/
theorem Expr.IsReducedTo.substitute_eq
    (isReduced : expr.IsReducedTo product)
    (fits : product.Fits values)
    (assigned :
      ∀ name ∈ product.symbols,
        substitution.find? (.symbol name) = some (whole (values name)))
    (spares : substitution.SparesOperators)
    (literalsFree : ∀ value, substitution.find? (.number value) = none) :
    workspace.substitute substitution expr =
      .ok (whole (product.value values)) := by
  cases isReduced with
  | zero isZero =>
      rw [PowerProduct.value, isZero, Int.zero_mul, Workspace.substitute]
      simp only [whole, walk, Substitution.replacement?, literalsFree]
      rfl
  | collected isCollected =>
      have isProduct := isCollected.isPowerProduct fits
      have found :
          ∀ name ∈ expr.inputs,
            substitution.find? (.symbol name) = some (whole (values name)) :=
        fun name member => assigned name (isCollected.mem_symbols member)
      have assigns : substitution.AssignsNumbers expr :=
        fun name member => ⟨_, found name member⟩
      have evaluates : Evaluates workspace substitution expr :=
        isProduct.isArithmetic.evaluates_of_unevaluated
          isCollected.everywhere_isUnevaluated assigns spares
          (isProduct.isArithmetic.keepsValues assigns literalsFree)
      exact evaluates.substitute_eq (isProduct.evaluate_eq found)

end Collected

/-! ## Trees -/

/-- A tree of products and natural powers over symbols and integers. -/
inductive PowerTree where
  | input (name : String)
  | literal (integer : Int)
  | product (lhs rhs : PowerTree)
  | power (base : PowerTree) (count : Nat)

namespace PowerTree

/-- The names of the symbols, with repetition. -/
def inputs : PowerTree → List String
  | input name => [name]
  | literal _ => []
  | product lhs rhs => lhs.inputs ++ rhs.inputs
  | power base _ => base.inputs

/-- The tree as it is written. -/
def raw : PowerTree → Expr
  | input name => .symbol name
  | literal integer => .whole integer
  | product lhs rhs => .apply Operator.mul [lhs.raw, rhs.raw]
  | power base count => .apply Operator.pow [base.raw, .whole count]

/-- Builds the tree bottom-up. -/
def build
    (builder : Builder) : PowerTree → Except ExprError Expr
  | input name => .ok (.symbol name)
  | literal integer => .ok (.whole integer)
  | product lhs rhs => do
    let lhs' ← lhs.build builder
    let rhs' ← rhs.build builder
    builder Operator.mul [lhs', rhs']
  | power base count => do
    let base' ← base.build builder
    builder Operator.pow [base', .whole count]

/-- The value of the tree under values of its symbols. -/
def value
    (values : String → Int) : PowerTree → Int
  | input name => values name
  | literal integer => integer
  | product lhs rhs => lhs.value values * rhs.value values
  | power base count => base.value values ^ count

/-- The tree multiplied out. -/
def multiplied : PowerTree → PowerProduct
  | input name => .symbol name
  | literal integer => .literal integer
  | product lhs rhs => lhs.multiplied * rhs.multiplied
  | power base count => base.multiplied ^ count

/-- Every part of the tree is small enough for exact arithmetic. -/
def IsExact
    (values : String → Int) : PowerTree → Prop
  | input name => (PowerProduct.symbol name).Fits values
  | literal integer => (PowerProduct.literal integer).Fits values
  | product lhs rhs =>
    lhs.IsExact values ∧ rhs.IsExact values ∧
      (lhs.multiplied * rhs.multiplied).Fits values
  | power base count =>
    base.IsExact values ∧ count < 2 ^ 53 ∧ (base.multiplied ^ count).Fits values

instance decidableIsExact
    (values : String → Int) : (tree : PowerTree) → Decidable (tree.IsExact values)
  | input name =>
    inferInstanceAs (Decidable ((PowerProduct.symbol name).Fits values))
  | literal integer =>
    inferInstanceAs (Decidable ((PowerProduct.literal integer).Fits values))
  | product lhs rhs =>
    have := lhs.decidableIsExact values
    have := rhs.decidableIsExact values
    inferInstanceAs (Decidable (_ ∧ _ ∧ _))
  | power base _ =>
    have := base.decidableIsExact values
    inferInstanceAs (Decidable (_ ∧ _ ∧ _))

section Tree

variable {values : String → Int} {substitution : Substitution} {workspace : Workspace}
  {tree : PowerTree}

theorem IsExact.fits
    (exact : tree.IsExact values) :
    tree.multiplied.Fits values := by
  cases tree with
  | input name | literal integer =>
      exact exact
  | product lhs rhs | power base count =>
      exact exact.2.2

theorem value_multiplied
    (tree : PowerTree)
    (values : String → Int) :
    tree.multiplied.value values = tree.value values := by
  induction tree with
  | input name =>
      exact PowerProduct.value_symbol values name
  | literal integer =>
      exact PowerProduct.value_literal values integer
  | product lhs rhs lhsHypothesis rhsHypothesis =>
      rw [multiplied, PowerProduct.value_mul, lhsHypothesis, rhsHypothesis, value]
  | power base count baseHypothesis =>
      rw [multiplied, PowerProduct.value_pow, baseHypothesis, value]

theorem IsExact.value_lt
    (exact : tree.IsExact values) :
    (tree.value values).natAbs < 2 ^ 53 :=
  tree.value_multiplied values ▸ exact.fits.value_lt

theorem mem_inputs
    {name : String}
    (member : name ∈ tree.multiplied.symbols) :
    name ∈ tree.inputs := by
  induction tree with
  | input other =>
      simpa [multiplied, inputs] using member
  | literal integer =>
      simp [multiplied] at member
  | product lhs rhs lhsHypothesis rhsHypothesis =>
      rw [multiplied, PowerProduct.symbols_mul, Multiset.mem_add] at member
      exact List.mem_append.mpr (member.imp lhsHypothesis rhsHypothesis)
  | power base count baseHypothesis =>
      rw [multiplied, PowerProduct.symbols_pow] at member
      exact baseHypothesis (Multiset.mem_of_mem_nsmul member)

/-- The evaluators compute the value of the tree. -/
theorem evaluate_raw
    (exact : tree.IsExact values)
    (assigned :
      ∀ name ∈ tree.inputs,
        substitution.find? (.symbol name) = some (whole (values name))) :
    tree.raw.evaluate substitution = .ok (whole (tree.value values)) := by
  induction tree with
  | input name =>
      rw [raw, Expr.evaluate, assigned name (by simp [inputs])]
      rfl
  | literal integer =>
      rfl
  | product lhs rhs lhsHypothesis rhsHypothesis =>
      have small := exact.value_lt
      obtain ⟨lhsAssigned, rhsAssigned⟩ := List.forall_mem_append.mp assigned
      obtain ⟨lhsExact, rhsExact, -⟩ := exact
      exact evaluate_product (lhsHypothesis lhsExact lhsAssigned)
        (rhsHypothesis rhsExact rhsAssigned) lhsExact.value_lt rhsExact.value_lt small
  | power base count baseHypothesis =>
      have small := exact.value_lt
      obtain ⟨baseExact, countSmall, -⟩ := exact
      exact evaluate_power (baseHypothesis baseExact assigned) baseExact.value_lt
        countSmall small

/-- A tree of products and powers is built, in the normal form of the product that it multiplies out to. -/
theorem exists_build
    (enough : 2 ≤ workspace.ceiling)
    (exact : tree.IsExact values) :
    ∃ simplified,
      tree.build workspace.apply = .ok simplified ∧
        simplified.IsReducedTo tree.multiplied := by
  induction tree with
  | input name =>
      exact ⟨_, rfl, .collected (isCollected_symbol name)⟩
  | literal integer =>
      exact ⟨_, rfl, .literal integer⟩
  | product lhs rhs lhsHypothesis rhsHypothesis =>
      obtain ⟨lhsExact, rhsExact, fits⟩ := exact
      obtain ⟨lhs', lhsBuilt, lhsReduced⟩ := lhsHypothesis lhsExact
      obtain ⟨rhs', rhsBuilt, rhsReduced⟩ := rhsHypothesis rhsExact
      rw [build, lhsBuilt, ok_bind, rhsBuilt, ok_bind]
      exact lhsReduced.exists_apply_product rhsReduced enough lhsExact.fits
        rhsExact.fits fits
  | power base count baseHypothesis =>
      obtain ⟨baseExact, countSmall, fits⟩ := exact
      obtain ⟨base', baseBuilt, baseReduced⟩ := baseHypothesis baseExact
      rw [build, baseBuilt, ok_bind]
      exact baseReduced.exists_apply_power enough baseExact.fits countSmall fits

end Tree

/--
A tree of products and natural powers that is small enough for exact arithmetic is built, and substitution of
integers for its symbols in the simplified form gives the value that the evaluators compute from the tree as it
is written.  Neither depends on the signs of the integers, and any of them may be zero.
-/
theorem substitute_build_eq_evaluate
    {workspace : Workspace}
    {values : String → Int}
    {substitution : Substitution}
    {tree : PowerTree}
    (enough : 2 ≤ workspace.ceiling)
    (exact : tree.IsExact values)
    (assigned :
      ∀ name ∈ tree.inputs,
        substitution.find? (.symbol name) = some (.whole (values name)))
    (spares : substitution.SparesOperators)
    (literalsFree : ∀ value, substitution.find? (.number value) = none) :
    ∃ simplified,
      tree.build workspace.apply = .ok simplified ∧
        tree.raw.evaluate substitution = .ok (.whole (tree.value values)) ∧
          workspace.substitute substitution simplified =
            tree.raw.evaluate substitution := by
  obtain ⟨simplified, built, isReduced⟩ := exists_build enough exact
  have evaluated := evaluate_raw exact assigned
  refine ⟨simplified, built, evaluated, ?_⟩
  rw [evaluated, ← tree.value_multiplied values]
  exact isReduced.substitute_eq exact.fits
    (fun name member => assigned name (mem_inputs member)) spares literalsFree

/-- The tree `((x * y) ** 2) ** 2 * (x ** 3 * -3)` where `x` is minus two and `y` is five. -/
theorem substitute_build_eq_evaluate_powers :
    let workspace : Workspace := { table := ⟨[("x", none), ("y", none)]⟩ }
    let values : String → Int := fun name => if name = "x" then -2 else 5
    let substitution : Substitution :=
      ⟨[(.symbol "x", .whole (-2)), (.symbol "y", .whole 5)]⟩
    let square := (product (input "x") (input "y")).power 2
    let tree := product (square.power 2) (product ((input "x").power 3) (literal (-3)))
    tree.IsExact values ∧
      ∃ simplified,
        tree.build workspace.apply = .ok simplified ∧
          tree.raw.evaluate substitution = .ok (.whole 240000) ∧
            workspace.substitute substitution simplified = .ok (.whole 240000) := by
  intro workspace values substitution square tree
  have exact : tree.IsExact values := by
    decide +kernel
  have assigned :
      ∀ name ∈ tree.inputs,
        substitution.find? (.symbol name) = some (.whole (values name)) := by
    have inputs : tree.inputs = ["x", "y", "x"] := rfl
    simp only [inputs, List.forall_mem_cons]
    exact ⟨rfl, rfl, rfl, nofun⟩
  have spares : substitution.SparesOperators := by
    unfold Substitution.SparesOperators
    decide +kernel
  obtain ⟨simplified, built, evaluated, same⟩ :=
    @substitute_build_eq_evaluate workspace values substitution tree (by decide) exact
      assigned spares fun value => rfl
  exact ⟨exact, simplified, built, evaluated, same.trans evaluated⟩

/-- The power `(x ** 2) ** 0.5` is simplified to `x`, but it is one where `x` is minus one. -/
theorem substitute_nested_power_ne :
    let workspace : Workspace := { table := ⟨[("x", none)]⟩ }
    let x := Expr.symbol "x"
    let substitution : Substitution := ⟨[(x, .number (-1))]⟩
    let square := Expr.apply Operator.pow [x, .number 2]
    let root := Expr.apply Operator.pow [square, .number 0.5]
    workspace.apply Operator.pow [x, .number 2] = .ok square ∧
      workspace.apply Operator.pow [square, .number 0.5] = .ok x ∧
        square.evaluate substitution = .ok (.number 1) ∧
          root.evaluate substitution = .ok (.number 1) ∧
            workspace.substitute substitution x = .ok (.number (-1)) ∧
              workspace.substitute substitution x ≠ root.evaluate substitution := by
  decide +kernel

end PowerTree

end SymbolicAlgebra
