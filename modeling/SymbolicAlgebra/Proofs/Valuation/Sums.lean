import SymbolicAlgebra.Proofs.Closure.LikeTerms
import SymbolicAlgebra.Proofs.Valuation.Basic

/-!
# The additive rules keep values

In a commutative ring with values for literals and terms, sums, products and differences have values.
Three rules rewrite nothing but these: subtraction becomes addition, products are spread over sums,
and like terms are combined, with shared factors pulled out.  Each of them replaces a node by an
expression with the same value, as long as the additions and multiplications of literals that it
performs keep values as well, which is to say that none of them rounds.
-/

namespace SymbolicAlgebra

/-! ## Evaluations -/

namespace Transform

/-- The evaluations of writing a difference as a sum. -/
def subtractionEvaluations
    (table : SymbolTable)
    (node : Expr) : List Evaluation :=
  match node.operands? Operator.sub with
  | none => []
  | some (lhs, rhs) =>
    table.evaluationsThen Operator.mul [rhs, .number (-1)] fun negated =>
      table.evaluations Operator.add [lhs, negated]

/-- The evaluations of multiplying two addends with a factor each. -/
def spreadEvaluations
    (table : SymbolTable)
    (factor first second : Expr) : List Evaluation :=
  table.evaluationsThen Operator.mul [first, factor] fun left =>
    table.evaluationsThen Operator.mul [second, factor] fun right =>
      table.evaluations Operator.add [left, right]

/-- The evaluations of distributing a product over a sum. -/
def distributionEvaluations
    (table : SymbolTable)
    (node : Expr) : List Evaluation :=
  match node.operands? Operator.mul with
  | none => []
  | some (lhs, rhs) =>
    match lhs.operands? Operator.add with
    | some (first, second) => spreadEvaluations table rhs first second
    | none =>
      match rhs.operands? Operator.add with
      | some (first, second) => spreadEvaluations table lhs first second
      | none => []

/-- The addition of a coefficient to the total of its base, if the base has one. -/
def totalEvaluations
    (base : Expr)
    (coefficient : Float) : (groups : List (Expr × Float)) → List Evaluation
  | [] => []
  | (base', total) :: rest =>
    if base' = base then
      [⟨Operator.add, total, coefficient, .ofFloat (total + coefficient)⟩]
    else
      totalEvaluations base coefficient rest

/-- The additions of coefficients that gathering addends performs. -/
def gatherEvaluations
    (groups : List (Expr × Float)) : (addends : List Expr) → List Evaluation
  | [] => []
  | addend :: rest =>
    totalEvaluations (splitCoefficient addend).2 (splitCoefficient addend).1 groups ++
      gatherEvaluations (gather groups addend) rest

/-- The evaluations of multiplying a coefficient with a term. -/
def scaledEvaluations
    (table : SymbolTable)
    (coefficient : Float)
    (term : Expr) : List Evaluation :=
  if coefficient == 1 then
    []
  else
    table.evaluations Operator.mul [.ofFloat coefficient, term]

/-- The evaluations of pulling a shared factor out of two groups. -/
def combinationEvaluations
    (table : SymbolTable)
    (base : Expr)
    (first second : Float)
    (cofactor : Expr) : List Evaluation :=
  scaledEvaluations table second cofactor ++
    match scaled table.construct second cofactor with
    | .ok term =>
      table.evaluationsThen Operator.add [.ofFloat first, term] fun coefficient =>
        table.evaluations Operator.mul [coefficient, base]
    | .error _ => []

/-- The group that two groups with a shared factor are combined to. -/
def combined
    (builder : Builder)
    (base : Expr)
    (first second : Float)
    (cofactor : Expr) : Except ExprError Expr := do
  let term ← scaled builder second cofactor
  let coefficient ← builder Operator.add [.ofFloat first, term]
  builder Operator.mul [coefficient, base]

/-- The evaluations of pulling shared factors out of groups, at most a number of times. -/
def mergeEvaluations
    (table : SymbolTable)
    (groups : List (Expr × Float)) : (steps : Nat) → List Evaluation
  | 0 => []
  | steps + 1 =>
    match sharedFactor? groups groups 0 with
    | none => []
    | some (place, multiple, cofactor) =>
      match groups[place]?, groups[multiple]? with
      | some (base, first), some (_, second) =>
        combinationEvaluations table base first second cofactor ++
          match combined table.construct base first second cofactor with
          | .ok combined =>
            mergeEvaluations table
              ((groups.set place (combined, 1)).eraseIdx multiple) steps
          | .error _ => []
      | _, _ => []

/-- The evaluations of writing groups as addends. -/
def termEvaluations
    (table : SymbolTable) : (groups : List (Expr × Float)) → List Evaluation
  | [] => []
  | (base, coefficient) :: rest =>
    if !coefficient.isFinite then
      []
    else if coefficient == 0 then
      termEvaluations table rest
    else
      scaledEvaluations table coefficient base ++
        match scaled table.construct coefficient base with
        | .ok _ => termEvaluations table rest
        | .error _ => []

/-- The evaluations of combining like terms. -/
def foldingEvaluations
    (table : SymbolTable)
    (node : Expr) : List Evaluation :=
  if !node.isApplyOf Operator.add then
    []
  else
    let addends := nonliterals Operator.add node
    let groups := addendGroups node
    gatherEvaluations [] addends ++ mergeEvaluations table groups groups.length ++
      match mergeShared? table.construct groups false groups.length with
      | none => []
      | some (groups', merged) =>
        if !merged && groups'.length == addends.length then
          []
        else
          termEvaluations table groups' ++
            match groupTerms? table.construct groups' with
            | none => []
            | some terms =>
              Chain.evaluations table Operator.add
                (Expr.sortCanonically
                  ((Chain.flatten Operator.add node).filter (·.isNumber) ++ terms))

end Transform

/-- The rules that rewrite nothing but sums, products and differences. -/
inductive AdditiveRule where
  | removeSubtraction
  | mulOverAdd
  | foldAdditions

namespace AdditiveRule

/-- What the rule makes of nodes. -/
def transform? : AdditiveRule → Transform
  | removeSubtraction => Transform.removeSubtraction?
  | mulOverAdd => Transform.mulOverAdd?
  | foldAdditions => Transform.foldAdditions?

/-- The additions and multiplications of literals that the rule performs at a node. -/
def evaluations
    (rule : AdditiveRule)
    (table : SymbolTable)
    (node : Expr) : List Evaluation :=
  match rule with
  | removeSubtraction => Transform.subtractionEvaluations table node
  | mulOverAdd => Transform.distributionEvaluations table node
  | foldAdditions => Transform.foldingEvaluations table node

end AdditiveRule

/-! ## Values -/

/-- A valuation in a ring, where minus one is itself. -/
structure RingValuation
    (R : Type*)
    [CommRing R] extends Valuation R where
  neg_one :
    literal (-1) = -1

namespace RingValuation

/-- Literals as the rational numbers that they represent. -/
def rational
    (term : Expr → ℚ) : RingValuation ℚ where
  toValuation := .rational term
  neg_one := rationalOf_neg_one

variable {R : Type*} [CommRing R]

mutual

/-- The value of an expression: sums, products and differences of two are what they say, and anything
else is a literal or a term that nothing is known of. -/
def value
    (valuation : RingValuation R) : Expr → R
  | .number number => valuation.literal number
  | .apply head args =>
    if head = Operator.add then
      (valuation.values args).sum
    else if head = Operator.mul then
      (valuation.values args).prod
    else
      match valuation.values args with
      | [first, second] =>
        if head = Operator.sub then
          first - second
        else
          valuation.term (.apply head args)
      | _ => valuation.term (.apply head args)
  | leaf => valuation.term leaf

/-- The values of all arguments. -/
def values
    (valuation : RingValuation R) : List Expr → List R
  | [] => []
  | arg :: rest => valuation.value arg :: valuation.values rest

end

variable (valuation : RingValuation R)

theorem values_eq_map
    (args : List Expr) :
    valuation.values args = args.map valuation.value := by
  induction args with
  | nil =>
      rfl
  | cons arg rest inductionHypothesis =>
      rw [values, inductionHypothesis, List.map_cons]

@[simp]
theorem value_number
    (number : Float) :
    valuation.value (.number number) = valuation.literal number := by
  rw [value]

@[simp]
theorem value_ofFloat
    (number : Float) :
    valuation.value (.ofFloat number) = valuation.literal number := by
  rw [Expr.ofFloat, value_number, valuation.literal_ofFloat]

@[simp]
theorem value_sum
    (args : List Expr) :
    valuation.value (.apply Operator.add args) =
      (args.map valuation.value).sum := by
  rw [value, if_pos rfl, values_eq_map]

@[simp]
theorem value_product
    (args : List Expr) :
    valuation.value (.apply Operator.mul args) =
      (args.map valuation.value).prod := by
  rw [value, if_neg (by decide), if_pos rfl, values_eq_map]

@[simp]
theorem value_difference
    (lhs rhs : Expr) :
    valuation.value (.apply Operator.sub [lhs, rhs]) =
      valuation.value lhs - valuation.value rhs := by
  rw [value, if_neg (by decide), if_neg (by decide)]
  rfl

theorem folds_sum :
    Folds valuation.value Operator.add (· + ·) 0 :=
  valuation.value_sum

theorem folds_product :
    Folds valuation.value Operator.mul (· * ·) 1 :=
  valuation.value_product

variable {valuation}

theorem suits_sum
    (table : SymbolTable) :
    table.Suits valuation.value Operator.add where
  commutative := by
    intro _ _ _ args args' permuted
    rw [value_sum, value_sum, (permuted.map _).sum_eq]
  zero found declared := by
    cases (table.specOf?_add.symm.trans found)
    cases declared

theorem suits_product
    (table : SymbolTable) :
    table.Suits valuation.value Operator.mul :=
  valuation.folds_product.suits_product
    ((valuation.value_number 0).trans (valuation.zero (by decide))) table

variable {table : SymbolTable}

/-- A sum of two that has been built. -/
theorem value_construct_sum
    {lhs rhs result : Expr}
    (kept :
      ∀ evaluation ∈ table.evaluations Operator.add [lhs, rhs],
        evaluation.Keeps valuation.value)
    (built : table.construct Operator.add [lhs, rhs] = .ok result) :
    valuation.value result = valuation.value lhs + valuation.value rhs := by
  simpa using (suits_sum table).value_construct kept built

/-- A product of two that has been built. -/
theorem value_construct_product
    {lhs rhs result : Expr}
    (kept :
      ∀ evaluation ∈ table.evaluations Operator.mul [lhs, rhs],
        evaluation.Keeps valuation.value)
    (built : table.construct Operator.mul [lhs, rhs] = .ok result) :
    valuation.value result = valuation.value lhs * valuation.value rhs := by
  simpa using (suits_product table).value_construct kept built

/-- A product of two factors is worth the product of their values. -/
theorem value_of_operands?_product
    {expr lhs rhs : Expr}
    (isProduct : expr.operands? Operator.mul = some (lhs, rhs)) :
    valuation.value expr = valuation.value lhs * valuation.value rhs := by
  rw [Expr.operands?_eq_some isProduct]
  simp

theorem value_of_operands?_sum
    {expr lhs rhs : Expr}
    (isSum : expr.operands? Operator.add = some (lhs, rhs)) :
    valuation.value expr = valuation.value lhs + valuation.value rhs := by
  rw [Expr.operands?_eq_some isSum]
  simp

/-! ## Differences and products over sums -/

/-- Writing a difference as a sum keeps its value. -/
theorem value_removeSubtraction?
    {node replacement : Expr}
    (kept :
      ∀ evaluation ∈ Transform.subtractionEvaluations table node,
        evaluation.Keeps valuation.value)
    (transformed :
      Transform.removeSubtraction? table table.construct node =
        some replacement) :
    valuation.value replacement = valuation.value node := by
  unfold Transform.subtractionEvaluations at kept
  unfold Transform.removeSubtraction? at transformed
  split at transformed
  · cases transformed
  · rename_i lhs rhs isDifference
    simp only [isDifference] at kept
    obtain ⟨negated, negates, adds⟩ :=
      exists_of_bind_eq_ok (eq_ok_of_toOption transformed)
    obtain ⟨keptProduct, keptSum⟩ := (SymbolTable.forall_evaluationsThen negates).mp kept
    rw [Expr.operands?_eq_some isDifference, value_difference,
      value_construct_sum keptSum adds, value_construct_product keptProduct negates,
      value_number, valuation.neg_one]
    ring

theorem value_spread
    {factor first second result : Expr}
    (kept :
      ∀ evaluation ∈ Transform.spreadEvaluations table factor first second,
        evaluation.Keeps valuation.value)
    (built :
      Transform.spread table.construct Operator.mul Operator.add factor first
          second =
        .ok result) :
    valuation.value result =
      (valuation.value first + valuation.value second) *
        valuation.value factor := by
  obtain ⟨left, leftBuilt, built⟩ := exists_of_bind_eq_ok built
  obtain ⟨right, rightBuilt, added⟩ := exists_of_bind_eq_ok built
  obtain ⟨keptLeft, kept⟩ := (SymbolTable.forall_evaluationsThen leftBuilt).mp kept
  obtain ⟨keptRight, keptSum⟩ := (SymbolTable.forall_evaluationsThen rightBuilt).mp kept
  rw [value_construct_sum keptSum added, value_construct_product keptLeft leftBuilt,
    value_construct_product keptRight rightBuilt, add_mul]

/-- Distributing a product over a sum keeps its value. -/
theorem value_mulOverAdd?
    {node replacement : Expr}
    (kept :
      ∀ evaluation ∈ Transform.distributionEvaluations table node,
        evaluation.Keeps valuation.value)
    (transformed :
      Transform.mulOverAdd? table table.construct node = some replacement) :
    valuation.value replacement = valuation.value node := by
  unfold Transform.distributionEvaluations at kept
  unfold Transform.mulOverAdd? Transform.distribute? at transformed
  split at transformed
  · cases transformed
  · rename_i lhs rhs isProduct
    simp only [isProduct] at kept
    rw [value_of_operands?_product isProduct]
    split at transformed
    · rename_i first second isSum
      simp only [isSum] at kept
      rw [value_spread kept (eq_ok_of_toOption transformed),
        value_of_operands?_sum isSum]
    · rename_i notSum
      simp only [notSum] at kept
      split at transformed
      · rename_i first second isSum
        simp only [isSum] at kept
        rw [value_spread kept (eq_ok_of_toOption transformed),
          value_of_operands?_sum isSum, mul_comm]
      · cases transformed

/-! ## Like terms -/

/-- The value of a group, the multiple of a base. -/
def groupValue
    (valuation : RingValuation R)
    (group : Expr × Float) : R :=
  valuation.literal group.2 * valuation.value group.1

/-- The value of groups together. -/
def groupsValue
    (valuation : RingValuation R)
    (groups : List (Expr × Float)) : R :=
  (groups.map valuation.groupValue).sum

@[simp]
theorem groupsValue_cons
    (group : Expr × Float)
    (groups : List (Expr × Float)) :
    valuation.groupsValue (group :: groups) =
      valuation.groupValue group + valuation.groupsValue groups :=
  rfl

/-- An addend is worth what it is split into. -/
theorem groupValue_splitCoefficient
    (addend : Expr) :
    valuation.groupValue
        ((Transform.splitCoefficient addend).2,
          (Transform.splitCoefficient addend).1) =
      valuation.value addend := by
  unfold Transform.splitCoefficient
  split
  · rename_i isProduct
    rw [value_of_operands?_product isProduct, value_number]
    rfl
  · rw [groupValue, valuation.one, one_mul]

/-- Groups gain what is added to the total of a base. -/
theorem groupsValue_addTerm
    {base : Expr}
    {coefficient : Float}
    {groups : List (Expr × Float)}
    (kept :
      ∀ evaluation ∈ Transform.totalEvaluations base coefficient groups,
        evaluation.Keeps valuation.value) :
    valuation.groupsValue (Transform.addTerm base coefficient groups) =
      valuation.groupsValue groups + valuation.groupValue (base, coefficient) := by
  induction groups with
  | nil =>
      exact add_comm _ _
  | cons group rest inductionHypothesis =>
      unfold Transform.totalEvaluations at kept
      unfold Transform.addTerm
      split at kept
      · rename_i same
        have added : valuation.literal (group.2 + coefficient) =
            valuation.literal group.2 + valuation.literal coefficient := by
          simpa [Evaluation.Keeps] using kept _ (List.mem_singleton_self _)
        rw [if_pos same, groupsValue_cons, groupsValue_cons, groupValue, added]
        simp only [groupValue, same]
        ring
      · rename_i different
        rw [if_neg different, groupsValue_cons, groupsValue_cons,
          inductionHypothesis kept, add_assoc]

/-- Gathering addends keeps the value of groups and addends together. -/
theorem groupsValue_gather
    {groups : List (Expr × Float)}
    {addends : List Expr}
    (kept :
      ∀ evaluation ∈ Transform.gatherEvaluations groups addends,
        evaluation.Keeps valuation.value) :
    valuation.groupsValue (addends.foldl gather groups) =
      valuation.groupsValue groups + (addends.map valuation.value).sum := by
  induction addends generalizing groups with
  | nil =>
      exact (add_zero _).symm
  | cons addend rest inductionHypothesis =>
      rw [Transform.gatherEvaluations, List.forall_mem_append] at kept
      rw [List.foldl_cons, inductionHypothesis kept.2, gather,
        groupsValue_addTerm kept.1, groupValue_splitCoefficient, List.map_cons,
        List.sum_cons, add_assoc]

/-- The multiple of a term has the product as its value. -/
theorem value_scaled
    {coefficient : Float}
    {term result : Expr}
    (kept :
      ∀ evaluation ∈ Transform.scaledEvaluations table coefficient term,
        evaluation.Keeps valuation.value)
    (built : Transform.scaled table.construct coefficient term = .ok result) :
    valuation.value result = valuation.groupValue (term, coefficient) := by
  unfold Transform.scaledEvaluations at kept
  unfold Transform.scaled at built
  split at kept
  · rename_i isOne
    rw [if_pos isOne] at built
    cases built
    rw [groupValue, eq_one_of_beq isOne, valuation.one, one_mul]
  · rename_i notOne
    rw [if_neg notOne] at built
    rw [value_construct_product kept built, value_ofFloat]
    rfl

/-- A factor that is shared is pulled out of two groups. -/
theorem value_combined
    {base cofactor product result : Expr}
    {first second : Float}
    (kept :
      ∀ evaluation ∈
          Transform.combinationEvaluations table base first second cofactor,
        evaluation.Keeps valuation.value)
    (built :
      Transform.combined table.construct base first second cofactor =
        .ok result)
    (isCofactor : Transform.cofactor? base product = some cofactor) :
    valuation.value result =
      valuation.groupValue (base, first) +
        valuation.groupValue (product, second) := by
  have factored :
      valuation.value product = valuation.value base * valuation.value cofactor := by
    unfold Transform.cofactor? at isCofactor
    split at isCofactor
    · rename_i isProduct
      rw [value_of_operands?_product isProduct]
      split at isCofactor
      · rename_i same
        cases isCofactor
        rw [same]
      · split at isCofactor
        · rename_i same
          cases isCofactor
          rw [same, mul_comm]
        · cases isCofactor
    · cases isCofactor
  obtain ⟨term, termBuilt, built⟩ := exists_of_bind_eq_ok built
  obtain ⟨coefficient, added, multiplied⟩ := exists_of_bind_eq_ok built
  rw [Transform.combinationEvaluations, List.forall_mem_append] at kept
  simp only [termBuilt] at kept
  obtain ⟨keptSum, keptProduct⟩ := (SymbolTable.forall_evaluationsThen added).mp kept.2
  rw [value_construct_product keptProduct multiplied,
    value_construct_sum keptSum added, value_scaled kept.1 termBuilt, value_ofFloat]
  simp only [groupValue, factored]
  ring

/-- Pulling shared factors out of groups keeps their value. -/
theorem groupsValue_mergeShared?
    {groups groups' : List (Expr × Float)}
    {merged merged' : Bool}
    {steps : Nat}
    (kept :
      ∀ evaluation ∈ Transform.mergeEvaluations table groups steps,
        evaluation.Keeps valuation.value)
    (outcome :
      Transform.mergeShared? table.construct groups merged steps =
        some (groups', merged')) :
    valuation.groupsValue groups' = valuation.groupsValue groups := by
  induction steps generalizing groups merged with
  | zero =>
      cases outcome
      rfl
  | succ steps inductionHypothesis =>
      unfold Transform.mergeEvaluations at kept
      unfold Transform.mergeShared? at outcome
      split at outcome
      · cases outcome
        rfl
      · rename_i place multiple cofactor found
        obtain ⟨base, first, product, second, shares⟩ :=
          exists_shares (by simp) found
        simp only [found, shares.base_at, shares.product_at] at kept outcome
        obtain ⟨result, built, outcome⟩ := Option.bind_eq_some_iff.mp outcome
        have combines :
            Transform.combined table.construct base first second cofactor =
              .ok result :=
          eq_ok_of_toOption built
        rw [combines, List.forall_mem_append] at kept
        have permuted :=
          ((perm_set_eraseIdx (result, (1 : Float)) shares.base_at shares.product_at
            shares.ne).map valuation.groupValue).sum_eq
        simp only [List.map_cons, List.sum_cons] at permuted
        have resultValue : valuation.groupValue (result, 1) =
            valuation.groupValue (base, first) +
              valuation.groupValue (product, second) := by
          rw [← value_combined kept.1 combines shares.cofactor, groupValue,
            valuation.one, one_mul]
        rw [inductionHypothesis kept.2 outcome]
        rw [resultValue, ← add_assoc] at permuted
        exact (add_left_cancel permuted).symm

/-- The addends that groups are written as are worth what the groups are. -/
theorem sum_groupTerms?
    {groups : List (Expr × Float)}
    {terms : List Expr}
    (kept :
      ∀ evaluation ∈ Transform.termEvaluations table groups,
        evaluation.Keeps valuation.value)
    (built : Transform.groupTerms? table.construct groups = some terms) :
    (terms.map valuation.value).sum = valuation.groupsValue groups := by
  induction groups generalizing terms with
  | nil =>
      cases built
      rfl
  | cons group rest inductionHypothesis =>
      unfold Transform.termEvaluations at kept
      unfold Transform.groupTerms? at built
      split at built
      · cases built
      · rename_i isFinite
        rw [if_neg isFinite] at kept
        split at built
        · rename_i isZero
          rw [if_pos isZero] at kept
          rw [inductionHypothesis kept built, groupsValue_cons, groupValue,
            valuation.zero isZero, zero_mul, zero_add]
        · rename_i notZero
          obtain ⟨term, termBuilt, built⟩ := Option.bind_eq_some_iff.mp built
          obtain ⟨following, restBuilt, built⟩ :=
            Option.bind_eq_some_iff.mp built
          cases built
          rw [if_neg notZero, eq_ok_of_toOption termBuilt, List.forall_mem_append]
            at kept
          rw [List.map_cons, List.sum_cons, groupsValue_cons,
            value_scaled kept.1 (eq_ok_of_toOption termBuilt),
            inductionHypothesis kept.2 restBuilt]

/-- The literals of a sum and the groups of its other addends are worth what the sum is. -/
theorem sum_literals_addendGroups
    {node : Expr}
    (kept :
      ∀ evaluation ∈
          Transform.gatherEvaluations [] (Transform.nonliterals Operator.add node),
        evaluation.Keeps valuation.value) :
    (((Chain.flatten Operator.add node).filter (·.isNumber)).map
          valuation.value).sum +
        valuation.groupsValue (Transform.addendGroups node) =
      valuation.value node := by
  have gathered :
      valuation.groupsValue (Transform.addendGroups node) =
        ((Transform.nonliterals Operator.add node).map valuation.value).sum :=
    (groupsValue_gather kept).trans (zero_add _)
  rw [gathered, ← List.sum_append, ← List.map_append]
  exact ((List.filter_append_perm _ _).map _).sum_eq.trans
    (valuation.folds_sum.foldr_flatten node)

/-- Combining like terms keeps the value of a sum. -/
theorem value_foldAdditions?
    {node replacement : Expr}
    (kept :
      ∀ evaluation ∈ Transform.foldingEvaluations table node,
        evaluation.Keeps valuation.value)
    (transformed :
      Transform.foldAdditions? table table.construct node = some replacement) :
    valuation.value replacement = valuation.value node := by
  unfold Transform.foldAdditions? at transformed
  unfold Transform.foldingEvaluations at kept
  split at transformed
  · cases transformed
  · rename_i isSum
    rw [if_neg isSum, List.forall_mem_append, List.forall_mem_append] at kept
    obtain ⟨⟨keptTotals, keptMerging⟩, keptTerms⟩ := kept
    obtain ⟨⟨groups, merged⟩, outcome, transformed⟩ :=
      Option.bind_eq_some_iff.mp transformed
    have merges :
        Transform.mergeShared? table.construct (Transform.addendGroups node) false
            (Transform.addendGroups node).length =
          some (groups, merged) :=
      outcome
    rw [← sum_literals_addendGroups keptTotals,
      ← groupsValue_mergeShared? keptMerging merges]
    simp only [merges] at keptTerms
    dsimp only at transformed
    split at transformed
    · cases transformed
    · rename_i changed
      rw [Transform.nonliterals, if_neg changed, List.forall_mem_append]
        at keptTerms
      obtain ⟨terms, built, transformed⟩ := Option.bind_eq_some_iff.mp transformed
      simp only [built] at keptTerms
      rw [← sum_groupTerms? keptTerms.1 built, ← List.sum_append,
        ← List.map_append]
      split at transformed
      · rename_i isEmpty
        cases transformed
        rw [List.isEmpty_iff.mp isEmpty, value_number, valuation.zero (by decide)]
        rfl
      · rw [valuation.folds_sum.value_build (suits_sum table) keptTerms.2
          (eq_ok_of_toOption transformed)]
        exact ((Expr.sortBy_perm _ _).map _).sum_eq

end RingValuation

/--
Each rule for sums makes of every expression, while a simplification is under way, an expression with the
same value, in every commutative ring and for all values of literals and terms, as long as the additions
and multiplications of literals that it performs keep values.
-/
theorem AdditiveRule.value_ring
    {R : Type*}
    [CommRing R]
    {valuation : RingValuation R}
    {table : SymbolTable}
    {rule : AdditiveRule}
    {node : Expr}
    (kept :
      ∀ evaluation ∈ rule.evaluations table node,
        evaluation.Keeps valuation.value) :
    valuation.value (rule.transform?.result table node) =
      valuation.value node := by
  unfold Transform.result
  cases transformed : rule.transform? table table.construct node with
  | none =>
      rfl
  | some replacement =>
      cases rule with
      | removeSubtraction =>
          exact RingValuation.value_removeSubtraction? kept transformed
      | mulOverAdd =>
          exact RingValuation.value_mulOverAdd? kept transformed
      | foldAdditions =>
          exact RingValuation.value_foldAdditions? kept transformed

/-- Two like terms are added without rounding, and the factor that they share with the third is pulled out. -/
theorem AdditiveRule.value_ring_likeTerms :
    let valuation := RingValuation.rational fun term => if term = .symbol "x" then 2 / 3 else 7
    let x := Expr.symbol "x"
    let y := Expr.symbol "y"
    let product (lhs rhs : Expr) := Expr.apply Operator.mul [lhs, rhs]
    let node :=
      Expr.apply Operator.add
        [product (.number 2) x, .apply Operator.add [product (.number 3) x, product x y]]
    foldAdditions.evaluations {} node = [⟨Operator.add, 2, 3, .number 5⟩] ∧
      foldAdditions.transform?.result {} node =
        product x (.apply Operator.add [.number 5, y]) ∧
      valuation.value (foldAdditions.transform?.result {} node) =
        valuation.value node := by
  intro valuation x y product node
  have performed :
      foldAdditions.evaluations {} node = [⟨Operator.add, 2, 3, .number 5⟩] := by
    decide +kernel
  have kept :
      ∀ evaluation ∈ foldAdditions.evaluations {} node,
        evaluation.Keeps valuation.value := by
    rw [performed, List.forall_mem_singleton]
    decide +kernel
  exact ⟨performed, by decide +kernel, value_ring kept⟩

end SymbolicAlgebra
