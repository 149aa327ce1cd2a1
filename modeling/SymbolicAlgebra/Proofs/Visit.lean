import SymbolicAlgebra.Proofs.Simplification

/-!
# Passes with the catalogue

A pass visits the nodes of an expression bottom-up.  At an application of an operator to two operands it
visits the node itself if both operands stayed as they are, and otherwise the raw term of what became of
them.  Leaves stay as they are.
-/

namespace SymbolicAlgebra

open SymbolicAlgebra.Expr

/-! ## Rules one after the other -/

/-- What rules make of a node, one after the other. -/
def visited
    (table : SymbolTable)
    (rules : List Rule)
    (node : Expr) : Expr :=
  rules.foldl (fun node rule => Transform.result rule.transform? table node) node

section Visited

variable {table : SymbolTable} {rules : List Rule} {node : Expr}

theorem visited_cons
    (table : SymbolTable)
    (rule : Rule)
    (rules : List Rule)
    (node : Expr) :
    visited table (rule :: rules) node =
      visited table rules (Transform.result rule.transform? table node) :=
  rfl

theorem visited_append
    (table : SymbolTable)
    (rules later : List Rule)
    (node : Expr) :
    visited table (rules ++ later) node =
      visited table later (visited table rules node) :=
  List.foldl_append

theorem getD_transformAll?
    (table : SymbolTable)
    (rules : List Rule)
    (node : Expr) :
    (transformAll? (rules.map (·.transform? table table.construct))
        node).getD node =
      visited table rules node := by
  induction rules generalizing node with
  | nil =>
      rfl
  | cons rule rest inductionHypothesis =>
      rw [visited_cons, ← inductionHypothesis, List.map_cons, transformAll?,
        Transform.result]
      cases rule.transform? table table.construct node <;> rfl

theorem result_of_some
    {transform? : Transform}
    {result : Expr}
    (applies : transform? table table.construct node = some result) :
    transform?.result table node = result := by
  rw [Transform.result, applies, Option.getD_some]

theorem result_of_none
    {transform? : Transform}
    (waits : transform? table table.construct node = none) :
    transform?.result table node = node := by
  rw [Transform.result, waits, Option.getD_none]

theorem visited_of_kept
    {rules : List Rule}
    (kept : ∀ rule ∈ rules, Transform.result rule.transform? table node = node) :
    visited table rules node = node := by
  induction rules with
  | nil =>
      rfl
  | cons rule rest inductionHypothesis =>
      obtain ⟨first, others⟩ := List.forall_mem_cons.mp kept
      rw [visited_cons, first]
      exact inductionHypothesis others

/-- Rules that all wait leave a node as it is. -/
theorem visited_of_waits
    {rules : List Rule}
    (waits : ∀ rule ∈ rules, rule.transform? table table.construct node = none) :
    visited table rules node = node :=
  visited_of_kept fun rule member => result_of_none (waits rule member)

/-- Visiting leaves changes nothing. -/
theorem visited_leaf
    (isLeaf : node.isLeaf = true) :
    visited table catalogue node = node :=
  visited_of_waits fun _ member =>
    transform?_of_isLeaf member table table.construct isLeaf

/-- Sorting leaves an application as it is or puts the raw term of it in its place. -/
theorem result_commutativeOrder_of_construct
    {head raw : Expr}
    {args : List Expr}
    (constructed : table.construct head args = .ok raw) :
    Transform.commutativeOrder?.result table (.apply head args) =
        .apply head args ∨
      Transform.commutativeOrder?.result table (.apply head args) = raw := by
  unfold Transform.result Transform.commutativeOrder?
  dsimp only
  split
  · rw [constructed]
    exact .inr rfl
  · exact .inl rfl

/-- Operands in the order in which they are stored stay in this order. -/
theorem result_commutativeOrder_of_stored
    {head : Expr}
    {args : List Expr}
    (stored : table.construct head args = .ok (.apply head args)) :
    Transform.commutativeOrder?.result table (.apply head args) =
      .apply head args :=
  or_self_iff.mp (result_commutativeOrder_of_construct stored)

end Visited

/-- The rules of arithmetic wait for its operators. -/
theorem Transform.arithmetic_eq_none_of_ne
    {head : Expr}
    (notSum : head ≠ Operator.add)
    (notDifference : head ≠ Operator.sub)
    (notProduct : head ≠ Operator.mul)
    (notQuotient : head ≠ Operator.div)
    (notPower : head ≠ Operator.pow)
    (table : SymbolTable)
    (builder : Builder)
    (lhs rhs : Expr) :
    let node := Expr.apply head [lhs, rhs]
    convertPowers? table builder node = none ∧
      removeSubtraction? table builder node = none ∧
        mulOverAdd? table builder node = none ∧
          cancelDivision? table builder node = none ∧
            foldAdditions? table builder node = none := by
  simp [convertPowers?, removeSubtraction?, mulOverAdd?, distribute?,
    cancelDivision?, foldAdditions?, isApplyOf, isBinaryOf, operands?, notSum,
    notDifference, notProduct, notQuotient, notPower]

/-! ## Operators that are not standard -/

section NotStandard

variable {name : String}

theorem symbol_ne_of_notStandard
    {other : String}
    (notStandard : standardSpec? name = none)
    (known : (standardSpec? other).isSome = true) :
    symbol name ≠ symbol other := by
  intro same
  cases same
  rw [notStandard] at known
  cases known

/-- The rules for particular operators wait at an application to two of any other operator. -/
theorem Transform.eq_none_of_notStandard
    (notStandard : standardSpec? name = none)
    (table : SymbolTable)
    (builder : Builder)
    (lhs rhs : Expr) :
    let node := Expr.apply (.symbol name) [lhs, rhs]
    convertPowers? table builder node = none ∧
      removeSubtraction? table builder node = none ∧
        mulOverAdd? table builder node = none ∧
          andOverOr? table builder node = none ∧
            cancelDivision? table builder node = none ∧
              foldAdditions? table builder node = none := by
  have differs
      {other : String}
      (known : (standardSpec? other).isSome = true) :
      symbol name ≠ symbol other :=
    symbol_ne_of_notStandard notStandard known
  obtain ⟨powers, subtraction, distribution, division, addition⟩ :=
    arithmetic_eq_none_of_ne (differs rfl) (differs rfl) (differs rfl)
      (differs rfl) (differs rfl) table builder lhs rhs
  have notConjunction : symbol name ≠ Operator.bitAnd := differs rfl
  have conjunction :
      andOverOr? table builder (.apply (.symbol name) [lhs, rhs]) = none := by
    simp [andOverOr?, distribute?, operands?, notConjunction]
  exact ⟨powers, subtraction, distribution, conjunction, division, addition⟩

theorem Transform.bitIdentities?_eq_none_of_notStandard
    (notStandard : standardSpec? name = none)
    (table : SymbolTable)
    (builder : Builder)
    (args : List Expr) :
    bitIdentities? table builder (.apply (.symbol name) args) = none := by
  have differs
      {other : String}
      (known : (standardSpec? other).isSome = true) :
      symbol name ≠ symbol other :=
    symbol_ne_of_notStandard notStandard known
  unfold bitIdentities?
  simp only [differs (show (standardSpec? "^").isSome = true from rfl),
    differs (show (standardSpec? "&").isSome = true from rfl),
    differs (show (standardSpec? "|").isSome = true from rfl),
    differs (show (standardSpec? ">>").isSome = true from rfl),
    differs (show (standardSpec? "<<").isSome = true from rfl), if_false]
  split <;> rfl

end NotStandard

/-! ## Walks -/

/-- What a pass with the catalogue does at a node. -/
def visit
    (table : SymbolTable)
    (node : Expr) : Except ExprError (Option Expr) :=
  pure (transformAll? (catalogue.map (·.transform? table table.construct)) node)

section Walk

variable {table : SymbolTable} {node op lhs rhs : Expr}

theorem walk_leaf
    (isLeaf : node.isLeaf = true) :
    node.walk table.construct (visit table) = .ok none := by
  have rules
      {rules : List Rule}
      (fromCatalogue : rules ⊆ catalogue) :
      transformAll? (rules.map (·.transform? table table.construct)) node =
        none := by
    induction rules with
    | nil =>
        rfl
    | cons rule rest inductionHypothesis =>
        obtain ⟨member, restFromCatalogue⟩ := List.cons_subset.mp fromCatalogue
        rw [List.map_cons, transformAll?,
          transform?_of_isLeaf member table table.construct isLeaf]
        exact inductionHypothesis restFromCatalogue
  cases node with
  | apply head args =>
      cases isLeaf
  | _ =>
      rw [walk, visit, rules (List.Subset.refl _)]
      · rfl
      · intro head args isApply
        cases isApply

/-- What a walk makes of an application of which both operands stayed as they are. -/
theorem exists_walk_kept
    (isLeaf : op.isLeaf = true)
    (lhsWalked : lhs.walk table.construct (visit table) = .ok none)
    (rhsWalked : rhs.walk table.construct (visit table) = .ok none) :
    ∃ replaced,
      (Expr.apply op [lhs, rhs]).walk table.construct (visit table) =
          .ok replaced ∧
        replaced.getD (.apply op [lhs, rhs]) =
          visited table catalogue (.apply op [lhs, rhs]) := by
  have walked :
      (Expr.apply op [lhs, rhs]).walk table.construct (visit table) =
        .ok (transformAll? (catalogue.map (·.transform? table table.construct))
          (.apply op [lhs, rhs]) <|> none) := by
    simp only [walk, walk_leaf isLeaf, walkArgs_pair lhsWalked rhsWalked,
      ok_bind, rebuild]
    rfl
  refine ⟨_, walked, ?_⟩
  rw [getD_orElse]
  exact getD_transformAll? table catalogue _

/-- What a walk makes of an application of which an operand was replaced. -/
theorem exists_walk_rebuilt
    (isLeaf : op.isLeaf = true)
    {lhs' rhs' : Option Expr}
    (lhsWalked : lhs.walk table.construct (visit table) = .ok lhs')
    (rhsWalked : rhs.walk table.construct (visit table) = .ok rhs')
    (touched : (lhs'.isNone && rhs'.isNone) = false)
    (built : table.construct op [lhs'.getD lhs, rhs'.getD rhs] = .ok node) :
    ∃ replaced,
      (Expr.apply op [lhs, rhs]).walk table.construct (visit table) =
          .ok replaced ∧
        replaced.getD (.apply op [lhs, rhs]) =
          visited table catalogue node := by
  have walked :
      (Expr.apply op [lhs, rhs]).walk table.construct (visit table) =
        .ok (transformAll? (catalogue.map (·.transform? table table.construct))
          node <|> some node) := by
    simp only [walk, walk_leaf isLeaf, walkArgs_pair lhsWalked rhsWalked,
      touched, ok_bind, rebuild, Option.isNone_some, Bool.and_false,
      Bool.false_eq_true, if_false, Option.getD_none, Option.getD_some, built]
    rfl
  refine ⟨_, walked, ?_⟩
  rw [getD_orElse]
  exact getD_transformAll? table catalogue _

end Walk

/-! ## Passes -/

section Pass

variable {table : SymbolTable} {expr next op lhs rhs lhs' rhs' built : Expr}

theorem pass_of_walk
    {replaced : Option Expr}
    (walked : expr.walk table.construct (visit table) = .ok replaced) :
    pass table catalogue expr = .ok (replaced.getD expr) := by
  change (expr.walk table.construct (visit table) >>= _) = _
  rw [walked]
  rfl

theorem exists_walk_of_pass
    (passed : pass table catalogue expr = .ok next) :
    ∃ replaced,
      expr.walk table.construct (visit table) = .ok replaced ∧
        replaced.getD expr = next := by
  obtain ⟨replaced, walked, finished⟩ := exists_of_bind_eq_ok passed
  exact ⟨replaced, walked, Except.ok.inj finished⟩

/-- What a pass makes of an expression; the expression itself if the pass fails. -/
def passed
    (table : SymbolTable)
    (expr : Expr) : Expr :=
  (pass table catalogue expr).toOption.getD expr

theorem passed_eq
    (passes : pass table catalogue expr = .ok next) :
    passed table expr = next := by
  rw [passed, passes]
  rfl

/-- Leaves are fixed points. -/
theorem pass_leaf
    (isLeaf : expr.isLeaf = true) :
    pass table catalogue expr = .ok expr :=
  pass_of_walk (walk_leaf isLeaf)

/--
A pass over an application visits the application to what the pass makes of both operands, as it is or
built anew.
-/
theorem exists_pass_pair
    (isLeaf : op.isLeaf = true)
    (lhsPassed : pass table catalogue lhs = .ok lhs')
    (rhsPassed : pass table catalogue rhs = .ok rhs')
    (construction : table.construct op [lhs', rhs'] = .ok built) :
    ∃ node,
      (node = .apply op [lhs', rhs'] ∨ node = built) ∧
        pass table catalogue (.apply op [lhs, rhs]) =
          .ok (visited table catalogue node) := by
  obtain ⟨lhsReplaced, lhsWalked, rfl⟩ := exists_walk_of_pass lhsPassed
  obtain ⟨rhsReplaced, rhsWalked, rfl⟩ := exists_walk_of_pass rhsPassed
  cases untouched : lhsReplaced.isNone && rhsReplaced.isNone with
  | true =>
      rw [Bool.and_eq_true, Option.isNone_iff_eq_none, Option.isNone_iff_eq_none]
        at untouched
      obtain ⟨rfl, rfl⟩ := untouched
      obtain ⟨replaced, walked, same⟩ :=
        exists_walk_kept isLeaf lhsWalked rhsWalked
      exact ⟨_, .inl rfl, same ▸ pass_of_walk walked⟩
  | false =>
      obtain ⟨replaced, walked, same⟩ :=
        exists_walk_rebuilt isLeaf lhsWalked rhsWalked untouched construction
      exact ⟨_, .inr rfl, same ▸ pass_of_walk walked⟩

end Pass

/-! ## Fixed points -/

section FixedPoint

variable {table : SymbolTable} {workspace : Workspace} {expr result : Expr}

/-- Passes end with an expression that one more pass leaves alone. -/
theorem pass_of_settle?
    {step : Expr → Except ExprError Expr}
    {done ceiling : Nat}
    {settled : Expr × Nat}
    (outcome : settle? step done expr ceiling = .ok (some settled)) :
    step settled.1 = .ok settled.1 := by
  induction ceiling generalizing expr done with
  | zero =>
      cases outcome
  | succ ceiling inductionHypothesis =>
      obtain ⟨next, passed, outcome⟩ := exists_of_bind_eq_ok outcome
      split at outcome
      · rename_i fixed
        cases outcome
        rw [fixed] at passed ⊢
        exact passed
      · exact inductionHypothesis outcome

/-- What simplification returns is what the passes end with. -/
theorem exists_settle?_of_simplify
    (simplified : workspace.simplify expr = .ok result) :
    ∃ passes,
      settle? (pass workspace.table catalogue) 0 expr workspace.ceiling =
        .ok (some (result, passes)) := by
  obtain ⟨passes, fixed⟩ := exists_fixedPoint_of_simplify simplified
  exact ⟨passes, settle?_of_fixedPoint fixed⟩

/-- What simplification returns is a fixed point. -/
theorem pass_of_simplify
    (simplified : workspace.simplify expr = .ok result) :
    pass workspace.table catalogue result = .ok result := by
  obtain ⟨passes, outcome⟩ := exists_settle?_of_simplify simplified
  exact pass_of_settle? outcome

/-- Simplification returns what the passes end with. -/
theorem simplify_of_settle?
    {settled : Expr × Nat}
    (outcome :
      settle? (pass workspace.table catalogue) 0 expr workspace.ceiling =
        .ok (some settled)) :
    workspace.simplify expr = .ok settled.1 := by
  unfold Workspace.simplify fixedPoint
  rw [outcome]
  rfl

/-- Simplification fails if the passes do not end in time. -/
theorem simplify_of_settle?_eq_none
    (outcome :
      settle? (pass workspace.table catalogue) 0 expr workspace.ceiling =
        .ok none) :
    workspace.simplify expr = .error (.nonTerminating workspace.ceiling) := by
  unfold Workspace.simplify fixedPoint
  rw [outcome]
  rfl

/-- A pass that leads to a fixed point is all that simplification needs, besides the one that shows it. -/
theorem simplify_of_pass
    (enough : 2 ≤ workspace.ceiling)
    (passed : pass workspace.table catalogue expr = .ok result)
    (fixed : pass workspace.table catalogue result = .ok result) :
    workspace.simplify expr = .ok result := by
  obtain ⟨ceiling, sameCeiling⟩ : ∃ ceiling, workspace.ceiling = ceiling + 2 :=
    ⟨workspace.ceiling - 2, by omega⟩
  obtain ⟨passes, outcome⟩ :
      ∃ passes,
        settle? (pass workspace.table catalogue) 0 expr workspace.ceiling =
          .ok (some (result, passes)) := by
    rw [sameCeiling, settle?, passed, ok_bind]
    split
    · exact ⟨_, rfl⟩
    · rw [settle?, fixed, ok_bind, if_pos rfl]
      exact ⟨_, rfl⟩
  exact simplify_of_settle? outcome

/-- Applying a head simplifies the raw term if it is no leaf. -/
theorem apply_eq_simplify
    {head raw : Expr}
    {args : List Expr}
    (construction : workspace.table.construct head args = .ok raw)
    (notLeaf : raw.isLeaf = false) :
    workspace.apply head args = workspace.simplify raw := by
  rw [Workspace.apply, construction, ok_bind, notLeaf]
  rfl

end FixedPoint

end SymbolicAlgebra
