import SymbolicAlgebra.Proofs.Chain.Nested
import SymbolicAlgebra.Proofs.Linear.Construction
import SymbolicAlgebra.Proofs.Pair
import SymbolicAlgebra.Proofs.Regrouping
import SymbolicAlgebra.Proofs.Rejection

/-!
# Neutral operands

An operator that is applied to an expression and to a neutral literal gives the expression back, provided
that the literal stands on the side on which it is neutral once the operands are in order.  A commutative
operator puts a literal number first, so that its left identity always vanishes, while a right identity is
looked for in vain unless it is neutral on both sides, or regrouping a chain drops it.
-/

namespace SymbolicAlgebra

open SymbolicAlgebra.Expr

/-! ## Simplified expressions -/

/-- An expression that its head stores and that passes leave alone, like its head and its arguments. -/
structure Expr.IsSimplified
    (table : SymbolTable)
    (expr : Expr) : Prop where
  fixed :
    pass table catalogue expr = .ok expr
  headFixed :
    pass table catalogue expr.head = .ok expr.head
  argsFixed :
    ∀ arg ∈ expr.args, pass table catalogue arg = .ok arg
  stored :
    expr.isLeaf = false → table.construct expr.head expr.args = .ok expr

section Pass

variable {table : SymbolTable} {workspace : Workspace} {head expr result : Expr}
  {args given : List Expr}

/-- A walk through fixed points ends with the same arguments. -/
theorem exists_walkArgs_of_fixed
    (argsFixed : ∀ arg ∈ args, pass table catalogue arg = .ok arg) :
    ∃ args',
      walkArgs table.construct (visit table) args = .ok args' ∧
        args'.getD args = args := by
  cases walked : walkArgs table.construct (visit table) args with
  | error error =>
      obtain ⟨arg, member, fails⟩ := exists_of_walkArgs_eq_error walked
      obtain ⟨replaced, succeeds, -⟩ := exists_walk_of_pass (argsFixed arg member)
      rw [fails] at succeeds
      cases succeeds
  | ok args' =>
      exact ⟨args', rfl,
        (eq_of_forall₂_passes argsFixed (forall₂_passes_of_walkArgs walked)).symm⟩

/-- A pass over a stored application of which the parts are fixed points visits the application. -/
theorem pass_of_parts
    (headFixed : pass table catalogue head = .ok head)
    (argsFixed : ∀ arg ∈ args, pass table catalogue arg = .ok arg)
    (stored : table.construct head args = .ok (.apply head args)) :
    pass table catalogue (.apply head args) =
      .ok (visited table catalogue (.apply head args)) := by
  obtain ⟨head', headWalked, sameHead⟩ := exists_walk_of_pass headFixed
  obtain ⟨args', argsWalked, sameArgs⟩ := exists_walkArgs_of_fixed argsFixed
  obtain ⟨rebuilt, builtAgain, sameNode⟩ :
      ∃ rebuilt,
        rebuild table.construct head args head' args' = .ok rebuilt ∧
          rebuilt.getD (.apply head args) = .apply head args := by
    unfold rebuild
    split
    · exact ⟨none, rfl, rfl⟩
    · rw [sameHead, sameArgs, stored]
      exact ⟨some (.apply head args), rfl, rfl⟩
  have walked :
      (Expr.apply head args).walk table.construct (visit table) =
        .ok (transformAll? (catalogue.map (·.transform? table table.construct))
          (.apply head args) <|> rebuilt) := by
    simp only [walk, headWalked, argsWalked, builtAgain, ok_bind, sameNode]
    rfl
  rw [pass_of_walk walked, getD_orElse, sameNode, getD_transformAll?]

/-- Nothing happens at a simplified expression. -/
theorem Expr.IsSimplified.visited_eq
    (simplified : expr.IsSimplified table) :
    visited table catalogue expr = expr := by
  cases expr with
  | apply head args =>
      have passes :=
        pass_of_parts simplified.headFixed simplified.argsFixed
          (simplified.stored rfl)
      exact Except.ok.inj (passes.symm.trans simplified.fixed)
  | _ =>
      exact visited_leaf rfl

/-- After the identities are dropped, nothing else happens at a simplified expression. -/
theorem Expr.IsSimplified.visited_afterStripping
    (simplified : expr.IsSimplified table) :
    visited table (catalogue.drop 2)
        (Transform.result Transform.stripIdentities? table expr) =
      expr := by
  have inOrder : Transform.commutativeOrder?.result table expr = expr := by
    cases expr with
    | apply head args =>
        exact result_commutativeOrder_of_stored (simplified.stored rfl)
    | _ =>
        rfl
  have visits := simplified.visited_eq
  rw [catalogue, visited_cons, visited_cons, inOrder] at visits
  exact visits

end Pass

/-! ## Dropping a neutral operand -/

section Neutral

variable {table : SymbolTable} {workspace : Workspace} {spec : OperatorSpec}
  {op expr unit lhs rhs : Expr}

theorem isLeaf_of_specOf?
    (found : table.specOf? op = some spec) :
    op.isLeaf = true := by
  cases op with
  | symbol name =>
      rfl
  | _ =>
      cases found

/-- An operand next to a literal is stored with it. -/
theorem construct_pair
    (found : table.specOf? op = some spec)
    (notLiterals : (lhs.isNumber && rhs.isNumber) = false)
    (lhsUnabsorbed : spec.zero ≠ some lhs)
    (rhsUnabsorbed : spec.zero ≠ some rhs) :
    table.construct op [lhs, rhs] =
      .ok (.apply op (spec.ordered op [lhs, rhs])) :=
  construct_stored found (List.cons_ne_nil _ _)
    (spec.evaluateLiterals?_pair _ notLiterals)
    (OperatorSpec.absorbed?_pair_eq_none lhsUnabsorbed rhsUnabsorbed)

/-- One of two operands is neutral on its side, and the other one is left when it is dropped. -/
inductive Drops
    (spec : OperatorSpec)
    (expr : Expr) : (lhs rhs : Expr) → Prop where
  | left
      {unit : Expr}
      (neutral : spec.effectiveLeftIdentity = some unit) :
      Drops spec expr unit expr
  | right
      {unit : Expr}
      (neutral : spec.effectiveRightIdentity = some unit)
      (notNeutral : spec.effectiveLeftIdentity ≠ some expr) :
      Drops spec expr expr unit

theorem Drops.result_stripIdentities
    (drops : Drops spec expr lhs rhs)
    (found : table.specOf? op = some spec) :
    Transform.result Transform.stripIdentities? table (.apply op [lhs, rhs]) =
      Transform.result Transform.stripIdentities? table expr := by
  cases drops with
  | left neutral =>
      simp [Transform.result, Transform.stripIdentities?, found, neutral]
  | right neutral notNeutral =>
      simp [Transform.result, Transform.stripIdentities?, found, neutral,
        notNeutral]

/-- Two operands in the order in which they are stored stay in this order. -/
theorem of_ordered_pair
    {first second : Expr}
    (sorted : spec.ordered op [first, second] = [lhs, rhs]) :
    spec.ordered op [lhs, rhs] = [lhs, rhs] ∧ IsPair lhs rhs first second := by
  unfold OperatorSpec.ordered at sorted ⊢
  by_cases commutative : spec.commutative = true
  · rw [if_pos commutative] at sorted ⊢
    obtain ⟨lhs', rhs', sorted', inOrder, isPair⟩ := exists_inOrder op first second
    rw [sorted'] at sorted
    cases sorted
    exact ⟨sortBy_pair inOrder, isPair⟩
  · rw [if_neg commutative] at sorted ⊢
    cases sorted
    exact ⟨rfl, .inl ⟨rfl, rfl⟩⟩

/-- A simplified expression and a leaf that may be neutral beside it; neither is absorbing. -/
structure Meets
    (table : SymbolTable)
    (spec : OperatorSpec)
    (expr unit : Expr) : Prop where
  simplified :
    expr.IsSimplified table
  notLiteral :
    expr.isNumber = false
  notNeutral :
    spec.effectiveLeftIdentity ≠ some expr ∧ spec.effectiveRightIdentity ≠ some expr
  exprUnabsorbed :
    spec.zero ≠ some expr
  isLeaf :
    unit.isLeaf = true
  unitUnabsorbed :
    spec.zero ≠ some unit

namespace Meets

variable {first second : Expr}

/-- The operator stores the expression and the leaf, however they are given. -/
theorem construct_eq
    (meets : Meets table spec expr unit)
    (found : table.specOf? op = some spec)
    (isPair : IsPair first second unit expr) :
    table.construct op [first, second] =
      .ok (.apply op (spec.ordered op [first, second])) := by
  rcases isPair with ⟨rfl, rfl⟩ | ⟨rfl, rfl⟩
  · exact construct_pair found (by simp [meets.notLiteral]) meets.unitUnabsorbed
      meets.exprUnabsorbed
  · exact construct_pair found (by simp [meets.notLiteral]) meets.exprUnabsorbed
      meets.unitUnabsorbed

/-- The stored application is stored as it is. -/
theorem construct_ordered
    (meets : Meets table spec expr unit)
    (found : table.specOf? op = some spec)
    (isPair : IsPair first second unit expr)
    (sorted : spec.ordered op [first, second] = [lhs, rhs]) :
    table.construct op [lhs, rhs] = .ok (.apply op [lhs, rhs]) := by
  obtain ⟨ordered, ⟨rfl, rfl⟩ | ⟨rfl, rfl⟩⟩ := of_ordered_pair sorted
  · rw [meets.construct_eq found isPair, ordered]
  · rw [meets.construct_eq found isPair.symm.swap.symm, ordered]

/-- A pass over the stored application visits it and nothing else. -/
theorem pass_ordered
    (meets : Meets table spec expr unit)
    (found : table.specOf? op = some spec)
    (isPair : IsPair first second unit expr)
    (sorted : spec.ordered op [first, second] = [lhs, rhs]) :
    pass table catalogue (.apply op [lhs, rhs]) =
      .ok (visited table catalogue (.apply op [lhs, rhs])) := by
  have argsFixed :
      ∀ arg ∈ [lhs, rhs], pass table catalogue arg = .ok arg := by
    have fixed :=
      isPair.forall (fun arg => pass table catalogue arg = .ok arg)
        (pass_leaf meets.isLeaf) meets.simplified.fixed
    obtain ⟨-, ⟨rfl, rfl⟩ | ⟨rfl, rfl⟩⟩ := of_ordered_pair sorted
    · simpa using fixed
    · simpa using fixed.symm
  exact pass_of_parts (pass_leaf (isLeaf_of_specOf? found)) argsFixed
    (meets.construct_ordered found isPair sorted)

/-- Applying the operator becomes what is made of the stored application, if that is a fixed point. -/
theorem apply_eq
    (meets : Meets workspace.table spec expr unit)
    (enough : 2 ≤ workspace.ceiling)
    (found : workspace.table.specOf? op = some spec)
    (isPair : IsPair first second unit expr)
    (sorted : spec.ordered op [first, second] = [lhs, rhs])
    {result : Expr}
    (visits :
      visited workspace.table catalogue (.apply op [lhs, rhs]) = result)
    (fixed : pass workspace.table catalogue result = .ok result) :
    workspace.apply op [first, second] = .ok result := by
  have constructed := meets.construct_eq found isPair
  rw [sorted] at constructed
  have passes := meets.pass_ordered found isPair sorted
  rw [visits] at passes
  rw [apply_eq_simplify constructed rfl]
  exact simplify_of_pass enough passes fixed

/-- The leaf vanishes if it is neutral on the side where it is stored. -/
theorem apply_eq_of_drops
    (meets : Meets workspace.table spec expr unit)
    (enough : 2 ≤ workspace.ceiling)
    (found : workspace.table.specOf? op = some spec)
    (isPair : IsPair first second unit expr)
    (sorted : spec.ordered op [first, second] = [lhs, rhs])
    (drops : Drops spec expr lhs rhs) :
    workspace.apply op [first, second] = .ok expr := by
  have stored := meets.construct_ordered found isPair sorted
  refine meets.apply_eq enough found isPair sorted ?_ meets.simplified.fixed
  rw [catalogue, visited_cons, visited_cons,
    result_commutativeOrder_of_stored stored, drops.result_stripIdentities found]
  exact meets.simplified.visited_afterStripping

end Meets

/-! ## Operators that are not standard -/

/-- The standard operators that are commutative have one neutral value for both sides, or none. -/
theorem effectiveIdentity_eq_of_standardSpec?
    {name : String}
    (standard : standardSpec? name = some spec)
    (commutative : spec.commutative = true) :
    spec.effectiveLeftIdentity = spec.effectiveRightIdentity := by
  unfold standardSpec? at standard
  split at standard <;> cases standard <;>
    first
    | rfl
    | cases commutative

theorem standardSpec?_eq_none_of_oneSided
    {name : String}
    (found : table.specOf? (.symbol name) = some spec)
    (commutative : spec.commutative = true)
    (oneSided : spec.effectiveLeftIdentity ≠ spec.effectiveRightIdentity) :
    standardSpec? name = none := by
  cases standard : standardSpec? name with
  | none =>
      rfl
  | some recorded =>
      obtain rfl : recorded = spec := by
        simpa [SymbolTable.specOf?, SymbolTable.spec?, SymbolTable.lookup?, standard]
          using found
      exact (oneSided
        (effectiveIdentity_eq_of_standardSpec? standard commutative)).elim

/-- An application to two of an operator that is not standard is left to the rules for all operators. -/
theorem visited_of_notStandard
    {name : String}
    (notStandard : standardSpec? name = none)
    (stored :
      table.construct (.symbol name) [lhs, rhs] =
        .ok (.apply (.symbol name) [lhs, rhs]))
    (notLiterals : (lhs.isNumber && rhs.isNumber) = false)
    (strips :
      Transform.stripIdentities? table table.construct
        (.apply (.symbol name) [lhs, rhs]) = none)
    (absorbs :
      Transform.absorbZero? table table.construct
        (.apply (.symbol name) [lhs, rhs]) = none) :
    visited table catalogue (.apply (.symbol name) [lhs, rhs]) =
      Transform.bitIdentities?.result table
        (Transform.reassociate?.result table (.apply (.symbol name) [lhs, rhs])) := by
  obtain ⟨powers, subtraction, distribution, conjunction, division, addition⟩ :=
    Transform.eq_none_of_notStandard notStandard table table.construct lhs rhs
  have evaluates :
      Transform.evaluateNumeric? table table.construct
        (.apply (.symbol name) [lhs, rhs]) = none :=
    Transform.evaluateNumeric?_pair table.construct notLiterals
  simp only [catalogue, visited_cons, result_commutativeOrder_of_stored stored,
    result_of_none strips, result_of_none evaluates, result_of_none powers,
    result_of_none subtraction, result_of_none distribution,
    result_of_none conjunction, result_of_none division, result_of_none addition,
    result_of_none absorbs]
  rfl

namespace Meets

/-- A literal number is stored before an expression. -/
theorem ordered_number
    (meets : Meets table spec expr unit)
    (op : Expr)
    (isNumber : unit.isNumber = true) :
    spec.ordered op [unit, expr] = [unit, expr] ∧
      (spec.commutative = true → spec.ordered op [expr, unit] = [unit, expr]) := by
  cases unit with
  | number value =>
      have left := @sortBy_number_left op expr value meets.notLiteral
      have right := @sortBy_number_right op expr value meets.notLiteral
      unfold OperatorSpec.ordered
      refine ⟨?_, fun commutative => by rw [if_pos commutative, right]⟩
      rw [left, ite_self]
  | _ =>
      cases isNumber

section OneSided

variable {name : String}

/-- A literal that is neutral on the right only is not dropped on the left: what happens is regrouping. -/
theorem visited_oneSided
    (meets : Meets table spec expr unit)
    (found : table.specOf? (.symbol name) = some spec)
    (commutative : spec.commutative = true)
    (isNumber : unit.isNumber = true)
    (neutral : spec.effectiveRightIdentity = some unit)
    (oneSided : spec.effectiveLeftIdentity ≠ some unit) :
    visited table catalogue (.apply (.symbol name) [unit, expr]) =
      Transform.bitIdentities?.result table
        (Transform.reassociate?.result table
          (.apply (.symbol name) [unit, expr])) := by
  obtain ⟨sorted, -⟩ := meets.ordered_number (.symbol name) isNumber
  have absorbs :
      Transform.absorbZero? table table.construct
        (.apply (.symbol name) [unit, expr]) = none := by
    simp [Transform.absorbZero?, found,
      OperatorSpec.absorbed?_pair_eq_none meets.unitUnabsorbed meets.exprUnabsorbed]
  exact visited_of_notStandard
    (standardSpec?_eq_none_of_oneSided found commutative (neutral ▸ oneSided))
    (meets.construct_ordered found (.inl ⟨rfl, rfl⟩) sorted)
    (by simp [meets.notLiteral])
    (Transform.stripIdentities?_pair found oneSided meets.notNeutral.2) absorbs

/-- A literal that is neutral on the right only stays, put first, if the operator does not regroup. -/
theorem apply_kept
    (meets : Meets workspace.table spec expr unit)
    (enough : 2 ≤ workspace.ceiling)
    (found : workspace.table.specOf? (.symbol name) = some spec)
    (commutative : spec.commutative = true)
    (notAssociative : spec.associative = false)
    (isNumber : unit.isNumber = true)
    (neutral : spec.effectiveRightIdentity = some unit)
    (oneSided : spec.effectiveLeftIdentity ≠ some unit) :
    workspace.apply (.symbol name) [expr, unit] =
      .ok (.apply (.symbol name) [unit, expr]) := by
  have visits :=
    meets.visited_oneSided found commutative isNumber neutral oneSided
  have waits :
      Transform.reassociate? workspace.table workspace.table.construct
        (.apply (.symbol name) [unit, expr]) = none := by
    simp [Transform.reassociate?, found, notAssociative]
  have notStandard :=
    standardSpec?_eq_none_of_oneSided found commutative (neutral ▸ oneSided)
  rw [result_of_none waits,
    result_of_none
      (Transform.bitIdentities?_eq_none_of_notStandard notStandard _ _ _)]
    at visits
  obtain ⟨-, sorted⟩ := meets.ordered_number (.symbol name) isNumber
  have passes := meets.pass_ordered found (.inr ⟨rfl, rfl⟩) (sorted commutative)
  rw [visits] at passes
  exact meets.apply_eq enough found (.inr ⟨rfl, rfl⟩) (sorted commutative) visits
    passes

/-- Regrouping drops a literal that is neutral on the right only. -/
theorem apply_regrouped
    (meets : Meets workspace.table spec expr unit)
    (enough : 2 ≤ workspace.ceiling)
    (found : workspace.table.specOf? (.symbol name) = some spec)
    (commutative : spec.commutative = true)
    (associative : spec.associative = true)
    (isNumber : unit.isNumber = true)
    (neutral : spec.effectiveRightIdentity = some unit)
    (oneSided : spec.effectiveLeftIdentity ≠ some unit)
    (single : expr.isApplyOf (.symbol name) = false)
    (kept : Transform.bitIdentities?.result workspace.table expr = expr) :
    workspace.apply (.symbol name) [expr, unit] = .ok expr := by
  have unitSingle : unit.isApplyOf (.symbol name) = false := by
    cases unit with
    | apply head args =>
        cases isNumber
    | _ =>
        rfl
  have flat :
      Chain.flatten (.symbol name) (.apply (.symbol name) [unit, expr]) =
        [unit, expr] := by
    rw [Chain.flatten_pair, Chain.flatten_of_not_isApplyOf unitSingle,
      Chain.flatten_of_not_isApplyOf single]
    rfl
  have regroups :
      Transform.regrouping? spec (.symbol name)
          (.apply (.symbol name) [unit, expr]) =
        some (.rebuilt [expr]) := by
    have literals :
        Transform.literals? spec (.symbol name)
          (.apply (.symbol name) [unit, expr]) = some [unit] := by
      simp [Transform.literals?, flat, isNumber, meets.notLiteral,
        Transform.foldedConstants?]
    have others :
        Transform.nonliterals (.symbol name)
          (.apply (.symbol name) [unit, expr]) = [expr] := by
      simp [Transform.nonliterals, flat, isNumber, meets.notLiteral]
    have unabsorbed : Transform.absorbing? spec [unit] = none :=
      Transform.absorbing?_eq_none fun zero declared same =>
        meets.unitUnabsorbed (List.singleton_inj.mp same ▸ declared)
    have dropped : Transform.keptLiterals spec [expr] [unit] = [] := by
      simp [Transform.keptLiterals, Transform.isIdentity, neutral]
    have changed : sortCanonically [expr] ≠ [unit, expr] := by
      simp [sortCanonically, sortBy, insertDescending]
    rw [Transform.regrouping?_of_literals? literals unabsorbed, others, dropped,
      Transform.rebuilding?, flat, if_neg fun same => changed same.1]
    rfl
  have reassociates :
      Transform.reassociate? workspace.table workspace.table.construct
        (.apply (.symbol name) [unit, expr]) = some expr := by
    rw [Transform.reassociate?_eq found associative commutative, regroups]
    rfl
  have visits :=
    meets.visited_oneSided found commutative isNumber neutral oneSided
  rw [result_of_some reassociates, kept] at visits
  obtain ⟨-, sorted⟩ := meets.ordered_number (.symbol name) isNumber
  exact meets.apply_eq enough found (.inr ⟨rfl, rfl⟩) (sorted commutative) visits
    meets.simplified.fixed

end OneSided

/-- On the left a neutral leaf vanishes, unless a commutative operator stores it behind the expression. -/
theorem apply_left
    (meets : Meets workspace.table spec expr unit)
    (enough : 2 ≤ workspace.ceiling)
    (found : workspace.table.specOf? op = some spec)
    (neutral : spec.effectiveLeftIdentity = some unit)
    (reached :
      spec.commutative = false ∨ unit.isNumber = true ∨ InOrder op unit expr ∨
        spec.effectiveRightIdentity = some unit) :
    workspace.apply op [unit, expr] = .ok expr := by
  have left (sorted : spec.ordered op [unit, expr] = [unit, expr]) :
      workspace.apply op [unit, expr] = .ok expr :=
    meets.apply_eq_of_drops enough found (.inl ⟨rfl, rfl⟩) sorted (.left neutral)
  rcases reached with plain | isNumber | inOrder | twoSided
  · exact left (by simp [OperatorSpec.ordered, plain])
  · exact left (meets.ordered_number op isNumber).1
  · exact left (by rw [OperatorSpec.ordered, sortBy_pair inOrder, ite_self])
  · rcases spec.ordered_pair op unit expr with sorted | swapped
    · exact left sorted
    · exact meets.apply_eq_of_drops enough found (.inl ⟨rfl, rfl⟩) swapped
        (.right twoSided meets.notNeutral.1)

/-- On the right a neutral leaf vanishes, unless a commutative operator stores it in front of the expression. -/
theorem apply_right
    (meets : Meets workspace.table spec expr unit)
    (enough : 2 ≤ workspace.ceiling)
    (found : workspace.table.specOf? op = some spec)
    (neutral : spec.effectiveRightIdentity = some unit)
    (reached :
      spec.commutative = false ∨ InOrder op expr unit ∨
        spec.effectiveLeftIdentity = some unit) :
    workspace.apply op [expr, unit] = .ok expr := by
  have right (sorted : spec.ordered op [expr, unit] = [expr, unit]) :
      workspace.apply op [expr, unit] = .ok expr :=
    meets.apply_eq_of_drops enough found (.inr ⟨rfl, rfl⟩) sorted
      (.right neutral meets.notNeutral.1)
  rcases reached with plain | inOrder | twoSided
  · exact right (by simp [OperatorSpec.ordered, plain])
  · exact right (by rw [OperatorSpec.ordered, sortBy_pair inOrder, ite_self])
  · rcases spec.ordered_pair op expr unit with sorted | swapped
    · exact right sorted
    · exact meets.apply_eq_of_drops enough found (.inr ⟨rfl, rfl⟩) swapped
        (.left twoSided)

end Meets

/--
Where declared identities vanish.

A left identity vanishes unless a commutative operator stores it behind the expression, which happens to no
literal number.  A right identity vanishes unless a commutative operator stores it in front of the expression
and it is not neutral there as well.  A literal number is always stored in front: then it stays there, unless
the operator regroups.
-/
theorem apply_neutral
    {name : String}
    (meets : Meets workspace.table spec expr unit)
    (enough : 2 ≤ workspace.ceiling)
    (found : workspace.table.specOf? (.symbol name) = some spec) :
    (spec.effectiveLeftIdentity = some unit →
        (spec.commutative = false ∨ unit.isNumber = true ∨
            InOrder (.symbol name) unit expr ∨
              spec.effectiveRightIdentity = some unit) →
          workspace.apply (.symbol name) [unit, expr] = .ok expr) ∧
      (spec.effectiveRightIdentity = some unit →
          (spec.commutative = false ∨ InOrder (.symbol name) expr unit ∨
              spec.effectiveLeftIdentity = some unit) →
            workspace.apply (.symbol name) [expr, unit] = .ok expr) ∧
        (spec.effectiveRightIdentity = some unit →
            spec.commutative = true → unit.isNumber = true →
              spec.effectiveLeftIdentity ≠ some unit →
          (spec.associative = false →
              workspace.apply (.symbol name) [expr, unit] =
                .ok (.apply (.symbol name) [unit, expr])) ∧
            (spec.associative = true → expr.isApplyOf (.symbol name) = false →
                Transform.bitIdentities?.result workspace.table expr = expr →
              workspace.apply (.symbol name) [expr, unit] = .ok expr)) := by
  refine ⟨meets.apply_left enough found, meets.apply_right enough found, ?_⟩
  intro neutral commutative isNumber oneSided
  constructor
  · intro notAssociative
    exact meets.apply_kept enough found commutative notAssociative isNumber neutral
      oneSided
  · intro associative single kept
    exact meets.apply_regrouped enough found commutative associative isNumber neutral
      oneSided single kept

end Neutral

/-- An operator that is neutral for one on both sides of `f(x)`, and one for which regrouping drops it. -/
theorem apply_neutral_call :
    let spec : OperatorSpec :=
      { commutative := true, associative := true, rightIdentity := some (.number 1) }
    let workspace : Workspace :=
      { table := ({} : SymbolTable).intern "join" (some spec) }
    let call := Expr.apply (.symbol "f") [.symbol "x"]
    Meets workspace.table spec call (.number 1) ∧
      workspace.table.specOf? (.symbol "join") = some spec ∧
        workspace.apply (.symbol "join") [call, .number 1] = .ok call := by
  intro spec workspace call
  have meets : Meets workspace.table spec call (.number 1) := by
    refine ⟨⟨?_, ?_, ?_, ?_⟩, ?_, ?_, ?_, ?_, ?_⟩ <;> decide +kernel
  have found : workspace.table.specOf? (.symbol "join") = some spec := by
    decide
  obtain ⟨-, -, oneSided⟩ := apply_neutral meets (by decide) found
  exact ⟨meets, found, (oneSided rfl rfl rfl (by decide)).2 rfl rfl rfl⟩

/-- A commutative operator does not find its right identity: it is stored on the left. -/
theorem apply_rightIdentity_ne :
    ¬∀ (workspace : Workspace)
        (spec : OperatorSpec)
        (name : String)
        (expr unit : Expr),
      2 ≤ workspace.ceiling →
        workspace.table.specOf? (.symbol name) = some spec →
          Meets workspace.table spec expr unit →
            spec.effectiveRightIdentity = some unit →
              workspace.apply (.symbol name) [expr, unit] = .ok expr := by
  intro vanishes
  let spec : OperatorSpec :=
    { commutative := true, rightIdentity := some (.number 1) }
  let workspace : Workspace :=
    { table := ({} : SymbolTable).intern "opA" (some spec) }
  have meets : Meets workspace.table spec (.symbol "x") (.number 1) := by
    refine ⟨⟨?_, ?_, ?_, ?_⟩, ?_, ?_, ?_, ?_, ?_⟩ <;> decide +kernel
  have kept :
      workspace.apply (.symbol "opA") [.symbol "x", .number 1] =
        .ok (.apply (.symbol "opA") [.number 1, .symbol "x"]) := by
    decide +kernel
  have vanished :=
    vanishes workspace spec "opA" (.symbol "x") (.number 1) (by decide) (by decide)
      meets rfl
  rw [kept] at vanished
  cases vanished

end SymbolicAlgebra
