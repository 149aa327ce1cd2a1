import SymbolicAlgebra.Proofs.Repetition.Rules

/-!
# Combining an expression with itself

An exclusive disjunction of a simplified expression with itself is zero, and a disjunction of it with itself
is the expression again, whatever it is headed by.  So is a conjunction, unless the expression is a
disjunction: that is distributed before its repeated operands can collapse.
-/

namespace SymbolicAlgebra

open SymbolicAlgebra.Expr

namespace BitOperator

variable {op : BitOperator} {table : SymbolTable} {expr lhs rhs : Expr}

/-! ## Visiting an application -/

theorem catalogue_eq_append :
    catalogue =
      ⟨"commutative-order", Transform.commutativeOrder?⟩ ::
        (rulesBeforeDistribution ++
          ⟨"distribute-and-or", Transform.andOverOr?⟩ ::
            (rulesAfterDistribution ++ regroupingRules)) :=
  rfl

theorem storesPair
    (table : SymbolTable)
    (lhsNotLiteral : lhs.isNumber = false)
    (rhsNotLiteral : rhs.isNumber = false) :
    StoresPair table op.symbol lhs rhs := by
  intro first second isPair
  obtain ⟨firstNotLiteral, secondNotLiteral⟩ :=
    isPair.forall (fun expr => expr.isNumber = false) lhsNotLiteral
      rhsNotLiteral
  exact construct_eq table firstNotLiteral secondNotLiteral

theorem visited_waiting
    (op : BitOperator)
    (table : SymbolTable)
    (lhsNotLiteral : lhs.isNumber = false)
    (rhsNotLiteral : rhs.isNumber = false)
    {rules : List Rule}
    (among : rules ⊆ rulesBeforeDistribution ++ rulesAfterDistribution) :
    visited table rules (.apply op.symbol [lhs, rhs]) =
      .apply op.symbol [lhs, rhs] :=
  visited_of_waits fun _ member =>
    op.waits lhsNotLiteral rhsNotLiteral (among member)

/-- After distribution the chains are regrouped. -/
theorem visited_afterDistribution
    (op : BitOperator)
    (table : SymbolTable)
    (lhsNotLiteral : lhs.isNumber = false)
    (rhsNotLiteral : rhs.isNumber = false) :
    visited table (rulesAfterDistribution ++ regroupingRules)
        (.apply op.symbol [lhs, rhs]) =
      visited table regroupingRules (.apply op.symbol [lhs, rhs]) := by
  rw [visited_append,
    op.visited_waiting table lhsNotLiteral rhsNotLiteral
      (List.subset_append_right _ _)]

/-- Operands other than literals are sorted, distributed and regrouped. -/
theorem exists_visited
    (op : BitOperator)
    (table : SymbolTable)
    (lhsNotLiteral : lhs.isNumber = false)
    (rhsNotLiteral : rhs.isNumber = false) :
    ∃ first second,
      IsPair first second lhs rhs ∧
        visited table catalogue (.apply op.symbol [lhs, rhs]) =
          visited table (rulesAfterDistribution ++ regroupingRules)
            (Transform.andOverOr?.result table
              (.apply op.symbol [first, second])) := by
  have distributes
      {first second : Expr}
      (isPair : IsPair first second lhs rhs) :
      visited table
          (rulesBeforeDistribution ++
            ⟨"distribute-and-or", Transform.andOverOr?⟩ ::
              (rulesAfterDistribution ++ regroupingRules))
          (.apply op.symbol [first, second]) =
        visited table (rulesAfterDistribution ++ regroupingRules)
          (Transform.andOverOr?.result table
            (.apply op.symbol [first, second])) := by
    obtain ⟨firstNotLiteral, secondNotLiteral⟩ :=
      isPair.forall (fun expr => expr.isNumber = false) lhsNotLiteral
        rhsNotLiteral
    rw [visited_append,
      op.visited_waiting table firstNotLiteral secondNotLiteral
        (List.subset_append_left _ _),
      visited_cons]
  have stores :
      table.construct op.symbol [lhs, rhs] =
        .ok (.apply op.symbol (sortBy (operandCompare op.symbol) [lhs, rhs])) :=
    construct_eq table lhsNotLiteral rhsNotLiteral
  rw [catalogue_eq_append, visited_cons]
  rcases result_commutativeOrder stores with same | swapped
  · rw [same]
    exact ⟨lhs, rhs, .inl ⟨rfl, rfl⟩, distributes (.inl ⟨rfl, rfl⟩)⟩
  · rw [swapped]
    exact ⟨rhs, lhs, .inr ⟨rfl, rfl⟩, distributes (.inr ⟨rfl, rfl⟩)⟩

/-- What is not distributed is regrouped, in one order or the other. -/
theorem exists_visited_undistributed
    (op : BitOperator)
    (table : SymbolTable)
    (lhsNotLiteral : lhs.isNumber = false)
    (rhsNotLiteral : rhs.isNumber = false)
    (undistributed :
      op = .conjunction →
        lhs.isApplyOf Operator.bitOr = false ∧
          rhs.isApplyOf Operator.bitOr = false) :
    ∃ first second,
      IsPair first second lhs rhs ∧
        visited table catalogue (.apply op.symbol [lhs, rhs]) =
          visited table regroupingRules (.apply op.symbol [first, second]) := by
  obtain ⟨first, second, isPair, visits⟩ :=
    op.exists_visited table lhsNotLiteral rhsNotLiteral
  obtain ⟨firstNotLiteral, secondNotLiteral⟩ :=
    isPair.forall (fun expr => expr.isNumber = false) lhsNotLiteral
      rhsNotLiteral
  have kept :
      Transform.andOverOr? table table.construct
          (.apply op.symbol [first, second]) =
        none :=
    andOverOr?_eq_none table table.construct fun isConjunction =>
      isPair.forall (fun expr => expr.isApplyOf Operator.bitOr = false)
        (undistributed isConjunction).1 (undistributed isConjunction).2
  rw [result_of_none kept,
    op.visited_afterDistribution table firstNotLiteral secondNotLiteral]
    at visits
  exact ⟨first, second, isPair, visits⟩

/-! ## Tidy chains -/

/-- The expression is the chain of distinct operands with neighbours in order. -/
def IsTidy
    (op : BitOperator)
    (expr : Expr) : Prop :=
  ∃ items,
    IsChainOf op.symbol items expr ∧ NeighboursInOrder items ∧ items.Nodup

/-- A tidy chain stays as it is when it is combined with itself. -/
theorem IsTidy.visited_eq
    (tidy : op.IsTidy expr)
    (table : SymbolTable)
    (idempotent : op ≠ .exclusion)
    (symbolic : expr.Everywhere IsSymbolic) :
    visited table regroupingRules (.apply op.symbol [expr, expr]) = expr := by
  obtain ⟨items, isChain, inOrder, distinct⟩ := tidy
  have combines := op.combines_of_everywhere symbolic
  have visits :=
    visited_regroupingRules_idempotent table idempotent combines combines
  have kept :
      sortCanonically
          (Transform.distinctItems (sortCanonically (items ++ items))) =
        items := by
    rw [distinctItems_sortCanonically_append fun item member => member,
      inOrder.sortCanonically_eq, Transform.distinctItems_eq,
      List.dedup_eq_self.mpr (List.nodup_reverse.mpr distinct),
      List.reverse_reverse, inOrder.sortCanonically_eq]
  rw [isChain.flatten_eq, kept] at visits
  exact visits.unique isChain

/-- Regrouping operands makes a tidy chain. -/
theorem isTidy_visited
    (table : SymbolTable)
    (idempotent : op ≠ .exclusion)
    (lhsSymbolic : lhs.Everywhere IsSymbolic)
    (rhsSymbolic : rhs.Everywhere IsSymbolic) :
    op.IsTidy
      (visited table regroupingRules (.apply op.symbol [lhs, rhs])) :=
  ⟨_,
    visited_regroupingRules_idempotent table idempotent
      (op.combines_of_everywhere lhsSymbolic)
      (op.combines_of_everywhere rhsSymbolic),
    neighboursInOrder_sortCanonically _,
    (sortCanonically_perm _).nodup_iff.mpr (Transform.nodup_distinctItems _)⟩

/-- Anything but a chain is tidy. -/
theorem isTidy_of_not_isApplyOf
    (single : expr.isApplyOf op.symbol = false) :
    op.IsTidy expr :=
  ⟨[expr], isChainOf_singleton single, .singleton expr, List.nodup_singleton expr⟩

/-! ## Distributed conjunctions -/

/-- A conjunction with a disjunction becomes the disjunction of two conjunctions. -/
theorem exists_result_andOverOr
    (table : SymbolTable)
    (lhsSymbolic : lhs.Everywhere IsSymbolic)
    (rhsSymbolic : rhs.Everywhere IsSymbolic)
    (distributed :
      ¬(lhs.isApplyOf Operator.bitOr = false ∧
        rhs.isApplyOf Operator.bitOr = false)) :
    ∃ first second factor,
      IsPair lhs rhs (.apply Operator.bitOr [first, second]) factor ∧
        Transform.andOverOr?.result table
            (.apply Operator.bitAnd [lhs, rhs]) =
          stored Operator.bitOr (stored Operator.bitAnd first factor)
            (stored Operator.bitAnd second factor) := by
  have spreads
      {first second factor : Expr}
      (symbolic :
        (Expr.apply Operator.bitOr [first, second]).Everywhere IsSymbolic)
      (factorSymbolic : factor.Everywhere IsSymbolic) :
      (Transform.spread table.construct Operator.bitAnd Operator.bitOr factor
            first second).toOption =
        some
          (stored Operator.bitOr (stored Operator.bitAnd first factor)
            (stored Operator.bitAnd second factor)) := by
    obtain ⟨-, -, operandsSymbolic⟩ := Everywhere.apply_iff.mp symbolic
    have conjoins
        {operand : Expr}
        (member : operand ∈ [first, second]) :
        table.construct Operator.bitAnd [operand, factor] =
          .ok (stored Operator.bitAnd operand factor) :=
      @construct_eq .conjunction operand factor table
        (operandsSymbolic operand member).self.notLiteral
        factorSymbolic.self.notLiteral
    have disjoins :=
      @construct_eq .disjunction (stored Operator.bitAnd first factor)
        (stored Operator.bitAnd second factor) table rfl rfl
    rw [Transform.spread, conjoins List.mem_cons_self, ok_bind,
      conjoins (List.mem_cons_of_mem _ List.mem_cons_self), ok_bind]
    exact congrArg Except.toOption disjoins
  cases inLhs : lhs.operands? Operator.bitOr with
  | some operands =>
      obtain ⟨first, second⟩ := operands
      have shape := operands?_eq_some inLhs
      refine ⟨first, second, rhs, .inl ⟨shape, rfl⟩, result_of_some ?_⟩
      rw [andOverOr?_left table table.construct inLhs]
      exact spreads (shape ▸ lhsSymbolic) rhsSymbolic
  | none =>
      have applied
          {expr : Expr}
          (symbolic : expr.Everywhere IsSymbolic)
          (none : expr.operands? Operator.bitOr = none) :
          expr.isApplyOf Operator.bitOr = false := by
        rw [← Bool.not_eq_true]
        intro isApply
        have binary : (expr.operands? Operator.bitOr).isSome = true :=
          symbolic.self.binary .disjunction isApply
        rw [none] at binary
        cases binary
      cases inRhs : rhs.operands? Operator.bitOr with
      | some operands =>
          obtain ⟨first, second⟩ := operands
          have shape := operands?_eq_some inRhs
          refine ⟨first, second, lhs, .inr ⟨rfl, shape⟩, result_of_some ?_⟩
          rw [andOverOr?_right table table.construct inLhs inRhs]
          exact spreads (shape ▸ rhsSymbolic) lhsSymbolic
      | none =>
          exact (distributed
            ⟨applied lhsSymbolic inLhs, applied rhsSymbolic inRhs⟩).elim

theorem not_isApplyOf_stored
    {head op lhs rhs : Expr}
    (differ : head ≠ op) :
    (stored head lhs rhs).isApplyOf op = false :=
  decide_eq_false differ

theorem everywhere_isSymbolic_stored
    (op : BitOperator)
    (lhsSymbolic : lhs.Everywhere IsSymbolic)
    (rhsSymbolic : rhs.Everywhere IsSymbolic) :
    (stored op.symbol lhs rhs).Everywhere IsSymbolic := by
  obtain ⟨first, second, shape, -, isPair⟩ := exists_stored op.symbol lhs rhs
  obtain ⟨firstSymbolic, secondSymbolic⟩ :=
    isPair.forall (Everywhere IsSymbolic) lhsSymbolic rhsSymbolic
  rw [shape]
  exact everywhere_isSymbolic_pair op firstSymbolic secondSymbolic

/-- What a disjunction of two conjunctions becomes is a conjunction only if it is either of them. -/
theorem eq_of_visited_disjunction
    {first second factor result : Expr}
    (firstSymbolic : first.Everywhere IsSymbolic)
    (secondSymbolic : second.Everywhere IsSymbolic)
    (factorSymbolic : factor.Everywhere IsSymbolic)
    (isConjunction : result.isApplyOf Operator.bitOr = false)
    (visits :
      visited table (rulesAfterDistribution ++ regroupingRules)
          (stored Operator.bitOr (stored Operator.bitAnd first factor)
            (stored Operator.bitAnd second factor)) =
        result) :
    stored Operator.bitAnd first factor = result := by
  obtain ⟨lhs, rhs, shape, -, isPair⟩ :=
    exists_stored Operator.bitOr (stored Operator.bitAnd first factor)
      (stored Operator.bitAnd second factor)
  obtain ⟨lhsSymbolic, rhsSymbolic⟩ :=
    isPair.forall (Everywhere IsSymbolic)
      (everywhere_isSymbolic_stored .conjunction firstSymbolic factorSymbolic)
      (everywhere_isSymbolic_stored .conjunction secondSymbolic factorSymbolic)
  obtain ⟨lhsSingle, rhsSingle⟩ :=
    isPair.forall (fun expr => expr.isApplyOf Operator.bitOr = false)
      (not_isApplyOf_stored (by decide)) (not_isApplyOf_stored (by decide))
  have regroups :
      visited table (rulesAfterDistribution ++ regroupingRules)
          (.apply Operator.bitOr [lhs, rhs]) =
        visited table regroupingRules (.apply Operator.bitOr [lhs, rhs]) :=
    BitOperator.disjunction.visited_afterDistribution table
      lhsSymbolic.self.notLiteral rhsSymbolic.self.notLiteral
  have isChain :
      IsChainOf Operator.bitOr
        (sortCanonically
          (Transform.distinctItems
            (sortCanonically
              (Chain.flatten Operator.bitOr lhs ++
                Chain.flatten Operator.bitOr rhs))))
        (visited table regroupingRules (.apply Operator.bitOr [lhs, rhs])) :=
    @visited_regroupingRules_idempotent .disjunction lhs rhs table (by decide)
      (combines_of_everywhere .disjunction lhsSymbolic)
      (combines_of_everywhere .disjunction rhsSymbolic)
  rw [shape, regroups] at visits
  have flat := isChain.flatten_eq
  rw [visits, Chain.flatten_of_not_isApplyOf isConjunction,
    Chain.flatten_of_not_isApplyOf lhsSingle,
    Chain.flatten_of_not_isApplyOf rhsSingle] at flat
  have member : stored Operator.bitAnd first factor ∈ [result] := by
    rw [flat, (sortCanonically_perm _).mem_iff, Transform.mem_distinctItems,
      (sortCanonically_perm _).mem_iff]
    rcases isPair with ⟨rfl, rfl⟩ | ⟨rfl, rfl⟩
    · exact List.mem_cons_self
    · exact List.mem_cons_of_mem _ List.mem_cons_self
  exact List.mem_singleton.mp member

/-- A conjunction with a disjunction does not come back when it is visited. -/
theorem visited_distributed_ne
    {first second : Expr}
    (table : SymbolTable)
    (lhsSymbolic : lhs.Everywhere IsSymbolic)
    (rhsSymbolic : rhs.Everywhere IsSymbolic)
    (distributed :
      ¬(lhs.isApplyOf Operator.bitOr = false ∧
        rhs.isApplyOf Operator.bitOr = false))
    (isPair : IsPair lhs rhs first second) :
    visited table catalogue (.apply Operator.bitAnd [lhs, rhs]) ≠
      .apply Operator.bitAnd [first, second] := by
  intro returns
  obtain ⟨lhs', rhs', sortedPair, visits⟩ :=
    exists_visited .conjunction table lhsSymbolic.self.notLiteral
      rhsSymbolic.self.notLiteral
  obtain ⟨lhsSymbolic', rhsSymbolic'⟩ :=
    sortedPair.forall (Everywhere IsSymbolic) lhsSymbolic rhsSymbolic
  have distributed' :
      ¬(lhs'.isApplyOf Operator.bitOr = false ∧
        rhs'.isApplyOf Operator.bitOr = false) := by
    rcases sortedPair with ⟨rfl, rfl⟩ | ⟨rfl, rfl⟩
    · exact distributed
    · exact fun both => distributed both.symm
  obtain ⟨left, right, factor, operandsPair, distributes⟩ :=
    exists_result_andOverOr table lhsSymbolic' rhsSymbolic' distributed'
  obtain ⟨disjunctionSymbolic, factorSymbolic⟩ :=
    operandsPair.symm.forall (Everywhere IsSymbolic) lhsSymbolic' rhsSymbolic'
  obtain ⟨-, -, operandsSymbolic⟩ :=
    Everywhere.apply_iff.mp disjunctionSymbolic
  have visitsDisjunction :
      visited table (rulesAfterDistribution ++ regroupingRules)
          (stored Operator.bitOr (stored Operator.bitAnd left factor)
            (stored Operator.bitAnd right factor)) =
        .apply Operator.bitAnd [first, second] := by
    rw [← distributes]
    exact visits.symm.trans returns
  have same :
      stored Operator.bitAnd left factor =
        .apply Operator.bitAnd [first, second] :=
    eq_of_visited_disjunction (operandsSymbolic left (by simp))
      (operandsSymbolic right (by simp)) factorSymbolic rfl visitsDisjunction
  -- The conjunction of `left` with the factor is smaller than that of the disjunction.
  obtain ⟨first', second', shape, -, storedPair⟩ :=
    exists_stored Operator.bitAnd left factor
  rw [same, apply.injEq] at shape
  cases shape.2
  have sizes := storedPair.add_eq sizeOf
  have operandSizes := isPair.add_eq sizeOf
  have sortedSizes := sortedPair.add_eq sizeOf
  have distributedSizes := operandsPair.add_eq sizeOf
  simp only [apply.sizeOf_spec, List.cons.sizeOf_spec] at distributedSizes
  omega

/-- A simplified conjunction or disjunction is tidy. -/
theorem isTidy_of_fixed
    (idempotent : op ≠ .exclusion)
    (symbolic : expr.Everywhere IsSymbolic)
    (fixed : pass table catalogue expr = .ok expr)
    (argsFixed : ∀ arg ∈ expr.args, pass table catalogue arg = .ok arg) :
    op.IsTidy expr := by
  by_cases chained : expr.isApplyOf op.symbol = true
  · obtain ⟨⟨lhs, rhs⟩, found⟩ :=
      Option.isSome_iff_exists.mp (symbolic.self.binary op chained)
    have shape := operands?_eq_some found
    cases shape
    obtain ⟨-, -, operandsSymbolic⟩ := Everywhere.apply_iff.mp symbolic
    have lhsSymbolic := operandsSymbolic lhs (by simp)
    have rhsSymbolic := operandsSymbolic rhs (by simp)
    obtain ⟨first, second, storedShape, -, storedPair⟩ :=
      exists_stored op.symbol lhs rhs
    obtain ⟨node, isNode, passes⟩ :=
      exists_pass_pair rfl (argsFixed lhs (by simp [args]))
        (argsFixed rhs (by simp [args]))
        (storesPair table lhsSymbolic.self.notLiteral
          rhsSymbolic.self.notLiteral (.inl ⟨rfl, rfl⟩))
    have visits : visited table catalogue node = .apply op.symbol [lhs, rhs] :=
      Except.ok.inj (passes.symm.trans fixed)
    obtain ⟨lhs', rhs', rfl, isPair⟩ :
        ∃ lhs' rhs',
          node = .apply op.symbol [lhs', rhs'] ∧ IsPair lhs' rhs' lhs rhs := by
      rcases isNode with rfl | rfl
      · exact ⟨lhs, rhs, rfl, .inl ⟨rfl, rfl⟩⟩
      · exact ⟨first, second, storedShape, storedPair⟩
    obtain ⟨lhsSymbolic', rhsSymbolic'⟩ :=
      isPair.forall (Everywhere IsSymbolic) lhsSymbolic rhsSymbolic
    have undistributed
        (isConjunction : op = .conjunction) :
        lhs'.isApplyOf Operator.bitOr = false ∧
          rhs'.isApplyOf Operator.bitOr = false := by
      by_contra distributed
      subst isConjunction
      exact visited_distributed_ne table lhsSymbolic' rhsSymbolic' distributed
        isPair visits
    obtain ⟨first', second', sortedPair, regroups⟩ :=
      op.exists_visited_undistributed table lhsSymbolic'.self.notLiteral
        rhsSymbolic'.self.notLiteral undistributed
    obtain ⟨firstSymbolic, secondSymbolic⟩ :=
      sortedPair.forall (Everywhere IsSymbolic) lhsSymbolic' rhsSymbolic'
    rw [← visits, regroups]
    exact isTidy_visited table idempotent firstSymbolic secondSymbolic
  · exact isTidy_of_not_isApplyOf (Bool.eq_false_iff.mpr chained)

/-! ## Combining an expression with itself -/

theorem stored_self
    (op expr : Expr) :
    stored op expr expr = .apply op [expr, expr] := by
  obtain ⟨lhs, rhs, shape, -, isPair⟩ := exists_stored op expr expr
  obtain ⟨rfl, rfl⟩ := isPair.forall (· = expr) rfl rfl
  exact shape

theorem visited_self
    (op : BitOperator)
    (table : SymbolTable)
    (notLiteral : expr.isNumber = false)
    (undistributed :
      op = .conjunction → expr.isApplyOf Operator.bitOr = false) :
    visited table catalogue (stored op.symbol expr expr) =
      visited table regroupingRules (.apply op.symbol [expr, expr]) := by
  obtain ⟨first, second, isPair, visits⟩ :=
    op.exists_visited_undistributed table notLiteral notLiteral
      fun isConjunction =>
        ⟨undistributed isConjunction, undistributed isConjunction⟩
  obtain ⟨rfl, rfl⟩ := isPair.forall (· = expr) rfl rfl
  rw [stored_self, visits]

/-- A tidy fixed point stays as it is when it is combined with itself. -/
theorem IsTidy.apply_eq
    {workspace : Workspace}
    (tidy : op.IsTidy expr)
    (enough : 2 ≤ workspace.ceiling)
    (idempotent : op ≠ .exclusion)
    (symbolic : expr.Everywhere IsSymbolic)
    (undistributed :
      op = .conjunction → expr.isApplyOf Operator.bitOr = false)
    (fixed : pass workspace.table catalogue expr = .ok expr) :
    workspace.apply op.symbol [expr, expr] = .ok expr := by
  have notLiteral := symbolic.self.notLiteral
  have visits :
      visited workspace.table catalogue (stored op.symbol expr expr) = expr := by
    rw [op.visited_self workspace.table notLiteral undistributed,
      tidy.visited_eq workspace.table idempotent symbolic]
  exact apply_of_visited enough rfl fixed fixed
    (storesPair workspace.table notLiteral notLiteral) visits fixed

end BitOperator

/--
An expression without literals that is simplified, as its operands are, makes zero in an exclusive
disjunction with itself and stays as it is in a disjunction with itself; a conjunction with itself leaves it
as it is unless it is a disjunction.
-/
theorem apply_self
    {workspace : Workspace}
    {expr : Expr}
    (enough : 2 ≤ workspace.ceiling)
    (symbolic : expr.Everywhere IsSymbolic)
    (fixed : pass workspace.table catalogue expr = .ok expr)
    (argsFixed :
      ∀ arg ∈ expr.args, pass workspace.table catalogue arg = .ok arg) :
    workspace.apply Operator.bitXor [expr, expr] = .ok (.number 0) ∧
      workspace.apply Operator.bitOr [expr, expr] = .ok expr ∧
        (expr.isApplyOf Operator.bitOr = false →
          workspace.apply Operator.bitAnd [expr, expr] = .ok expr) := by
  have notLiteral := symbolic.self.notLiteral
  refine ⟨?_, ?_, fun notDisjunction => ?_⟩
  · have stores : StoresPair workspace.table Operator.bitXor expr expr :=
      @BitOperator.storesPair .exclusion expr expr workspace.table notLiteral
        notLiteral
    have visits :
        visited workspace.table catalogue (stored Operator.bitXor expr expr) =
          .number 0 :=
      (BitOperator.exclusion.visited_self workspace.table notLiteral
        nofun).trans
        (BitOperator.visited_regroupingRules_exclusion workspace.table
          (BitOperator.exclusion.combines_of_everywhere symbolic))
    exact apply_of_visited enough rfl fixed fixed stores visits (pass_leaf rfl)
  · have tidy : BitOperator.disjunction.IsTidy expr :=
      BitOperator.isTidy_of_fixed (by decide) symbolic fixed argsFixed
    exact tidy.apply_eq enough (by decide) symbolic nofun fixed
  · have tidy : BitOperator.conjunction.IsTidy expr :=
      BitOperator.isTidy_of_fixed (by decide) symbolic fixed argsFixed
    exact tidy.apply_eq enough (by decide) symbolic (fun _ => notDisjunction)
      fixed

/-- The law of repeated operands at `(x ^ y) & z`. -/
theorem apply_self_conjunction :
    let exclusion := Expr.apply Operator.bitXor [.symbol "x", .symbol "y"]
    let expr := Expr.apply Operator.bitAnd [.symbol "z", exclusion]
    let workspace : Workspace := {}
    expr.Everywhere IsSymbolic ∧
      pass workspace.table catalogue expr = .ok expr ∧
        (∀ arg ∈ expr.args, pass workspace.table catalogue arg = .ok arg) ∧
          workspace.apply Operator.bitXor [expr, expr] = .ok (.number 0) ∧
            workspace.apply Operator.bitOr [expr, expr] = .ok expr ∧
              workspace.apply Operator.bitAnd [expr, expr] = .ok expr := by
  intro exclusion expr workspace
  have symbol (name : String) : (Expr.symbol name).Everywhere IsSymbolic :=
    .of_isLeaf rfl ⟨rfl, nofun⟩
  have exclusionSymbolic : exclusion.Everywhere IsSymbolic :=
    everywhere_isSymbolic_pair .exclusion (symbol "x") (symbol "y")
  have symbolic : expr.Everywhere IsSymbolic :=
    everywhere_isSymbolic_pair .conjunction (symbol "z") exclusionSymbolic
  have fixed : pass workspace.table catalogue expr = .ok expr := by
    decide +kernel
  have argsFixed :
      ∀ arg ∈ expr.args, pass workspace.table catalogue arg = .ok arg := by
    decide +kernel
  obtain ⟨exclusive, disjoined, conjoined⟩ :=
    apply_self (by decide) symbolic fixed argsFixed
  exact ⟨symbolic, fixed, argsFixed, exclusive, disjoined, conjoined rfl⟩

/-- The conjunction of `x | y` with itself is `x | (y | (x & y))`: it is distributed first. -/
theorem apply_self_disjunction_ne :
    ¬∀ (workspace : Workspace)
        (expr result : Expr),
      2 ≤ workspace.ceiling →
        expr.Everywhere IsSymbolic →
          pass workspace.table catalogue expr = .ok expr →
            workspace.apply Operator.bitAnd [expr, expr] = .ok result →
              result = expr := by
  intro collapses
  let x := Expr.symbol "x"
  let y := Expr.symbol "y"
  let disjunction := Expr.apply Operator.bitOr [x, y]
  let result :=
    Expr.apply Operator.bitOr
      [x, .apply Operator.bitOr [y, .apply Operator.bitAnd [x, y]]]
  have symbol (name : String) : (Expr.symbol name).Everywhere IsSymbolic :=
    .of_isLeaf rfl ⟨rfl, nofun⟩
  have symbolic : disjunction.Everywhere IsSymbolic :=
    everywhere_isSymbolic_pair .disjunction (symbol "x") (symbol "y")
  have fixed :
      pass ({} : Workspace).table catalogue disjunction = .ok disjunction := by
    decide +kernel
  have conjoined :
      ({} : Workspace).apply Operator.bitAnd [disjunction, disjunction] =
        .ok result := by
    decide +kernel
  have differ : result ≠ disjunction := by
    decide
  exact differ
    (collapses {} disjunction result (by decide) symbolic fixed conjoined)

end SymbolicAlgebra
