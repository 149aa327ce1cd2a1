import SymbolicAlgebra.Proofs.Chain.Neighbours
import SymbolicAlgebra.Proofs.Closure.Parts
import SymbolicAlgebra.Proofs.Monotone.Chain
import SymbolicAlgebra.Proofs.Pair

/-!
# Repeated operands

Bitwise operators regroup operands that are no literals, whatever the wildcards in them are named.  A
conjunction or disjunction then loses its repeated operands, and an exclusive disjunction of operands that all
occur an even number of times is zero.
-/

namespace SymbolicAlgebra

open SymbolicAlgebra.Expr

/-- The part is no literal number, and it applies bitwise operators to two operands only. -/
structure Expr.IsSymbolic
    (part : Expr) : Prop where
  notLiteral :
    part.isNumber = false
  binary :
    ∀ op : BitOperator,
      part.isApplyOf op.symbol = true → part.isBinaryOf op.symbol = true

/-- An operand of a chain, which is symbolic throughout and no chain itself. -/
structure Expr.IsOperandOf
    (op : BitOperator)
    (item : Expr) : Prop where
  symbolic :
    item.Everywhere IsSymbolic
  single :
    item.isApplyOf op.symbol = false

theorem Expr.Everywhere.self
    {property : Expr → Prop}
    {expr : Expr}
    (everywhere : expr.Everywhere property) :
    property expr := by
  refine everywhere expr ?_
  cases expr <;> simp [contains]

theorem Expr.IsOperandOf.notLiteral
    {op : BitOperator}
    {item : Expr}
    (isOperand : item.IsOperandOf op) :
    item.isNumber = false :=
  isOperand.symbolic.self.notLiteral

/-- Applying a bitwise operator to two symbolic operands is symbolic. -/
theorem everywhere_isSymbolic_pair
    {lhs rhs : Expr}
    (op : BitOperator)
    (lhsSymbolic : lhs.Everywhere IsSymbolic)
    (rhsSymbolic : rhs.Everywhere IsSymbolic) :
    (Expr.apply op.symbol [lhs, rhs]).Everywhere IsSymbolic := by
  refine Everywhere.apply_iff.mpr ⟨⟨rfl, ?_⟩, ?_, ?_⟩
  · intro other sameHead
    rw [← of_decide_eq_true sameHead, isBinaryOf, operands?_pair]
    rfl
  · exact .of_isLeaf rfl ⟨rfl, fun other applied => by cases applied⟩
  · intro arg isArg
    rcases List.mem_pair.mp isArg with rfl | rfl
    · exact lhsSymbolic
    · exact rhsSymbolic

namespace BitOperator

variable {op : BitOperator} {table : SymbolTable} {expr lhs rhs : Expr}
  {items : List Expr}

/-- What is symbolic throughout is a combination of operands. -/
theorem combines_of_everywhere
    (op : BitOperator)
    (symbolic : expr.Everywhere IsSymbolic) :
    Combines op.symbol (IsOperandOf op) expr := by
  induction expr with
  | apply head args headHypothesis argsHypothesis =>
      by_cases chained : (Expr.apply head args).isApplyOf op.symbol = true
      · obtain ⟨⟨lhs, rhs⟩, found⟩ :=
          Option.isSome_iff_exists.mp (symbolic.self.binary op chained)
        have shape := operands?_eq_some found
        cases shape
        obtain ⟨-, -, argsSymbolic⟩ := Everywhere.apply_iff.mp symbolic
        exact .node
          (argsHypothesis lhs (by simp) (argsSymbolic lhs (by simp)))
          (argsHypothesis rhs (by simp) (argsSymbolic rhs (by simp)))
      · exact .operand ⟨symbolic, Bool.eq_false_iff.mpr chained⟩
  | _ =>
      exact .operand ⟨symbolic, rfl⟩

theorem isNumber_eq_false_of_combines
    (combines : Combines op.symbol (IsOperandOf op) expr) :
    expr.isNumber = false :=
  isNumber_of_combines IsOperandOf.notLiteral combines

/-! ## Building chains -/

/-- A chain of operands with neighbours in order is built as it is. -/
theorem exists_build_of_neighbours
    (table : SymbolTable)
    (operands : ∀ item ∈ items, item.IsOperandOf op)
    (inOrder : NeighboursInOrder items)
    (nonempty : items ≠ []) :
    ∃ chain,
      Chain.build table.construct op.symbol items = .ok chain ∧
        Combines op.symbol (IsOperandOf op) chain ∧
          IsChainOf op.symbol items chain := by
  obtain ⟨first, rest, rfl⟩ := List.exists_cons_of_ne_nil nonempty
  have singles : ∀ item ∈ first :: rest, item.isApplyOf op.symbol = false :=
    fun item member => (operands item member).single
  refine ⟨nested op.symbol first rest, ?_, combines_nested operands,
    isChainOf_nested singles⟩
  apply build_of_isChain singles inOrder
  intro lhs rhs later suffix
  obtain ⟨isOperand, laterOperands⟩ :=
    List.forall_mem_cons.mp fun item member =>
      operands item (suffix.mem member)
  exact construct_eq table isOperand.notLiteral
    (isNumber_eq_false_of_combines (combines_nested laterOperands))

/-! ## Regrouping -/

/-- Regrouping makes the chain of the sorted operands. -/
theorem result_reassociate_of_combines
    (table : SymbolTable)
    (lhsCombines : Combines op.symbol (IsOperandOf op) lhs)
    (rhsCombines : Combines op.symbol (IsOperandOf op) rhs) :
    let node := Expr.apply op.symbol [lhs, rhs]
    let result := Transform.reassociate?.result table node
    Combines op.symbol (IsOperandOf op) result ∧
      IsChainOf op.symbol (sortCanonically (Chain.flatten op.symbol node))
        result := by
  intro node result
  have combines : Combines op.symbol (IsOperandOf op) node :=
    .node lhsCombines rhsCombines
  have operands : ∀ item ∈ Chain.flatten op.symbol node, item.IsOperandOf op :=
    fun item member => combines.kind_of_mem_flatten IsOperandOf.single member
  have sorts :
      Transform.reassociate? table table.construct node =
        (Transform.rebuilding? op.symbol node
          (sortCanonically (Chain.flatten op.symbol node))).bind
            (Regrouping.build? table.construct op.symbol) := by
    rw [Transform.reassociate?_eq (op.specOf?_symbol table) rfl rfl,
      Transform.regrouping?_of_nonliterals]
    exact fun item member => (operands item member).notLiteral
  unfold Transform.rebuilding? at sorts
  split at sorts
  · rename_i done
    have kept : result = node :=
      result_of_none sorts
    rw [kept]
    exact ⟨combines, done.1.symm, done.2⟩
  · have permuted :
        (sortCanonically (Chain.flatten op.symbol node)).Perm
          (Chain.flatten op.symbol node) :=
      sortBy_perm canonicalCompare _
    have nonempty : sortCanonically (Chain.flatten op.symbol node) ≠ [] := by
      intro empty
      rw [empty] at permuted
      exact combines.flatten_ne_nil IsOperandOf.single permuted.nil_eq.symm
    obtain ⟨chain, built, chainCombines, isChain⟩ :=
      exists_build_of_neighbours table
        (fun item member => operands item (permuted.mem_iff.mp member))
        (neighboursInOrder_sortCanonically (Chain.flatten op.symbol node))
        nonempty
    rw [Option.bind_some, Regrouping.build?, built] at sorts
    have rebuilt : result = chain :=
      result_of_some sorts
    rw [rebuilt]
    exact ⟨chainCombines, isChain⟩

/-! ## Looking for repetitions -/

/-- A combination of several operands is an application to two. -/
theorem exists_node_of_combines
    (combines : Combines op.symbol (IsOperandOf op) expr)
    (several : (Chain.flatten op.symbol expr).length ≠ 1) :
    ∃ lhs rhs, expr = .apply op.symbol [lhs, rhs] := by
  cases combines with
  | operand isOperand =>
      rw [Chain.flatten_of_not_isApplyOf isOperand.single] at several
      exact (several rfl).elim
  | node lhsCombines rhsCombines =>
      exact ⟨_, _, rfl⟩

/-- A sorted conjunction or disjunction loses its repeated operands. -/
theorem result_bitIdentities_idempotent
    (table : SymbolTable)
    (idempotent : op ≠ .exclusion)
    (combines : Combines op.symbol (IsOperandOf op) expr)
    (isChain : IsChainOf op.symbol items expr)
    (inOrder : NeighboursInOrder items)
    (several : items.length ≠ 1) :
    IsChainOf op.symbol (sortCanonically (Transform.distinctItems items))
      (Transform.bitIdentities?.result table expr) := by
  have flat := isChain.flatten_eq
  have collapses :
      Transform.bitIdentities? table table.construct expr =
        Transform.deduplicate? table.construct op.symbol expr := by
    obtain ⟨lhs, rhs, rfl⟩ := exists_node_of_combines combines (by rwa [flat])
    cases op with
    | exclusion =>
        exact (idempotent rfl).elim
    | _ =>
        rfl
  rw [Transform.deduplicate?, flat] at collapses
  split at collapses
  · rename_i distinct
    rw [result_of_none collapses, Transform.distinctItems_eq_self distinct,
      inOrder.sortCanonically_eq]
    exact isChain
  · have permuted := sortCanonically_perm (Transform.distinctItems items)
    have nonempty : sortCanonically (Transform.distinctItems items) ≠ [] := by
      intro empty
      rw [empty] at permuted
      obtain ⟨first, rest, shape⟩ :=
        List.exists_cons_of_ne_nil (combines.flatten_ne_nil IsOperandOf.single)
      have kept : first ∈ Transform.distinctItems items := by
        rw [Transform.mem_distinctItems, ← flat, shape]
        exact List.mem_cons_self
      rw [← permuted.nil_eq] at kept
      cases kept
    obtain ⟨chain, built, -, chainIsChain⟩ :=
      exists_build_of_neighbours table
        (fun item member =>
          combines.kind_of_mem_flatten IsOperandOf.single
            (flat ▸ Transform.mem_distinctItems.mp
              (permuted.mem_iff.mp member)))
        (neighboursInOrder_sortCanonically _) nonempty
    rw [built] at collapses
    rw [result_of_some collapses]
    exact chainIsChain

/-- An exclusive disjunction of operands that all occur an even number of times is zero. -/
theorem result_bitIdentities_exclusion
    (table : SymbolTable)
    (combines : Combines Operator.bitXor (IsOperandOf .exclusion) expr)
    (even :
      ∀ item, (Chain.flatten Operator.bitXor expr).count item % 2 = 0) :
    Transform.bitIdentities?.result table expr = .number 0 := by
  have cancelled :
      Transform.oddItems (Chain.flatten Operator.bitXor expr) = [] := by
    rw [List.eq_nil_iff_forall_not_mem]
    intro item member
    have kept := List.count_pos_iff.mpr member
    rw [Transform.count_oddItems, even] at kept
    exact Nat.lt_irrefl 0 kept
  have nonempty := combines.flatten_ne_nil IsOperandOf.single
  have several : (Chain.flatten Operator.bitXor expr).length ≠ 1 := by
    intro single
    obtain ⟨item, shape⟩ := List.length_eq_one_iff.mp single
    have odd := even item
    simp [shape] at odd
  have cancels :
      Transform.bitIdentities? table table.construct expr =
        Transform.cancelPairs? table.construct expr := by
    obtain ⟨lhs, rhs, rfl⟩ :=
      @exists_node_of_combines .exclusion expr combines several
    rfl
  apply result_of_some
  rw [cancels, Transform.cancelPairs?, cancelled, if_neg,
    if_pos List.isEmpty_nil]
  exact fun empty => nonempty (List.length_eq_zero_iff.mp empty.symm)

/-- Regrouping a conjunction or disjunction makes the chain of its distinct operands. -/
theorem visited_regroupingRules_idempotent
    (table : SymbolTable)
    (idempotent : op ≠ .exclusion)
    (lhsCombines : Combines op.symbol (IsOperandOf op) lhs)
    (rhsCombines : Combines op.symbol (IsOperandOf op) rhs) :
    IsChainOf op.symbol
      (sortCanonically
        (Transform.distinctItems
          (sortCanonically
            (Chain.flatten op.symbol lhs ++ Chain.flatten op.symbol rhs))))
      (visited table regroupingRules (.apply op.symbol [lhs, rhs])) := by
  obtain ⟨combines, isChain⟩ :=
    result_reassociate_of_combines table lhsCombines rhsCombines
  rw [Chain.flatten_pair] at isChain
  have several :
      (sortCanonically
          (Chain.flatten op.symbol lhs ++ Chain.flatten op.symbol rhs)).length ≠
        1 := by
    have lhsNonempty :=
      List.length_pos_of_ne_nil (lhsCombines.flatten_ne_nil IsOperandOf.single)
    have rhsNonempty :=
      List.length_pos_of_ne_nil (rhsCombines.flatten_ne_nil IsOperandOf.single)
    rw [(sortCanonically_perm _).length_eq, List.length_append]
    omega
  exact result_bitIdentities_idempotent table idempotent combines isChain
    (neighboursInOrder_sortCanonically _) several

/-- Regrouping an exclusive disjunction of an expression with itself makes zero. -/
theorem visited_regroupingRules_exclusion
    (table : SymbolTable)
    (combines : Combines Operator.bitXor (IsOperandOf .exclusion) expr) :
    visited table regroupingRules (.apply Operator.bitXor [expr, expr]) =
      .number 0 := by
  obtain ⟨resultCombines, isChain⟩ :=
    @result_reassociate_of_combines .exclusion expr expr table combines combines
  let node := Expr.apply Operator.bitXor [expr, expr]
  have even
      (item : Expr) :
      (Chain.flatten Operator.bitXor
            (Transform.reassociate?.result table node)).count item % 2 =
        0 := by
    have flat :
        Chain.flatten Operator.bitXor
            (Transform.reassociate?.result table node) =
          sortCanonically (Chain.flatten Operator.bitXor node) :=
      isChain.flatten_eq
    rw [flat, (sortCanonically_perm _).count_eq, Chain.flatten_pair,
      List.count_append]
    omega
  exact result_bitIdentities_exclusion table resultCombines even

end BitOperator

end SymbolicAlgebra
