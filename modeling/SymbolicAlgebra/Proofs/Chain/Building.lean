import SymbolicAlgebra.Proofs.Chain.Neighbours
import SymbolicAlgebra.Proofs.Linear.Construction
import SymbolicAlgebra.Session

/-!
# Building chains

An operator that neither evaluates, absorbs nor moves what it is applied to builds the right-nested chain of
its operands.  Operands headed by the operator come last, so that the part of a chain that is built already
stays behind the operand that is put before it, however many operands there are.
-/

namespace SymbolicAlgebra

open SymbolicAlgebra.Expr

/-- Operands that an operator keeps apart in a chain, in the order in which it stores them. -/
structure SymbolTable.Chains
    (table : SymbolTable)
    (op : Expr)
    (items : List Expr) : Prop where
  nonempty :
    items ≠ []
  singles :
    ∀ item ∈ items, item.isApplyOf op = false
  zeroAbsent :
    ∀ {spec zero},
      table.specOf? op = some spec → spec.zero = some zero → zero ∉ items
  oneLiteral :
    ∀ {spec},
      table.specOf? op = some spec → spec.evaluator.isSome = true →
        (items.filter isNumber).length ≤ 1
  inOrder :
    ∀ {spec},
      table.specOf? op = some spec → spec.commutative = true →
        NeighboursInOrder items

/-- The absorbing value of an operator, if it has one, is no application of the operator. -/
def SymbolTable.ZeroSingle
    (table : SymbolTable)
    (op : Expr) : Prop :=
  ∀ {spec zero},
    table.specOf? op = some spec → spec.zero = some zero →
      zero.isApplyOf op = false

section Building

variable {table : SymbolTable} {op lhs rhs expr : Expr} {items later : List Expr}

/-- A chain is none of the values that are no applications of its operator, unless it is one of its operands. -/
theorem nested_ne
    {zero : Expr}
    (zeroSingle : zero.isApplyOf op = false)
    (absent : zero ∉ rhs :: later) :
    nested op rhs later ≠ zero := by
  cases later with
  | nil =>
      exact (List.ne_of_not_mem_cons absent).symm
  | cons third later =>
      rintro rfl
      rw [nested, isApplyOf, decide_eq_false_iff_not] at zeroSingle
      exact zeroSingle rfl

namespace SymbolTable.Chains

/-- An operand and the chain of the later ones are stored as they are. -/
theorem construct_nested
    (chains : table.Chains op items)
    (zeroSingle : table.ZeroSingle op)
    (suffix : lhs :: rhs :: later <:+ items) :
    table.construct op [lhs, nested op rhs later] =
      .ok (.apply op [lhs, nested op rhs later]) := by
  cases found : table.specOf? op with
  | none =>
      rw [construct_eq_ok_iff, found]
      exact ⟨List.cons_ne_nil _ _, .plain⟩
  | some spec =>
      have unevaluated :
          spec.evaluateLiterals? (op.symbol?.getD "")
              [lhs, nested op rhs later] =
            none := by
        cases declared : spec.evaluator with
        | none =>
            exact OperatorSpec.evaluateLiterals?_eq_none_iff.mpr (.inl declared)
        | some evaluator =>
            have oneLiteral := chains.oneLiteral found (by rw [declared]; rfl)
            exact spec.evaluateLiterals?_pair _
              (unevaluated_of_suffix suffix oneLiteral)
      have unabsorbed : spec.absorbed? [lhs, nested op rhs later] = none := by
        apply OperatorSpec.absorbed?_pair_eq_none
        · intro declared
          exact chains.zeroAbsent found declared
            (suffix.mem List.mem_cons_self)
        · intro declared
          refine nested_ne (zeroSingle found declared) ?_ rfl
          intro member
          exact chains.zeroAbsent found declared
            (suffix.mem (List.mem_cons_of_mem _ member))
      have ordered :
          spec.ordered op [lhs, nested op rhs later] =
            [lhs, nested op rhs later] := by
        unfold OperatorSpec.ordered
        split
        · rename_i commutative
          -- Sorting leaves the pair alone: what is headed by the operator comes last.
          have inOrder := (chains.inOrder found commutative).suffix suffix
          exact sortBy_pair
            (operandCompare_nested
              (chains.singles lhs (suffix.mem List.mem_cons_self))
              (chains.singles rhs (suffix.mem (by simp)))
              (List.isChain_cons_cons.mp inOrder).1)
        · rfl
      rw [construct_stored found (List.cons_ne_nil _ _) unevaluated unabsorbed,
        ordered]

/-- The right-nested chain of such operands can be built. -/
theorem exists_build
    (chains : table.Chains op items)
    (zeroSingle : table.ZeroSingle op) :
    ∃ chain,
      Chain.build table.construct op items = .ok chain ∧
        IsChainOf op items chain := by
  obtain ⟨first, rest, rfl⟩ := List.exists_cons_of_ne_nil chains.nonempty
  exact ⟨_, build_nested (chains.construct_nested zeroSingle),
    isChainOf_nested chains.singles⟩

/-- A right-nested chain of such operands is built again from them. -/
theorem build_flatten
    (chains : table.Chains op (Chain.flatten op expr))
    (zeroSingle : table.ZeroSingle op)
    (isNested : Chain.isRightNested op expr = true) :
    Chain.build table.construct op (Chain.flatten op expr) = .ok expr := by
  obtain ⟨chain, built, isChain⟩ := chains.exists_build zeroSingle
  rw [built, isChain.unique ⟨rfl, isNested⟩]

end SymbolTable.Chains

/-- A product keeps operands apart that are no products and not zero, with at most one literal. -/
theorem chains_product
    (nonempty : items ≠ [])
    (singles : ∀ item ∈ items, item.isApplyOf Operator.mul = false)
    (zeroAbsent : .number 0 ∉ items)
    (oneLiteral : (items.filter isNumber).length ≤ 1)
    (inOrder : NeighboursInOrder items) :
    table.Chains Operator.mul items where
  nonempty :=
    nonempty
  singles :=
    singles
  zeroAbsent found declared := by
    cases found.symm.trans table.specOf?_mul
    cases declared
    exact zeroAbsent
  oneLiteral _ _ :=
    oneLiteral
  inOrder _ _ :=
    inOrder

/-- In whatever order such operands come, a product keeps them apart once they are sorted. -/
theorem chains_sortedProduct
    (nonempty : items ≠ [])
    (singles : ∀ item ∈ items, item.isApplyOf Operator.mul = false)
    (zeroAbsent : .number 0 ∉ items)
    (oneLiteral : (items.filter isNumber).length ≤ 1) :
    table.Chains Operator.mul (sortCanonically items) := by
  have permuted := sortCanonically_perm items
  refine chains_product ?_ ?_ ?_ ?_ (neighboursInOrder_sortCanonically items)
  · intro empty
    rw [empty] at permuted
    exact nonempty permuted.nil_eq.symm
  · intro item member
    exact singles item (permuted.mem_iff.mp member)
  · intro member
    exact zeroAbsent (permuted.mem_iff.mp member)
  · rwa [(permuted.filter isNumber).length_eq]

theorem zeroSingle_product :
    table.ZeroSingle Operator.mul := by
  intro spec zero found declared
  cases found.symm.trans table.specOf?_mul
  cases declared
  rfl

end Building

namespace Session

/--
During a simplification, operands that an operator keeps apart are built into their right-nested chain, and
a right-nested chain of such operands is built again from them.
-/
theorem chains_roundTrip
    {session : Session}
    {op : Expr}
    (busy : session.busy = true)
    (zeroSingle : session.workspace.table.ZeroSingle op) :
    (∀ {items},
      session.workspace.table.Chains op items →
        ∃ chain,
          Chain.build session.builder op items = .ok chain ∧
            Chain.flatten op chain = items ∧
              Chain.isRightNested op chain = true) ∧
      ∀ {expr},
        Chain.isRightNested op expr = true →
          session.workspace.table.Chains op (Chain.flatten op expr) →
            Chain.build session.builder op (Chain.flatten op expr) = .ok expr := by
  rw [builder, if_pos busy]
  constructor
  · intro items chains
    obtain ⟨chain, built, isChain⟩ := chains.exists_build zeroSingle
    exact ⟨chain, built, isChain.flatten_eq, isChain.isNested⟩
  · intro expr isNested chains
    exact chains.build_flatten zeroSingle isNested

/-- Multiplication keeps a literal, two symbols and a call apart. -/
theorem chains_roundTrip_product :
    let session : Session := { busy := true }
    let items : List Expr :=
      [.number 2, .symbol "x", .symbol "y", .apply (.symbol "f") [.symbol "x"]]
    session.workspace.table.Chains Operator.mul items ∧
      ∃ chain,
        Chain.build session.builder Operator.mul items = .ok chain ∧
          Chain.flatten Operator.mul chain = items ∧
            Chain.isRightNested Operator.mul chain = true ∧
              Chain.build session.builder Operator.mul
                  (Chain.flatten Operator.mul chain) =
                .ok chain := by
  intro session items
  have chains : session.workspace.table.Chains Operator.mul items :=
    chains_product (List.cons_ne_nil _ _) (by decide) (by decide) (by decide)
      (by decide)
  obtain ⟨builds, rebuilds⟩ :=
    @chains_roundTrip session Operator.mul rfl zeroSingle_product
  obtain ⟨chain, built, flat, isNested⟩ := builds chains
  refine ⟨chains, chain, built, flat, isNested, ?_⟩
  exact rebuilds isNested (flat ▸ chains)

end Session

end SymbolicAlgebra
