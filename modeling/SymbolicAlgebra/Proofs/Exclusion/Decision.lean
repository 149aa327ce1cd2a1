import SymbolicAlgebra.Proofs.Exclusion.Simplification

/-!
# Deciding equality of exclusive disjunctions

Two exclusive disjunctions of symbols and integers, put together in any order and grouping, are equal as soon
as every symbol occurs with the same parity in both and the integers combine to the same.
-/

namespace SymbolicAlgebra

open SymbolicAlgebra.Expr
open BitOperator (exclusion)

/-- An exclusive disjunction of symbols and integers. -/
inductive ExclusionTree where
  | symbol (name : String)
  | literal (exact : ExactInt)
  | node (lhs rhs : ExclusionTree)

namespace ExclusionTree

/-- Builds the tree bottom-up. -/
def build
    (builder : Builder) : ExclusionTree → Except ExprError Expr
  | symbol name => .ok (.symbol name)
  | literal exact => .ok exact.literal
  | node lhs rhs => do
    let lhs' ← lhs.build builder
    let rhs' ← rhs.build builder
    builder Operator.bitXor [lhs', rhs']

/-- The names of the symbols, with repetition. -/
def names : ExclusionTree → List String
  | symbol name => [name]
  | literal _ => []
  | node lhs rhs => lhs.names ++ rhs.names

/-- The exclusive disjunction of all integers. -/
def constant : ExclusionTree → Int
  | symbol _ => 0
  | literal exact => exact.whole
  | node lhs rhs => Int.xor lhs.constant rhs.constant

/-- The symbols and the literals. -/
def operands : ExclusionTree → List Expr
  | symbol name => [.symbol name]
  | literal exact => [exact.literal]
  | node lhs rhs => lhs.operands ++ rhs.operands

/-- The tree as one of bitwise operators. -/
def toBitTree : ExclusionTree → BitTree
  | symbol name => .input name
  | literal exact => .literal exact
  | node lhs rhs => .node .exclusion lhs.toBitTree rhs.toBitTree

theorem build_toBitTree
    (builder : Builder)
    (tree : ExclusionTree) :
    tree.toBitTree.build builder = tree.build builder := by
  induction tree with
  | symbol name =>
      rfl
  | literal exact =>
      rfl
  | node lhs rhs lhsHypothesis rhsHypothesis =>
      rw [toBitTree, BitTree.build, build, lhsHypothesis, rhsHypothesis]
      rfl

theorem isAtom_of_mem_operands
    (tree : ExclusionTree) :
    ∀ item ∈ tree.operands, item.IsAtom := by
  induction tree with
  | symbol name =>
      exact List.forall_mem_singleton.mpr (.symbol name)
  | literal exact =>
      exact List.forall_mem_singleton.mpr (.of_literal exact)
  | node lhs rhs lhsHypothesis rhsHypothesis =>
      exact List.forall_mem_append.mpr ⟨lhsHypothesis, rhsHypothesis⟩

theorem count_operands
    (tree : ExclusionTree)
    (name : String) :
    tree.operands.count (.symbol name) = tree.names.count name := by
  induction tree with
  | symbol other =>
      simp [operands, names, List.count_singleton]
  | literal exact =>
      rw [operands, names, List.count_nil, List.count_eq_zero]
      intro member
      exact exact.literal_ne_symbol name (List.mem_singleton.mp member).symm
  | node lhs rhs lhsHypothesis rhsHypothesis =>
      rw [operands, names, List.count_append, List.count_append, lhsHypothesis,
        rhsHypothesis]

/-- The word of the tree is what its operands combine to. -/
theorem ofInt_value
    (values : String → ExactInt)
    (tree : ExclusionTree) :
    BitVec.ofInt 64 (tree.toBitTree.value values) =
      exclusion.total values tree.operands := by
  induction tree with
  | symbol name =>
      exact BitVec.xor_zero.symm
  | literal exact =>
      rw [operands, total_cons, exact.word_literal]
      exact BitVec.xor_zero.symm
  | node lhs rhs lhsHypothesis rhsHypothesis =>
      rw [toBitTree, BitTree.value, exclusion.ofInt_onInts, lhsHypothesis,
        rhsHypothesis, operands, exclusion.total_append]

/-- If all symbols are zero, the value of the tree is its constant. -/
theorem value_blank
    (tree : ExclusionTree) :
    tree.toBitTree.value blank = tree.constant := by
  induction tree with
  | symbol name =>
      rfl
  | literal exact =>
      rfl
  | node lhs rhs lhsHypothesis rhsHypothesis =>
      rw [toBitTree, BitTree.value, constant, lhsHypothesis, rhsHypothesis]
      rfl

/-- The operands of two trees combine to the same under all values if and only if the trees agree. -/
theorem total_operands_eq_iff
    (tree tree' : ExclusionTree) :
    (∀ values,
        exclusion.total values tree.operands =
          exclusion.total values tree'.operands) ↔
      (∀ name, tree.names.count name % 2 = tree'.names.count name % 2) ∧
        tree.constant = tree'.constant := by
  have atoms := tree.isAtom_of_mem_operands
  have atoms' := tree'.isAtom_of_mem_operands
  constructor
  · intro same
    refine ⟨fun name => ?_, ?_⟩
    · rw [← count_operands, ← count_operands]
      exact count_mod_eq_of_total_eq atoms atoms' same name
    · obtain ⟨exact, whole⟩ := tree.toBitTree.exists_exact_value blank
      obtain ⟨exact', whole'⟩ := tree'.toBitTree.exists_exact_value blank
      have blankSame := same blank
      rw [← ofInt_value, ← ofInt_value, ← whole, ← whole'] at blankSame
      rw [← value_blank, ← value_blank, ← whole, ← whole']
      exact ExactInt.eq_of_word blankSame
  · rintro ⟨symbols, constants⟩
    refine total_eq_of_count_mod_eq atoms atoms' ?_ fun name => ?_
    · rw [← ofInt_value, ← ofInt_value, value_blank, value_blank, constants]
    · rw [count_operands, count_operands]
      exact symbols name

/-! ## Building -/

section Building

variable {workspace workspace' : Workspace} {tree tree' : ExclusionTree}
  {result result' : Expr}

/-- What a tree is built to is a cancelled chain. -/
theorem isCancelledChain_of_build
    (built : tree.build workspace.apply = .ok result) :
    IsCancelledChain result := by
  induction tree generalizing result with
  | symbol name =>
      cases built
      exact isCancelledChain_of_isAtom (.symbol name)
  | literal exact =>
      cases built
      exact isCancelledChain_of_isAtom (.of_literal exact)
  | node lhs rhs lhsHypothesis rhsHypothesis =>
      obtain ⟨lhs', lhsBuilt, built⟩ := exists_of_bind_eq_ok built
      obtain ⟨rhs', rhsBuilt, built⟩ := exists_of_bind_eq_ok built
      exact isCancelledChain_of_apply (lhsHypothesis lhsBuilt).isExclusion
        (rhsHypothesis rhsBuilt).isExclusion built

/-- The chain that a tree is built to combines to the same as the tree. -/
theorem total_flatten_of_build
    (built : tree.build workspace.apply = .ok result)
    (values : String → ExactInt) :
    exclusion.total values (Chain.flatten Operator.bitXor result) =
      exclusion.total values tree.operands := by
  rw [← build_toBitTree] at built
  have denotes :
      result.Denotes tree.toBitTree.inputs values
        (BitVec.ofInt 64 (tree.toBitTree.value values)) :=
    BitTree.build_denotes (fun _ => id) built
  have joins :
      exclusion.Joins tree.toBitTree.inputs values
        (Chain.flatten Operator.bitXor result) (result.word values) :=
    .flatten denotes.bitwise
  rw [joins.total_eq, denotes.word_eq, ofInt_value]

/-- Every tree can be built if two passes are granted. -/
theorem exists_build
    (enough : 2 ≤ workspace.ceiling)
    (tree : ExclusionTree) :
    ∃ result, tree.build workspace.apply = .ok result := by
  induction tree with
  | symbol name =>
      exact ⟨_, rfl⟩
  | literal exact =>
      exact ⟨_, rfl⟩
  | node lhs rhs lhsHypothesis rhsHypothesis =>
      obtain ⟨lhs', lhsBuilt⟩ := lhsHypothesis
      obtain ⟨rhs', rhsBuilt⟩ := rhsHypothesis
      rw [build, lhsBuilt, ok_bind, rhsBuilt, ok_bind]
      exact exists_apply_exclusion enough
        (isCancelledChain_of_build lhsBuilt).isExclusion
        (isCancelledChain_of_build rhsBuilt).isExclusion

/--
Exclusive disjunctions that can be built are equal if and only if every symbol occurs with the same parity in
both and the exclusive disjunction of all integers is the same in both.
-/
theorem build_eq_iff_parity
    (built : tree.build workspace.apply = .ok result)
    (built' : tree'.build workspace'.apply = .ok result') :
    result = result' ↔
      (∀ name, tree.names.count name % 2 = tree'.names.count name % 2) ∧
        tree.constant = tree'.constant := by
  rw [← total_operands_eq_iff]
  constructor
  · rintro rfl values
    rw [← total_flatten_of_build built, total_flatten_of_build built']
  · intro same
    refine (isCancelledChain_of_build built).eq_of_total_eq
      (isCancelledChain_of_build built') fun values => ?_
    rw [total_flatten_of_build built, total_flatten_of_build built', same]

/-- Two ways of writing `5 ^ y ^ z`, in which other symbols and integers cancel. -/
theorem build_eq_iff_parity_regrouped :
    let x := symbol "x"
    let y := symbol "y"
    let z := symbol "z"
    let three := literal ⟨3, by decide, by decide⟩
    let six := literal ⟨6, by decide, by decide⟩
    let five := literal ⟨5, by decide, by decide⟩
    let tree := node (node (node x three) (node z y)) (node six x)
    let tree' := node z (node (node five (node z y)) z)
    let result :=
      Expr.apply Operator.bitXor
        [.number 5, .apply Operator.bitXor [.symbol "y", .symbol "z"]]
    tree.build ({} : Workspace).apply = .ok result ∧
      tree'.build ({} : Workspace).apply = .ok result ∧
        (∀ name, tree.names.count name % 2 = tree'.names.count name % 2) ∧
          tree.constant = tree'.constant := by
  intro x y z three six five tree tree' result
  have built : tree.build ({} : Workspace).apply = .ok result := by
    decide +kernel
  have built' : tree'.build ({} : Workspace).apply = .ok result := by
    decide +kernel
  exact ⟨built, built', (build_eq_iff_parity built built').mp rfl⟩

end Building

end ExclusionTree

end SymbolicAlgebra
