import Mathlib.Data.List.Perm.Basic
import SymbolicAlgebra.Proofs.Bitwise.Term
import SymbolicAlgebra.Proofs.Chain.Operands
import SymbolicAlgebra.Proofs.Simplification

/-!
# Chains of bitwise terms

The word of a chain is what its operands combine to.  Flattening, regrouping, sorting and building a
chain anew do not change it, and neither does cancelling or collapsing repeated operands where the
operator allows for it.
-/

namespace SymbolicAlgebra

variable {names : List String} {values : String → ExactInt}

namespace BitOperator

/-- The word that operands combine to, from right to left. -/
def total
    (op : BitOperator)
    (values : String → ExactInt)
    (items : List Expr) : BitVec 64 :=
  items.foldr (fun item rest => op.onWords (item.word values) rest) op.unit

theorem total_append
    (op : BitOperator)
    (values : String → ExactInt)
    (items later : List Expr) :
    op.total values (items ++ later) =
      op.onWords (op.total values items) (op.total values later) := by
  induction items with
  | nil =>
      exact (op.unit_onWords _).symm
  | cons item rest inductionHypothesis =>
      change op.onWords _ (op.total values (rest ++ later)) =
        op.onWords (op.onWords _ (op.total values rest)) _
      rw [inductionHypothesis, op.onWords_assoc]

theorem total_of_perm
    (op : BitOperator)
    {items items' : List Expr}
    (permuted : items.Perm items') :
    op.total values items = op.total values items' := by
  refine permuted.foldr_eq' ?_ op.unit
  intro first _ second _ rest
  rw [← op.onWords_assoc, ← op.onWords_assoc, op.onWords_comm (second.word values)]

/-- The operands are bitwise terms and combine to the given word. -/
structure Joins
    (op : BitOperator)
    (names : List String)
    (values : String → ExactInt)
    (items : List Expr)
    (word : BitVec 64) : Prop where
  bitwise :
    ∀ item ∈ items, item.IsBitwise names
  total_eq :
    op.total values items = word

namespace Joins

variable {op : BitOperator} {items : List Expr}

theorem nil :
    op.Joins names values [] op.unit :=
  ⟨by simp, rfl⟩

theorem cons
    {item : Expr}
    {itemWord word : BitVec 64}
    (itemDenotes : item.Denotes names values itemWord)
    (itemsJoin : op.Joins names values items word) :
    op.Joins names values (item :: items) (op.onWords itemWord word) := by
  refine ⟨List.forall_mem_cons.mpr ⟨itemDenotes.bitwise, itemsJoin.bitwise⟩, ?_⟩
  rw [← itemDenotes.word_eq, ← itemsJoin.total_eq]
  rfl

theorem singleton
    {item : Expr}
    {word : BitVec 64}
    (denotes : item.Denotes names values word) :
    op.Joins names values [item] word := by
  rw [← op.unit_onWords word, op.onWords_comm]
  exact cons denotes nil

theorem of_singleton
    {item : Expr}
    {word : BitVec 64}
    (join : op.Joins names values [item] word) :
    item.Denotes names values word := by
  refine ⟨join.bitwise item (List.mem_singleton_self item), ?_⟩
  rw [← join.total_eq, total, List.foldr_cons, List.foldr_nil,
    op.onWords_comm, op.unit_onWords]

/-- The first operand can be split off. -/
theorem exists_of_cons
    {item : Expr}
    {word : BitVec 64}
    (itemsJoin : op.Joins names values (item :: items) word) :
    ∃ itemWord restWord,
      item.Denotes names values itemWord ∧
        op.Joins names values items restWord ∧
          word = op.onWords itemWord restWord := by
  obtain ⟨itemBitwise, itemsBitwise⟩ := List.forall_mem_cons.mp itemsJoin.bitwise
  exact ⟨_, _, itemBitwise.denotes, ⟨itemsBitwise, rfl⟩, itemsJoin.total_eq.symm⟩

theorem append
    {later : List Expr}
    {word laterWord : BitVec 64}
    (itemsJoin : op.Joins names values items word)
    (laterJoin : op.Joins names values later laterWord) :
    op.Joins names values (items ++ later) (op.onWords word laterWord) := by
  refine ⟨List.forall_mem_append.mpr ⟨itemsJoin.bitwise, laterJoin.bitwise⟩, ?_⟩
  rw [op.total_append, itemsJoin.total_eq, laterJoin.total_eq]

theorem exists_of_append
    {later : List Expr}
    {word : BitVec 64}
    (join : op.Joins names values (items ++ later) word) :
    ∃ itemsWord laterWord,
      op.Joins names values items itemsWord ∧
        op.Joins names values later laterWord ∧
          word = op.onWords itemsWord laterWord := by
  obtain ⟨itemsBitwise, laterBitwise⟩ := List.forall_mem_append.mp join.bitwise
  refine ⟨_, _, ⟨itemsBitwise, rfl⟩, ⟨laterBitwise, rfl⟩, ?_⟩
  rw [← join.total_eq, op.total_append]

/-- The order of the operands does not matter. -/
theorem of_perm
    {items' : List Expr}
    {word : BitVec 64}
    (itemsJoin : op.Joins names values items word)
    (permuted : items.Perm items') :
    op.Joins names values items' word := by
  refine ⟨fun item member => itemsJoin.bitwise item (permuted.mem_iff.mpr member), ?_⟩
  rw [← itemsJoin.total_eq, op.total_of_perm permuted]

/-- Collecting operands one by one joins them, if each step joins one. -/
theorem foldl
    {step : List Expr → Expr → List Expr}
    (each :
      ∀ {kept item keptWord itemWord},
        op.Joins names values kept keptWord →
          item.Denotes names values itemWord →
            op.Joins names values (step kept item)
              (op.onWords keptWord itemWord))
    {kept : List Expr}
    {keptWord word : BitVec 64}
    (keptJoin : op.Joins names values kept keptWord)
    (itemsJoin : op.Joins names values items word) :
    op.Joins names values (items.foldl step kept)
      (op.onWords keptWord word) := by
  induction items generalizing kept keptWord word with
  | nil =>
      rw [← itemsJoin.total_eq, total, List.foldr_nil, op.onWords_comm,
        op.unit_onWords]
      exact keptJoin
  | cons item rest inductionHypothesis =>
      obtain ⟨itemWord, restWord, itemDenotes, restJoin, rfl⟩ :=
        itemsJoin.exists_of_cons
      rw [← op.onWords_assoc]
      exact inductionHypothesis (each keptJoin itemDenotes) restJoin

/-- The operands of a chain join to its word. -/
theorem flatten
    {expr : Expr}
    (bitwise : expr.IsBitwise names) :
    op.Joins names values (Chain.flatten op.symbol expr) (expr.word values) := by
  induction bitwise with
  | input member =>
      rw [Chain.flatten_of_not_isApplyOf rfl]
      exact singleton (Expr.IsBitwise.input member).denotes
  | literal exact represented =>
      rw [Chain.flatten_of_not_isApplyOf rfl]
      exact singleton (Expr.IsBitwise.literal exact represented).denotes
  | @node head lhs rhs op' isOperator lhsBitwise rhsBitwise unevaluated
      lhsHypothesis rhsHypothesis =>
      subst isOperator
      by_cases same : op' = op
      · subst same
        rw [Chain.flatten_apply, List.flatMap_cons, List.flatMap_singleton,
          Expr.word_node]
        exact lhsHypothesis.append rhsHypothesis
      · have other : (Expr.apply op'.symbol [lhs, rhs]).isApplyOf op.symbol = false :=
          decide_eq_false fun sameSymbol => same (eq_of_symbol sameSymbol)
        rw [Chain.flatten_of_not_isApplyOf other]
        exact singleton
          (Expr.IsBitwise.node op' rfl lhsBitwise rhsBitwise unevaluated).denotes

/-- A chain built from operands denotes what they join to. -/
theorem build
    {table : SymbolTable}
    {word : BitVec 64}
    {result : Expr}
    (itemsJoin : op.Joins names values items word)
    (built : Chain.build table.construct op.symbol items = .ok result) :
    result.Denotes names values word := by
  induction items generalizing word result with
  | nil =>
      cases built
  | cons item rest inductionHypothesis =>
      cases rest with
      | nil =>
          cases built
          exact itemsJoin.of_singleton
      | cons next rest =>
          obtain ⟨itemWord, restWord, itemDenotes, restJoin, rfl⟩ :=
            itemsJoin.exists_of_cons
          obtain ⟨chain, chainBuilt, built⟩ := exists_of_bind_eq_ok built
          exact itemDenotes.construct (inductionHypothesis restJoin chainBuilt)
            built

/-- So does a chain built from the sorted operands. -/
theorem build_sorted
    {table : SymbolTable}
    {word : BitVec 64}
    {result : Expr}
    (itemsJoin : op.Joins names values items word)
    (built :
      (Chain.build table.construct op.symbol
        (Expr.sortCanonically items)).toOption = some result) :
    result.Denotes names values word :=
  (itemsJoin.of_perm (Expr.sortBy_perm _ items).symm).build
    (eq_ok_of_toOption built)

end Joins

end BitOperator

namespace Transform

/-- Cancelling equal operands in pairs keeps what they join to. -/
theorem oddItems_joins
    {items : List Expr}
    {word : BitVec 64}
    (itemsJoin : BitOperator.exclusion.Joins names values items word) :
    BitOperator.exclusion.Joins names values (oddItems items) word := by
  induction items using List.reverseRecOn generalizing word with
  | nil =>
      exact itemsJoin
  | append_singleton items item inductionHypothesis =>
      obtain ⟨itemsWord, itemWord, earlierJoin, itemJoin, rfl⟩ :=
        itemsJoin.exists_of_append
      have keptJoin := inductionHypothesis earlierJoin
      have itemDenotes := itemJoin.of_singleton
      refine BitOperator.Joins.of_perm ?_ (oddItems_concat_perm items item).symm
      split
      · rename_i member
        obtain ⟨pairWord, restWord, pairDenotes, restJoin, rfl⟩ :=
          (keptJoin.of_perm (List.perm_cons_erase member)).exists_of_cons
        rw [pairDenotes.unique itemDenotes]
        have cancelled : itemWord ^^^ restWord ^^^ itemWord = restWord := by
          rw [BitVec.xor_comm itemWord, BitVec.xor_assoc, BitVec.xor_self,
            BitVec.xor_zero]
        change BitOperator.exclusion.Joins names values
          ((oddItems items).erase item) (itemWord ^^^ restWord ^^^ itemWord)
        rw [cancelled]
        exact restJoin
      · rw [BitOperator.onWords_comm]
        exact .cons itemDenotes keptJoin

/-- Collapsing repeated operands keeps what they join to, if the operator is idempotent. -/
theorem distinctItems_joins
    {op : BitOperator}
    {items : List Expr}
    {word : BitVec 64}
    (idempotent : ∀ word, op.onWords word word = word)
    (itemsJoin : op.Joins names values items word) :
    op.Joins names values (distinctItems items) word := by
  rw [← op.unit_onWords word]
  refine BitOperator.Joins.foldl ?_ .nil itemsJoin
  intro kept item keptWord itemWord keptJoin itemDenotes
  split
  · rename_i found
    have split := List.perm_cons_erase (List.contains_iff_mem.mp found)
    obtain ⟨sameWord, restWord, sameDenotes, -, rfl⟩ :=
      (keptJoin.of_perm split).exists_of_cons
    rw [sameDenotes.unique itemDenotes] at keptJoin ⊢
    have collapsed :
        op.onWords (op.onWords itemWord restWord) itemWord =
          op.onWords itemWord restWord := by
      rw [op.onWords_comm, ← op.onWords_assoc, idempotent]
    rw [collapsed]
    exact keptJoin
  · exact keptJoin.append (.singleton itemDenotes)

end Transform

end SymbolicAlgebra
