import SymbolicAlgebra.Chain
import SymbolicAlgebra.Proofs.Linear.Construction
import SymbolicAlgebra.Proofs.Regrouping
import SymbolicAlgebra.Proofs.Simplification

/-!
# Chains of addends

A sum is a chain of addends that add up to its reading.  Regrouping the chain either loses an addend,
because literals are folded or a zero is dropped, or sorts the addends and nothing else.
-/

namespace SymbolicAlgebra

open SymbolicAlgebra.Expr

/-- Expressions are linear and add up to something, or to less. -/
structure AddUp
    (items : List Expr)
    (bound : Reading) : Prop where
  linear :
    ∀ item ∈ items, item.IsLinear
  le :
    (items.map reading).sum ≤ bound

namespace AddUp

variable {table : SymbolTable} {item : Expr} {items later : List Expr}
  {bound bound' : Reading}

theorem nil :
    AddUp [] 0 :=
  ⟨by simp, le_rfl⟩

theorem cons
    (itemWithin : item.Within bound)
    (itemsAddUp : AddUp items bound') :
    AddUp (item :: items) (bound + bound') := by
  refine ⟨List.forall_mem_cons.mpr ⟨itemWithin.linear, itemsAddUp.linear⟩, ?_⟩
  rw [List.map_cons, List.sum_cons]
  exact Reading.add_le_add itemWithin.le itemsAddUp.le

theorem mono
    (itemsAddUp : AddUp items bound)
    (le : bound ≤ bound') :
    AddUp items bound' :=
  ⟨itemsAddUp.linear, itemsAddUp.le.trans le⟩

theorem append
    (itemsAddUp : AddUp items bound)
    (laterAddUp : AddUp later bound') :
    AddUp (items ++ later) (bound + bound') := by
  refine ⟨List.forall_mem_append.mpr ⟨itemsAddUp.linear, laterAddUp.linear⟩, ?_⟩
  rw [List.map_append, List.sum_append]
  exact Reading.add_le_add itemsAddUp.le laterAddUp.le

theorem of_perm
    (itemsAddUp : AddUp items bound)
    (permuted : items.Perm later) :
    AddUp later bound := by
  refine ⟨fun item member => itemsAddUp.linear item (permuted.mem_iff.mpr member),
    ?_⟩
  rw [← (permuted.map reading).sum_eq]
  exact itemsAddUp.le

/-- The chain of addends can be built and reads as what they add up to. -/
theorem exists_build
    (itemsAddUp : AddUp items bound)
    (nonempty : items ≠ [])
    (small : bound.weight < 2 ^ 53) :
    ∃ result,
      Chain.build table.construct Operator.add items = .ok result ∧
        result.Within bound := by
  induction items generalizing bound with
  | nil =>
      exact (nonempty rfl).elim
  | cons item rest inductionHypothesis =>
      obtain ⟨itemLinear, restLinear⟩ :=
        List.forall_mem_cons.mp itemsAddUp.linear
      have le := itemsAddUp.le
      rw [List.map_cons, List.sum_cons] at le
      cases rest with
      | nil =>
          refine ⟨item, rfl, itemLinear, ?_⟩
          simpa using le
      | cons next others =>
          have magnitude := le.2.1
          rw [Reading.add_weight] at magnitude
          have restAddUp :
              AddUp (next :: others) ((next :: others).map reading).sum :=
            ⟨restLinear, le_rfl⟩
          obtain ⟨chain, built, chainWithin⟩ :=
            inductionHypothesis restAddUp (List.cons_ne_nil _ _) (by omega)
          obtain ⟨result, constructed, resultWithin⟩ :
              ∃ result,
                table.construct Operator.add [item, chain] = .ok result ∧
                  result.Within _ :=
            exists_construct_sum itemLinear.within chainWithin
              (by rw [Reading.add_weight]; omega)
          refine ⟨result, ?_, resultWithin.mono le⟩
          rw [Chain.build, built]
          exact constructed

/-- Likewise after the addends have been sorted. -/
theorem exists_build_sorted
    (itemsAddUp : AddUp items bound)
    (nonempty : items ≠ [])
    (small : bound.weight < 2 ^ 53) :
    ∃ result,
      Chain.build table.construct Operator.add (sortCanonically items) =
          .ok result ∧
        result.Within bound := by
  have sorted := sortBy_perm canonicalCompare items
  refine (itemsAddUp.of_perm sorted.symm).exists_build (fun empty => ?_) small
  rw [empty] at sorted
  exact nonempty sorted.symm.eq_nil

end AddUp

/-! ## Flattening -/

/-- The operands of a chain are linear, not sums, and add up to the reading of the chain. -/
theorem flatten_sum
    {expr : Expr}
    (linear : expr.IsLinear) :
    (∀ item ∈ Chain.flatten Operator.add expr,
        item.IsLinear ∧ item.isApplyOf Operator.add = false) ∧
      ((Chain.flatten Operator.add expr).map reading).sum = expr.reading := by
  have single
      {expr : Expr}
      (linear : expr.IsLinear)
      (other : expr.isApplyOf Operator.add = false) :
      (∀ item ∈ Chain.flatten Operator.add expr,
          item.IsLinear ∧ item.isApplyOf Operator.add = false) ∧
        ((Chain.flatten Operator.add expr).map reading).sum = expr.reading := by
    rw [Chain.flatten_of_not_isApplyOf other]
    simp [linear, other]
  induction linear with
  | literal small =>
      exact single (.literal small) rfl
  | symbol name =>
      exact single (.symbol name) rfl
  | sum lhsLinear rhsLinear notLiterals lhsHypothesis rhsHypothesis =>
      rw [Chain.flatten_apply, reading_sum]
      simp only [List.flatMap_cons, List.flatMap_nil, List.append_nil,
        List.map_append, List.sum_append, lhsHypothesis.2, rhsHypothesis.2,
        and_true]
      exact List.forall_mem_append.mpr ⟨lhsHypothesis.1, rhsHypothesis.1⟩
  | difference lhsLinear rhsLinear notLiterals =>
      exact single (.difference lhsLinear rhsLinear notLiterals) rfl
  | multiple small nonzero linear notLiteral =>
      exact single (.multiple small nonzero linear notLiteral) rfl

theorem flatten_ne_nil_of_isLinear
    {expr : Expr}
    (linear : expr.IsLinear) :
    Chain.flatten Operator.add expr ≠ [] := by
  intro none
  have sum := (flatten_sum linear).2
  have := linear.cost_pos.1
  rw [none, List.map_nil, List.sum_nil] at sum
  rw [← sum] at this
  exact absurd this (by decide)

section Flatten

variable {expr : Expr} (linear : expr.IsLinear)

include linear

/-- Some of the operands of a chain add up to what they read as. -/
theorem addUp_filter
    (keep : Expr → Bool) :
    AddUp ((Chain.flatten Operator.add expr).filter keep)
      (((Chain.flatten Operator.add expr).filter keep).map reading).sum :=
  ⟨fun item member =>
    ((flatten_sum linear).1 item (List.mem_of_mem_filter member)).1, le_rfl⟩

/-- A chain reads as its literals and the other operands do. -/
theorem reading_eq_literals_add :
    expr.reading =
      (((Chain.flatten Operator.add expr).filter isNumber).map reading).sum +
        ((Transform.nonliterals Operator.add expr).map reading).sum := by
  have split :
      ((Chain.flatten Operator.add expr).filter isNumber ++
          Transform.nonliterals Operator.add expr).Perm
        (Chain.flatten Operator.add expr) :=
    List.filter_append_perm isNumber _
  rw [← (flatten_sum linear).2, ← (split.map reading).sum_eq, List.map_append,
    List.sum_append]

end Flatten

/-! ## Folding literals -/

/-- Literals of a chain are exact integers. -/
theorem exists_wholes
    {items : List Expr}
    (linear : ∀ item ∈ items, item.IsLinear)
    (numbers : ∀ item ∈ items, item.isNumber = true) :
    ∃ values : List Int,
      items = values.map whole ∧ ∀ value ∈ values, value.natAbs < 2 ^ 53 := by
  induction items with
  | nil =>
      exact ⟨[], rfl, by simp⟩
  | cons item rest inductionHypothesis =>
      obtain ⟨itemLinear, restLinear⟩ := List.forall_mem_cons.mp linear
      obtain ⟨isNumber, restNumbers⟩ := List.forall_mem_cons.mp numbers
      obtain ⟨value, small, rfl⟩ := itemLinear.exists_whole isNumber
      obtain ⟨values, rfl, smalls⟩ := inductionHypothesis restLinear restNumbers
      exact ⟨value :: values, rfl, List.forall_mem_cons.mpr ⟨small, smalls⟩⟩

/-- Folding the literals of a sum adds them exactly. -/
theorem foldConstants?_sum
    (name : String)
    {value : Int}
    {values : List Int}
    (small : value.natAbs + (values.map Int.natAbs).sum < 2 ^ 53) :
    Transform.foldConstants? sumSpec name (whole value) (values.map whole) =
      some (whole (value + values.sum)) := by
  induction values generalizing value with
  | nil =>
      rw [List.sum_nil, add_zero]
      rfl
  | cons next rest inductionHypothesis =>
      rw [List.map_cons, List.sum_cons] at small
      have := Int.natAbs_add_le value next
      have evaluated :
          sumSpec.evaluateLiterals? name [whole value, whole next] =
            some (.ok (whole (value + next))) :=
        evaluateLiterals?_sum name (by omega) (by omega) (by omega)
      rw [List.sum_cons, ← add_assoc, ← inductionHypothesis (by omega)]
      simp only [List.map_cons, Transform.foldConstants?, evaluated,
        Option.bind_eq_bind, Option.bind_some, Except.toOption, isNumber_whole,
        if_true]

theorem sum_map_reading_whole
    {values : List Int}
    (smalls : ∀ value ∈ values, value.natAbs < 2 ^ 53) :
    ((values.map whole).map reading).sum =
      ⟨Pi.single none values.sum, (values.map Int.natAbs).sum,
        values.length⟩ := by
  induction values with
  | nil =>
      exact Reading.ext (by simp) rfl rfl
  | cons value rest inductionHypothesis =>
      obtain ⟨small, restSmalls⟩ := List.forall_mem_cons.mp smalls
      simp only [List.map_cons, List.sum_cons, inductionHypothesis restSmalls,
        reading_whole small]
      refine Reading.ext ?_ rfl (Nat.add_comm _ _)
      simp [Pi.single_add]

theorem natAbs_sum_le
    (values : List Int) :
    values.sum.natAbs ≤ (values.map Int.natAbs).sum := by
  induction values with
  | nil =>
      exact le_rfl
  | cons value rest inductionHypothesis =>
      rw [List.sum_cons, List.map_cons, List.sum_cons]
      exact (Int.natAbs_add_le value rest.sum).trans
        (Nat.add_le_add_left inductionHypothesis _)

/-- Exact integers stand for the same sum as others, and are those or fewer. -/
structure Condenses
    (values values' : List Int) : Prop where
  small :
    ∀ value ∈ values', value.natAbs < 2 ^ 53
  sum_eq :
    values'.sum = values.sum
  magnitude_le :
    (values'.map Int.natAbs).sum ≤ (values.map Int.natAbs).sum
  eq_or_shorter :
    values' = values ∨ values'.length < values.length

namespace Condenses

variable {values values' values'' : List Int}

theorem refl
    (small : ∀ value ∈ values, value.natAbs < 2 ^ 53) :
    Condenses values values :=
  ⟨small, rfl, le_rfl, .inl rfl⟩

theorem trans
    (former : Condenses values values')
    (latter : Condenses values' values'') :
    Condenses values values'' := by
  refine ⟨latter.small, latter.sum_eq.trans former.sum_eq,
    latter.magnitude_le.trans former.magnitude_le, ?_⟩
  rcases former.eq_or_shorter with rfl | shorter
  · exact latter.eq_or_shorter
  · rcases latter.eq_or_shorter with rfl | shorter'
    · exact .inr shorter
    · exact .inr (shorter'.trans shorter)

/-- Fewer literals with the same sum add up to the same and cost less. -/
theorem addUp
    (condenses : Condenses values values') :
    AddUp (values'.map whole)
      ⟨Pi.single none values.sum, (values.map Int.natAbs).sum,
        values'.length⟩ := by
  constructor
  · intro item member
    obtain ⟨value, valueMember, rfl⟩ := List.mem_map.mp member
    exact .literal (condenses.small value valueMember)
  · rw [sum_map_reading_whole condenses.small, condenses.sum_eq]
    exact ⟨rfl, condenses.magnitude_le, le_rfl⟩

end Condenses

/-- Folding the literals of a sum leaves no literal or one. -/
theorem exists_foldedConstants?_sum
    (name : String)
    {values : List Int}
    (smalls : ∀ value ∈ values, value.natAbs < 2 ^ 53)
    (small : (values.map Int.natAbs).sum < 2 ^ 53) :
    ∃ values' : List Int,
      Transform.foldedConstants? sumSpec name (values.map whole) =
          some (values'.map whole) ∧
        Condenses values values' ∧ values'.length ≤ 1 ∧
        (values' = [] → values = []) := by
  match values with
  | [] =>
      exact ⟨[], rfl, .refl smalls, Nat.zero_le 1, fun _ => rfl⟩
  | [value] =>
      exact ⟨[value], rfl, .refl smalls, le_rfl, nofun⟩
  | first :: second :: rest =>
      have magnitude := natAbs_sum_le (first :: second :: rest)
      have folded :
          Transform.foldConstants? sumSpec name (whole first)
              ((second :: rest).map whole) =
            some (whole (first :: second :: rest).sum) :=
        foldConstants?_sum name (by simpa using small)
      refine ⟨[(first :: second :: rest).sum], ?_, ⟨?_, by simp, ?_, ?_⟩,
        le_rfl, nofun⟩
      · change Option.map _ (Transform.foldConstants? sumSpec name (whole first)
          ((second :: rest).map whole)) = _
        rw [folded]
        rfl
      · exact List.forall_mem_singleton.mpr (magnitude.trans_lt small)
      · simpa using magnitude
      · exact .inr (by simp)

/-! ## Regrouping -/

/-- A single literal is dropped beside others exactly if it is zero. -/
theorem keptLiterals_singleton
    (others : List Expr)
    {value : Int}
    (small : value.natAbs < 2 ^ 53) :
    Transform.keptLiterals sumSpec others [whole value] =
      if value = 0 ∧ others ≠ [] then [] else [whole value] := by
  have identity :=
    isIdentity_whole (by decide) small effectiveIdentity_sum
  simp [Transform.keptLiterals, identity]

/-- The literals that stay beside others keep the sum of the literals; a single zero goes. -/
theorem exists_keptLiterals_sum
    (others : List Expr)
    {values : List Int}
    (smalls : ∀ value ∈ values, value.natAbs < 2 ^ 53) :
    ∃ values' : List Int,
      Transform.keptLiterals sumSpec others (values.map whole) =
          values'.map whole ∧
        Condenses values values' ∧
        (values' = [] → values = [] ∨ others ≠ []) := by
  match values with
  | [] =>
      exact ⟨[], rfl, .refl smalls, fun _ => .inl rfl⟩
  | [value] =>
      have kept := keptLiterals_singleton others (smalls value (by simp))
      by_cases dropped : value = 0 ∧ others ≠ []
      · rw [if_pos dropped] at kept
        obtain ⟨rfl, some⟩ := dropped
        exact ⟨[], kept, ⟨by simp, rfl, le_rfl, .inr (by simp)⟩,
          fun _ => .inr some⟩
      · rw [if_neg dropped] at kept
        exact ⟨[value], kept, .refl smalls, nofun⟩
  | first :: second :: rest =>
      exact ⟨_, rfl, .refl smalls, nofun⟩

/-- Linear expressions have one canonical order. -/
theorem sortCanonically_eq_of_perm
    {items items' : List Expr}
    (linear : ∀ item ∈ items, item.IsLinear)
    (permuted : items.Perm items') :
    sortCanonically items = sortCanonically items' :=
  canonicalCompare_linearOn_plainlyNamed.sortBy_eq_of_perm
    (fun item member => (linear item member).plainlyNamed) permuted

section Regrouping

variable {table : SymbolTable}

/-- Regrouping a sum builds a chain from the condensed literals and the other addends. -/
theorem reassociate?_sum_eq
    (table : SymbolTable)
    {node : Expr}
    {args : List Expr}
    {literals kept : List Expr}
    (shape : node = .apply Operator.add args)
    (folded : Transform.literals? sumSpec Operator.add node = some literals)
    (keeps :
      Transform.keptLiterals sumSpec
          (Transform.nonliterals Operator.add node) literals =
        kept) :
    Transform.reassociate? table table.construct node =
      let operands :=
        sortCanonically (kept ++ Transform.nonliterals Operator.add node)
      if operands = Chain.flatten Operator.add node ∧
          Chain.isRightNested Operator.add node then
        none
      else
        (Chain.build table.construct Operator.add operands).toOption := by
  have unabsorbed : Transform.absorbing? sumSpec literals = none :=
    rfl
  subst shape
  rw [Transform.reassociate?_eq table.specOf?_add rfl rfl,
    Transform.regrouping?_of_literals? folded unabsorbed, keeps,
    Transform.rebuilding?]
  dsimp only
  split <;> rfl

/-- Regrouping a sum condenses its literals to one at most and sorts what is left. -/
theorem exists_regrouping_sum
    (table : SymbolTable)
    {node : Expr}
    {args : List Expr}
    (shape : node = .apply Operator.add args)
    {values : List Int}
    (numbers :
      (Chain.flatten Operator.add node).filter isNumber = values.map whole)
    (smalls : ∀ value ∈ values, value.natAbs < 2 ^ 53)
    (small : (values.map Int.natAbs).sum < 2 ^ 53) :
    ∃ values' : List Int,
      Condenses values values' ∧ values'.length ≤ 1 ∧
        (values' = [] →
          values = [] ∨ Transform.nonliterals Operator.add node ≠ []) ∧
        Transform.reassociate? table table.construct node =
          let operands :=
            sortCanonically
              (values'.map whole ++ Transform.nonliterals Operator.add node)
          if operands = Chain.flatten Operator.add node ∧
              Chain.isRightNested Operator.add node then
            none
          else
            (Chain.build table.construct Operator.add operands).toOption := by
  obtain ⟨folded, foldedEq, foldedCondenses, short, foldedRemains⟩ :=
    exists_foldedConstants?_sum (Operator.add.symbol?.getD "") smalls small
  obtain ⟨kept, keptEq, keptCondenses, keptRemains⟩ :=
    exists_keptLiterals_sum (Transform.nonliterals Operator.add node)
      foldedCondenses.small
  rw [← numbers] at foldedEq
  refine ⟨kept, foldedCondenses.trans keptCondenses, ?_, ?_,
    reassociate?_sum_eq table shape foldedEq keptEq⟩
  · rcases keptCondenses.eq_or_shorter with rfl | shorter
    · exact short
    · omega
  · intro none
    exact (keptRemains none).imp_left foldedRemains

/--
Regrouping a sum makes it cheaper, or else there is at most one literal among the addends, and all that
happens is that the addends are sorted.
-/
theorem reassociate?_sum
    {node : Expr}
    {args : List Expr}
    (linear : node.IsLinear)
    (shape : node = .apply Operator.add args)
    (small : node.reading.weight < 2 ^ 53) :
    (∃ result,
        Transform.reassociate? table table.construct node = some result ∧
          result.Below node.reading) ∨
      ((Chain.flatten Operator.add node).filter isNumber).length ≤ 1 ∧
        Transform.reassociate? table table.construct node =
          if sortCanonically (Chain.flatten Operator.add node) =
                Chain.flatten Operator.add node ∧
              Chain.isRightNested Operator.add node then
            none
          else
            (Chain.build table.construct Operator.add
              (sortCanonically (Chain.flatten Operator.add node))).toOption := by
  have split :
      ((Chain.flatten Operator.add node).filter isNumber ++
          Transform.nonliterals Operator.add node).Perm
        (Chain.flatten Operator.add node) :=
    List.filter_append_perm isNumber _
  obtain ⟨values, numbers, smalls⟩ :=
    exists_wholes (addUp_filter linear isNumber).linear
      (fun item member => (List.mem_filter.mp member).2)
  have apart := reading_eq_literals_add linear
  rw [numbers, sum_map_reading_whole smalls] at apart
  have weight := congrArg Reading.weight apart
  simp only [Reading.add_weight] at weight
  obtain ⟨values', condenses, short, remains, regroups⟩ :=
    exists_regrouping_sum table shape numbers smalls (by omega)
  rcases condenses.eq_or_shorter with rfl | shorter
  · rw [numbers] at split
    refine .inr ⟨by rwa [numbers, List.length_map], ?_⟩
    rw [regroups, sortCanonically_eq_of_perm
      (fun item member =>
        ((flatten_sum linear).1 item (split.mem_iff.mp member)).1)
      split]
  · -- With fewer literals the chain is built anew, and costs less.
    have different :
        sortCanonically
            (values'.map whole ++ Transform.nonliterals Operator.add node) ≠
          Chain.flatten Operator.add node := by
      intro same
      have lengths :=
        ((sortBy_perm canonicalCompare _).length_eq.symm.trans
          (congrArg List.length same)).trans split.length_eq.symm
      rw [numbers, List.length_append, List.length_append, List.length_map,
        List.length_map] at lengths
      omega
    have nonempty :
        values'.map whole ++ Transform.nonliterals Operator.add node ≠ [] := by
      intro none
      obtain ⟨noLiterals, noOthers⟩ := List.append_eq_nil_iff.mp none
      rcases remains (List.map_eq_nil_iff.mp noLiterals) with rfl | others
      · exact Nat.not_lt_zero _ shorter
      · exact others noOthers
    have othersAddUp :
        AddUp (Transform.nonliterals Operator.add node)
          ((Transform.nonliterals Operator.add node).map reading).sum :=
      addUp_filter linear _
    obtain ⟨result, built, within⟩ :
        ∃ result,
          Chain.build table.construct Operator.add (sortCanonically _) =
              .ok result ∧
            result.Within _ :=
      (condenses.addUp.append othersAddUp).exists_build_sorted nonempty
        (by simp only [Reading.add_weight]; omega)
    refine .inl ⟨result, ?_, ?_⟩
    · rw [regroups]
      simp only [different, false_and, if_false]
      exact congrArg Except.toOption built
    · rw [apart]
      refine within.below (Reading.add_le_add ⟨rfl, le_rfl, shorter.le⟩ le_rfl) ?_
      simp only [Reading.add_cost]
      omega

end Regrouping

end SymbolicAlgebra
