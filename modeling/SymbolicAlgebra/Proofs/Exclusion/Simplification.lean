import SymbolicAlgebra.Proofs.Exclusion.Rules

/-!
# Simplifying exclusive disjunctions

A visit to an exclusive disjunction of symbols and integers sorts and merges the operands of the whole chain
and cancels them in pairs, whatever state the parts are in.  So does a pass, and with it the whole
simplification.
-/

namespace SymbolicAlgebra

open SymbolicAlgebra.Expr
open BitOperator (exclusion)

/-- The sorted chain of merged and cancelled operands. -/
def IsCancelledChain
    (expr : Expr) : Prop :=
  ∃ items, IsCancelled items ∧ IsChainOf Operator.bitXor (sortCanonically items) expr

variable {table : SymbolTable} {expr lhs rhs : Expr} {items : List Expr}

/-! ## Chains of merged operands -/

/-- A chain of atoms is an exclusive disjunction. -/
theorem isExclusion_of_isChainOf
    (atoms : ∀ item ∈ items, item.IsAtom)
    (isChain : IsChainOf Operator.bitXor items expr) :
    expr.IsExclusion := by
  obtain ⟨first, rest, flat, rfl⟩ := exists_nested_of_isRightNested isChain.isNested
  rw [isChain.flatten_eq] at flat
  rw [flat] at atoms
  exact combines_nested atoms

/-- The chain of merged operands can be built in sorted order. -/
theorem exists_build_of_isMerged
    (table : SymbolTable)
    (merged : IsMerged items)
    (nonempty : items ≠ []) :
    ∃ chain,
      Chain.build table.construct Operator.bitXor (sortCanonically items) =
          .ok chain ∧
        IsChainOf Operator.bitXor (sortCanonically items) chain := by
  have permuted := sortCanonically_perm items
  have sortedMerged : IsMerged (sortCanonically items) :=
    merged.of_subperm permuted.subperm
  have sorted : (sortCanonically items).Pairwise (NotAfter canonicalCompare) :=
    canonicalCompare_linearOn_plainlyNamed.sortBy_pairwise
      fun item member => (merged.atoms item member).plainlyNamed
  have sortedNonempty : sortCanonically items ≠ [] := by
    intro none
    rw [none] at permuted
    exact nonempty permuted.symm.eq_nil
  obtain ⟨first, rest, same⟩ := List.exists_cons_of_ne_nil sortedNonempty
  rw [same] at sortedMerged sorted ⊢
  have singles : ∀ item ∈ first :: rest, item.isApplyOf Operator.bitXor = false :=
    fun item member => (sortedMerged.atoms item member).not_isApplyOf _
  refine ⟨_, build_of_sorted singles sorted fun suffix => ?_, isChainOf_nested singles⟩
  exact construct_exclusion table
    (unevaluated_of_suffix suffix sortedMerged.oneLiteral)

/-! ## Visiting an exclusive disjunction -/

/-- Regrouping makes the sorted chain of merged operands. -/
theorem exists_result_reassociate
    (table : SymbolTable)
    (isExclusion : expr.IsExclusion) :
    ∃ items,
      IsMerged items ∧
        IsChainOf Operator.bitXor (sortCanonically items)
          (Transform.reassociate?.result table expr) := by
  cases isExclusion with
  | @operand expr isAtom =>
      have waits : Transform.reassociate? table table.construct expr = none := by
        cases isAtom <;> rfl
      rw [result_of_none waits]
      exact ⟨[expr], (isCancelled_singleton isAtom).toIsMerged,
        isChainOf_singleton (isAtom.not_isApplyOf _)⟩
  | @node lhs rhs lhsExclusion rhsExclusion =>
      obtain ⟨items, merged, nonempty, regroups⟩ :=
        exists_regrouping? (.node lhsExclusion rhsExclusion)
      refine ⟨items, merged, ?_⟩
      have sorts :=
        Transform.reassociate?_eq (specOf?_bitXor table) rfl rfl
          table.construct [lhs, rhs]
      rw [regroups] at sorts
      unfold Transform.rebuilding? at sorts
      split at sorts
      · rename_i done
        rw [result_of_none sorts]
        exact ⟨done.1.symm, done.2⟩
      · obtain ⟨chain, built, isChain⟩ :=
          exists_build_of_isMerged table merged nonempty
        rw [Option.bind_some, Regrouping.build?, built] at sorts
        rw [result_of_some sorts]
        exact isChain

theorem isCancelledChain_of_isAtom
    (isAtom : expr.IsAtom) :
    IsCancelledChain expr :=
  ⟨[expr], isCancelled_singleton isAtom, isChainOf_singleton (isAtom.not_isApplyOf _)⟩

/-- Cancelling the operands of a merged chain in pairs makes a cancelled chain. -/
theorem isCancelledChain_result_bitIdentities
    (table : SymbolTable)
    (merged : IsMerged items)
    (isChain : IsChainOf Operator.bitXor (sortCanonically items) expr) :
    IsCancelledChain (Transform.bitIdentities?.result table expr) := by
  have permuted := sortCanonically_perm items
  have sortedMerged : IsMerged (sortCanonically items) :=
    merged.of_subperm permuted.subperm
  obtain ⟨first, rest, flat, rfl⟩ := exists_nested_of_isRightNested isChain.isNested
  rw [isChain.flatten_eq] at flat
  -- The rule waits at a single operand, which need not be an application at all.
  cases rest with
  | nil =>
      have isAtom : first.IsAtom :=
        sortedMerged.atoms first (flat ▸ List.mem_cons_self)
      have waits : Transform.bitIdentities? table table.construct first = none := by
        cases isAtom <;> rfl
      rw [nested, result_of_none waits]
      exact isCancelledChain_of_isAtom isAtom
  | cons second rest =>
      have cancels :
          Transform.bitIdentities? table table.construct
              (nested Operator.bitXor first (second :: rest)) =
            Transform.cancelPairs? table.construct
              (nested Operator.bitXor first (second :: rest)) :=
        rfl
      simp only [Transform.cancelPairs?, isChain.flatten_eq] at cancels
      split at cancels
      · rename_i sameLength
        have kept :
            (Transform.oddItems (sortCanonically items)).Perm
              (sortCanonically items) :=
          (Transform.oddItems_subperm _).perm_of_length_le sameLength.ge
        have distinct : items.Nodup :=
          (kept.trans permuted).nodup_iff.mp (Transform.nodup_oddItems _)
        rw [result_of_none cancels]
        exact ⟨items, ⟨merged, distinct⟩, isChain⟩
      · have keptCancelled :
            IsCancelled (Transform.oddItems (sortCanonically items)) :=
          ⟨sortedMerged.of_subperm (Transform.oddItems_subperm _),
            Transform.nodup_oddItems _⟩
        split at cancels
        · rw [result_of_some cancels]
          exact isCancelledChain_of_isAtom (.literal default rfl)
        · rename_i notEmpty
          obtain ⟨chain, built, keptChain⟩ :=
            exists_build_of_isMerged table keptCancelled.toIsMerged
              (by simpa using notEmpty)
          rw [built] at cancels
          rw [result_of_some cancels]
          exact ⟨_, keptCancelled, keptChain⟩

/-- Visiting an exclusive disjunction makes a cancelled chain. -/
theorem isCancelledChain_visited
    (table : SymbolTable)
    (isExclusion : expr.IsExclusion) :
    IsCancelledChain (visited table catalogue expr) := by
  obtain ⟨items, merged, isChain⟩ :=
    exists_result_reassociate table (isExclusion_of_visited table isExclusion)
  exact isCancelledChain_result_bitIdentities table merged isChain

theorem IsCancelledChain.isExclusion
    (cancelled : IsCancelledChain expr) :
    expr.IsExclusion := by
  obtain ⟨items, isCancelled, isChain⟩ := cancelled
  refine isExclusion_of_isChainOf (fun item member => ?_) isChain
  exact isCancelled.atoms item ((sortCanonically_perm items).mem_iff.mp member)

/-- Cancelled chains of operands that combine to the same under all values are the same. -/
theorem IsCancelledChain.eq_of_total_eq
    {expr' : Expr}
    (cancelled : IsCancelledChain expr)
    (cancelled' : IsCancelledChain expr')
    (same :
      ∀ values,
        exclusion.total values (Chain.flatten Operator.bitXor expr) =
          exclusion.total values (Chain.flatten Operator.bitXor expr')) :
    expr = expr' := by
  have nonempty := cancelled.isExclusion.flatten_ne_nil
  have nonempty' := cancelled'.isExclusion.flatten_ne_nil
  obtain ⟨items, isCancelled, isChain⟩ := cancelled
  obtain ⟨items', isCancelled', isChain'⟩ := cancelled'
  have sorts := sortCanonically_perm items
  have sorts' := sortCanonically_perm items'
  rw [isChain.flatten_eq] at nonempty same
  rw [isChain'.flatten_eq] at nonempty' same
  have permuted : (sortCanonically items).Perm (sortCanonically items') :=
    (isCancelled.of_perm sorts).perm_of_total_eq (isCancelled'.of_perm sorts')
      nonempty nonempty' same
  have sorted : sortCanonically items = sortCanonically items' :=
    canonicalCompare_linearOn_plainlyNamed.sortBy_eq_of_perm
      (fun item member => (isCancelled.atoms item member).plainlyNamed)
      (sorts.symm.trans (permuted.trans sorts'))
  rw [← sorted] at isChain'
  exact isChain.unique isChain'

/-- A cancelled chain is a bitwise term. -/
theorem IsCancelledChain.exists_isBitwise
    (cancelled : IsCancelledChain expr) :
    ∃ names, expr.IsBitwise names := by
  have nonempty := cancelled.isExclusion.flatten_ne_nil
  obtain ⟨items, isCancelled, isChain⟩ := cancelled
  have permuted := sortCanonically_perm items
  rw [isChain.flatten_eq] at nonempty
  obtain ⟨chain, built, isChain'⟩ :=
    exists_build_of_isMerged {} isCancelled.toIsMerged fun none =>
      nonempty (permuted.trans (.of_eq none)).eq_nil
  obtain rfl := isChain.unique isChain'
  have atoms := (isCancelled.of_perm permuted).atoms
  have joins :
      exclusion.Joins _ blank (sortCanonically items) _ :=
    ⟨isBitwise_of_atoms atoms, rfl⟩
  exact ⟨_, (joins.build built).bitwise⟩

/-! ## Simplifying an exclusive disjunction -/

/-- A pass over an exclusive disjunction succeeds and makes a cancelled chain. -/
theorem exists_pass_exclusion
    (table : SymbolTable)
    (isExclusion : expr.IsExclusion) :
    ∃ next,
      pass table catalogue expr = .ok next ∧ IsCancelledChain next := by
  induction isExclusion with
  | @operand expr isAtom =>
      exact ⟨expr, pass_leaf isAtom.isLeaf, isCancelledChain_of_isAtom isAtom⟩
  | node lhsExclusion rhsExclusion lhsHypothesis rhsHypothesis =>
      obtain ⟨lhs', lhsPassed, lhsCancelled⟩ := lhsHypothesis
      obtain ⟨rhs', rhsPassed, rhsCancelled⟩ := rhsHypothesis
      obtain ⟨built, constructed, builtExclusion⟩ :=
        exists_construct_exclusion table lhsCancelled.isExclusion
          rhsCancelled.isExclusion
      obtain ⟨node, shape, passes⟩ :=
        exists_pass_pair rfl lhsPassed rhsPassed constructed
      refine ⟨_, passes, isCancelledChain_visited table ?_⟩
      rcases shape with rfl | rfl
      · exact .node lhsCancelled.isExclusion rhsCancelled.isExclusion
      · exact builtExclusion

/-- Passes over an exclusive disjunction end with a cancelled chain, if they end. -/
theorem isCancelledChain_of_settle?
    {done ceiling : Nat}
    {settled : Expr × Nat}
    (isExclusion : expr.IsExclusion)
    (outcome :
      settle? (pass table catalogue) done expr ceiling = .ok (some settled)) :
    IsCancelledChain settled.1 := by
  induction ceiling generalizing expr done with
  | zero =>
      cases outcome
  | succ ceiling inductionHypothesis =>
      obtain ⟨next, passes, cancelled⟩ := exists_pass_exclusion table isExclusion
      rw [settle?, passes, ok_bind] at outcome
      split at outcome
      · cases outcome
        exact cancelled
      · exact inductionHypothesis cancelled.isExclusion outcome

/-- What two exclusive disjunctions are put together to is a cancelled chain. -/
theorem isCancelledChain_of_apply
    {workspace : Workspace}
    {result : Expr}
    (lhsExclusion : lhs.IsExclusion)
    (rhsExclusion : rhs.IsExclusion)
    (outcome : workspace.apply Operator.bitXor [lhs, rhs] = .ok result) :
    IsCancelledChain result := by
  obtain ⟨raw, constructed, isExclusion⟩ :=
    exists_construct_exclusion workspace.table lhsExclusion rhsExclusion
  obtain ⟨raw', constructed', finishes⟩ := exists_raw_of_apply outcome
  obtain rfl := Except.ok.inj (constructed.symm.trans constructed')
  rcases finishes with ⟨isLeaf, rfl⟩ | simplified
  · cases isExclusion with
    | operand isAtom =>
        exact isCancelledChain_of_isAtom isAtom
    | node lhsExclusion rhsExclusion =>
        cases isLeaf
  · obtain ⟨passes, settles⟩ := exists_settle?_of_simplify simplified
    exact isCancelledChain_of_settle? isExclusion settles

/-- A cancelled chain is a fixed point. -/
theorem IsCancelledChain.pass_eq_self
    (table : SymbolTable)
    (cancelled : IsCancelledChain expr) :
    pass table catalogue expr = .ok expr := by
  obtain ⟨next, passes, nextCancelled⟩ :=
    exists_pass_exclusion table cancelled.isExclusion
  obtain ⟨names, bitwise⟩ := cancelled.exists_isBitwise
  have same : expr = next := by
    refine cancelled.eq_of_total_eq nextCancelled fun values => ?_
    have respects :
        Builder.Respects table.construct (KeepsWord names values) :=
      keepsWord_respected table
    have denotes : next.Denotes names values (expr.word values) :=
      (related_pass respects (fun _ => catalogue_keepsWord table) passes).denotes
        bitwise
    have joins :
        exclusion.Joins names values
          (Chain.flatten Operator.bitXor expr) (expr.word values) :=
      .flatten bitwise
    have nextJoins :
        exclusion.Joins names values
          (Chain.flatten Operator.bitXor next) (next.word values) :=
      .flatten denotes.bitwise
    rw [joins.total_eq, nextJoins.total_eq, denotes.word_eq]
  rw [passes, ← same]

/-- Two exclusive disjunctions can be put together if two passes are granted. -/
theorem exists_apply_exclusion
    {workspace : Workspace}
    (enough : 2 ≤ workspace.ceiling)
    (lhsExclusion : lhs.IsExclusion)
    (rhsExclusion : rhs.IsExclusion) :
    ∃ result, workspace.apply Operator.bitXor [lhs, rhs] = .ok result := by
  obtain ⟨raw, constructed, isExclusion⟩ :=
    exists_construct_exclusion workspace.table lhsExclusion rhsExclusion
  obtain ⟨next, passes, cancelled⟩ :=
    exists_pass_exclusion workspace.table isExclusion
  cases isLeaf : raw.isLeaf with
  | true =>
      refine ⟨raw, ?_⟩
      rw [Workspace.apply, constructed, ok_bind, isLeaf]
      rfl
  | false =>
      refine ⟨next, ?_⟩
      rw [apply_eq_simplify constructed isLeaf]
      exact simplify_of_pass enough passes (cancelled.pass_eq_self _)

end SymbolicAlgebra
