import SymbolicAlgebra.Proofs.Bitwise.Evaluation
import SymbolicAlgebra.Proofs.Chain.Canonical
import SymbolicAlgebra.Proofs.Closure.Simplification
import SymbolicAlgebra.Proofs.Exclusion.Operands

/-!
# Rules on exclusive disjunctions

The rules that come before regrouping make an exclusive disjunction of symbols and integers of another one.
Regrouping then folds the integers, drops a zero and is left with merged operands.
-/

namespace SymbolicAlgebra

open SymbolicAlgebra.Expr

/-- An exclusive disjunction of symbols and integers, nested in any way. -/
abbrev Expr.IsExclusion : Expr → Prop :=
  Combines Operator.bitXor IsAtom

variable {table : SymbolTable} {expr lhs rhs : Expr}

namespace Expr.IsExclusion

theorem isAtom_of_mem_flatten
    (isExclusion : expr.IsExclusion) :
    ∀ item ∈ Chain.flatten Operator.bitXor expr, item.IsAtom := by
  intro item member
  exact isExclusion.kind_of_mem_flatten (fun isAtom => isAtom.not_isApplyOf _) member

theorem flatten_ne_nil
    (isExclusion : expr.IsExclusion) :
    Chain.flatten Operator.bitXor expr ≠ [] :=
  Combines.flatten_ne_nil isExclusion fun isAtom => isAtom.not_isApplyOf _

/-- A literal is not combined of anything. -/
theorem exists_literal
    (isExclusion : expr.IsExclusion)
    (isNumber : expr.isNumber = true) :
    ∃ exact : ExactInt, expr = exact.literal := by
  cases isExclusion with
  | operand isAtom =>
      exact isAtom.exists_literal isNumber
  | node lhsCombines rhsCombines =>
      cases isNumber

end Expr.IsExclusion

theorem specOf?_bitXor
    (table : SymbolTable) :
    table.specOf? Operator.bitXor = some BitOperator.exclusion.spec :=
  BitOperator.exclusion.specOf?_symbol table

/-- An application to operands that are not both literals is stored with the operands in order. -/
theorem construct_exclusion
    (table : SymbolTable)
    (unevaluated : (lhs.isNumber && rhs.isNumber) = false) :
    table.construct Operator.bitXor [lhs, rhs] =
      .ok (.apply Operator.bitXor
        (sortBy (operandCompare Operator.bitXor) [lhs, rhs])) :=
  construct_stored (specOf?_bitXor table)
    (List.cons_ne_nil _ _)
    (BitOperator.exclusion.evaluateLiterals?_eq_none unevaluated) rfl

/-- Putting two exclusive disjunctions together succeeds and makes an exclusive disjunction. -/
theorem exists_construct_exclusion
    (table : SymbolTable)
    (lhsExclusion : lhs.IsExclusion)
    (rhsExclusion : rhs.IsExclusion) :
    ∃ node,
      table.construct Operator.bitXor [lhs, rhs] = .ok node ∧ node.IsExclusion := by
  cases literals : lhs.isNumber && rhs.isNumber with
  | true =>
      obtain ⟨lhsNumber, rhsNumber⟩ := Bool.and_eq_true_iff.mp literals
      obtain ⟨first, rfl⟩ := lhsExclusion.exists_literal lhsNumber
      obtain ⟨second, rfl⟩ := rhsExclusion.exists_literal rhsNumber
      exact ⟨_, BitOperator.exclusion.construct_literals table first second,
        .operand (.of_literal _)⟩
  | false =>
      refine ⟨_, construct_exclusion table literals, ?_⟩
      rcases sortBy_pair_cases (operandCompare Operator.bitXor) lhs rhs with
        same | swapped
      · rw [same]
        exact .node lhsExclusion rhsExclusion
      · rw [swapped]
        exact .node rhsExclusion lhsExclusion

/-! ## The rules that come before regrouping -/

/-- It is enough to look at applications to see that a rule keeps exclusive disjunctions. -/
theorem keeps_isExclusion
    {rule : Rule}
    (member : rule ∈ catalogue)
    (application :
      ∀ {lhs rhs replacement : Expr},
        lhs.IsExclusion → rhs.IsExclusion →
          rule.transform? table table.construct
              (.apply Operator.bitXor [lhs, rhs]) =
            some replacement →
          replacement.IsExclusion) :
    rule.transform?.Keeps table table.construct IsExclusion := by
  intro node replacement isExclusion transformed
  cases isExclusion with
  | operand isAtom =>
      rw [transform?_of_isLeaf member table table.construct isAtom.isLeaf]
        at transformed
      cases transformed
  | node lhsExclusion rhsExclusion =>
      exact application lhsExclusion rhsExclusion transformed

/-- Dropping zeros leaves an exclusive disjunction. -/
theorem isExclusion_of_stripIdentities?
    (table : SymbolTable)
    (isExclusion : expr.IsExclusion) :
    ((Transform.stripIdentities? table table.construct expr).getD
      expr).IsExclusion := by
  induction isExclusion with
  | @operand expr isAtom =>
      have kept : Transform.stripIdentities? table table.construct expr = none := by
        cases isAtom <;> rfl
      rw [kept]
      exact .operand isAtom
  | node lhsExclusion rhsExclusion lhsHypothesis rhsHypothesis =>
      simp only [Transform.stripIdentities?, specOf?_bitXor]
      split
      · exact rhsHypothesis
      · split
        · exact lhsHypothesis
        · exact .node lhsExclusion rhsExclusion

theorem isExclusion_of_evaluateNumeric?
    {replacement : Expr}
    (lhsExclusion : lhs.IsExclusion)
    (rhsExclusion : rhs.IsExclusion)
    (transformed :
      Transform.evaluateNumeric? table table.construct
          (.apply Operator.bitXor [lhs, rhs]) =
        some replacement) :
    replacement.IsExclusion := by
  cases literals : lhs.isNumber && rhs.isNumber with
  | true =>
      obtain ⟨lhsNumber, rhsNumber⟩ := Bool.and_eq_true_iff.mp literals
      obtain ⟨first, rfl⟩ := lhsExclusion.exists_literal lhsNumber
      obtain ⟨second, rfl⟩ := rhsExclusion.exists_literal rhsNumber
      simp only [Transform.evaluateNumeric?, specOf?_bitXor, Option.bind_eq_bind,
        Option.bind_some, BitOperator.evaluateLiterals?_literals] at transformed
      cases transformed
      exact .operand (.of_literal _)
  | false =>
      have waits :
          Transform.evaluateNumeric? table table.construct
              (.apply BitOperator.exclusion.symbol [lhs, rhs]) =
            none :=
        Transform.evaluateNumeric?_eq_none literals
      cases waits.symm.trans transformed

/-- The rules up to regrouping make an exclusive disjunction of an exclusive disjunction. -/
theorem isExclusion_of_visited
    (table : SymbolTable)
    (isExclusion : expr.IsExclusion) :
    (visited table (catalogue.take 10) expr).IsExclusion := by
  refine member_of_visited (fun rule member => ?_) isExclusion
  refine keeps_isExclusion (List.mem_of_mem_take member) ?_
  intro lhs rhs replacement lhsExclusion rhsExclusion transformed
  obtain ⟨powers, subtraction, distribution, division, addition⟩ :=
    Transform.arithmetic_eq_none table table.construct .exclusion lhs rhs
  have conjunction :
      Transform.andOverOr? table table.construct
          (.apply Operator.bitXor [lhs, rhs]) =
        none :=
    rfl
  have absorption :
      Transform.absorbZero? table table.construct
          (.apply Operator.bitXor [lhs, rhs]) =
        none :=
    rfl
  simp only [catalogue, List.take_succ_cons, List.take_zero, List.mem_cons,
    List.not_mem_nil, or_false] at member
  rcases member with rfl | rfl | rfl | rfl | rfl | rfl | rfl | rfl | rfl | rfl
  · obtain ⟨node, constructed, isExclusion⟩ :=
      exists_construct_exclusion table lhsExclusion rhsExclusion
    simp only [Transform.commutativeOrder?, constructed] at transformed
    split at transformed
    · cases transformed
      exact isExclusion
    · cases transformed
  · have stripped :=
      isExclusion_of_stripIdentities? table (.node lhsExclusion rhsExclusion)
    change Transform.stripIdentities? table table.construct _ = _ at transformed
    rw [transformed] at stripped
    exact stripped
  · exact isExclusion_of_evaluateNumeric? lhsExclusion rhsExclusion transformed
  · cases powers.symm.trans transformed
  · cases subtraction.symm.trans transformed
  · cases distribution.symm.trans transformed
  · cases conjunction.symm.trans transformed
  · cases division.symm.trans transformed
  · cases addition.symm.trans transformed
  · cases absorption.symm.trans transformed

/-! ## Regrouping -/

/-- Literals fold into a literal. -/
theorem exists_foldConstants?
    {constants : List Expr}
    (name : String)
    (total : ExactInt)
    (literals : ∀ item ∈ constants, ∃ exact : ExactInt, item = exact.literal) :
    ∃ exact : ExactInt,
      Transform.foldConstants? BitOperator.exclusion.spec name total.literal
          constants =
        some exact.literal := by
  induction constants generalizing total with
  | nil =>
      exact ⟨total, rfl⟩
  | cons next rest inductionHypothesis =>
      obtain ⟨⟨exact, rfl⟩, others⟩ := List.forall_mem_cons.mp literals
      have combined :=
        (BitOperator.exclusion.combine total exact).isNumber_literal
      obtain ⟨folded, folds⟩ :=
        inductionHypothesis (BitOperator.exclusion.combine total exact) others
      refine ⟨folded, ?_⟩
      simp only [Transform.foldConstants?, BitOperator.evaluateLiterals?_literals,
        Option.bind_eq_bind, Option.bind_some, Except.toOption, combined,
        if_true]
      exact folds

/-- Literals come down to one, if there are any. -/
theorem exists_foldedConstants?
    {constants : List Expr}
    (name : String)
    (literals : ∀ item ∈ constants, ∃ exact : ExactInt, item = exact.literal) :
    ∃ folded,
      Transform.foldedConstants? BitOperator.exclusion.spec name constants =
          some folded ∧
        (constants = [] ∧ folded = [] ∨
          ∃ exact : ExactInt, folded = [exact.literal]) := by
  match constants, literals with
  | [], _ =>
      exact ⟨[], rfl, .inl ⟨rfl, rfl⟩⟩
  | [literal], literals =>
      obtain ⟨exact, rfl⟩ := literals literal List.mem_cons_self
      exact ⟨_, rfl, .inr ⟨exact, rfl⟩⟩
  | first :: second :: rest, literals =>
      obtain ⟨⟨exact, rfl⟩, others⟩ := List.forall_mem_cons.mp literals
      obtain ⟨folded, folds⟩ := exists_foldConstants? name exact others
      have evaluates : BitOperator.exclusion.spec.evaluator.isSome = true :=
        rfl
      refine ⟨[folded.literal], ?_, .inr ⟨folded, rfl⟩⟩
      rw [Transform.foldedConstants?, if_pos evaluates, folds]
      rfl

/-- Literals that come down to one are merged with symbols by dropping a zero. -/
theorem isMerged_keptLiterals
    {symbols : List Expr}
    (areSymbols : ∀ item ∈ symbols, ∃ name, item = symbol name)
    (exact : ExactInt) :
    let items :=
      Transform.keptLiterals BitOperator.exclusion.spec symbols [exact.literal] ++
        symbols
    IsMerged items ∧ items ≠ [] := by
  simp only [Transform.keptLiterals]
  split
  · rename_i neutral
    obtain ⟨-, notEmpty⟩ := Bool.and_eq_true_iff.mp neutral
    refine ⟨isMerged_symbols areSymbols, ?_⟩
    simpa using notEmpty
  · rename_i notNeutral
    refine ⟨isMerged_literal_cons areSymbols fun zero => ?_, List.cons_ne_nil _ _⟩
    have identity : Transform.isIdentity BitOperator.exclusion.spec (.number 0) = true :=
      rfl
    rw [zero, identity] at notNeutral
    simpa using notNeutral

/-- Regrouping an exclusive disjunction merges its operands. -/
theorem exists_regrouping?
    {node : Expr}
    (isExclusion : node.IsExclusion) :
    ∃ items,
      IsMerged items ∧ items ≠ [] ∧
        Transform.regrouping? BitOperator.exclusion.spec Operator.bitXor node =
          Transform.rebuilding? Operator.bitXor node (sortCanonically items) := by
  have constants :
      ∀ item ∈ (Chain.flatten Operator.bitXor node).filter (·.isNumber),
        ∃ exact : ExactInt, item = exact.literal := by
    intro item member
    obtain ⟨member, isNumber⟩ := List.mem_filter.mp member
    exact (isExclusion.isAtom_of_mem_flatten item member).exists_literal isNumber
  have symbols :
      ∀ item ∈ Transform.nonliterals Operator.bitXor node,
        ∃ name, item = symbol name := by
    intro item member
    obtain ⟨member, notNumber⟩ := List.mem_filter.mp member
    cases isExclusion.isAtom_of_mem_flatten item member with
    | symbol name =>
        exact ⟨name, rfl⟩
    | literal exact represented =>
        cases notNumber
  obtain ⟨folded, folds, shape⟩ :=
    exists_foldedConstants? (Operator.bitXor.symbol?.getD "") constants
  have literals :
      Transform.literals? BitOperator.exclusion.spec Operator.bitXor node =
        some folded :=
    folds
  have unabsorbed :
      Transform.absorbing? BitOperator.exclusion.spec folded = none :=
    rfl
  rw [Transform.regrouping?_of_literals? literals unabsorbed]
  rcases shape with ⟨noConstants, rfl⟩ | ⟨exact, rfl⟩
  · have all :
        Transform.nonliterals Operator.bitXor node =
          Chain.flatten Operator.bitXor node := by
      rw [Transform.nonliterals, List.filter_eq_self]
      intro item member
      simpa using List.filter_eq_nil_iff.mp noConstants item member
    refine ⟨_, isMerged_symbols symbols, ?_, rfl⟩
    rw [all]
    exact isExclusion.flatten_ne_nil
  · obtain ⟨merged, nonempty⟩ := isMerged_keptLiterals symbols exact
    exact ⟨_, merged, nonempty, rfl⟩

end SymbolicAlgebra
