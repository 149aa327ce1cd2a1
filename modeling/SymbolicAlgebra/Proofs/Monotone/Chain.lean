import SymbolicAlgebra.Proofs.Bitwise.Rules
import SymbolicAlgebra.Proofs.Chain.Canonical

/-!
# Chains of conjunctions and disjunctions

Conjunction and disjunction regroup operands that are no literals: a disjunction all of them, and a
conjunction those that are no disjunctions.
-/

namespace SymbolicAlgebra

open SymbolicAlgebra.Expr

/-- The rules between the one that sorts operands and the one that distributes conjunctions. -/
def rulesBeforeDistribution : List Rule :=
  (catalogue.take 6).tail

/-- The rules between the one that distributes conjunctions and the ones that regroup chains. -/
def rulesAfterDistribution : List Rule :=
  (catalogue.take 10).drop 7

theorem rulesBeforeRegrouping_eq :
    rulesBeforeRegrouping =
      rulesBeforeDistribution ++
        ⟨"distribute-and-or", Transform.andOverOr?⟩ ::
          rulesAfterDistribution :=
  rfl

namespace BitOperator

variable {op : BitOperator} {lhs rhs : Expr}

/-- Operands other than literals are not absorbed. -/
theorem absorbed?_eq_none
    (lhsNotLiteral : lhs.isNumber = false)
    (rhsNotLiteral : rhs.isNumber = false) :
    op.spec.absorbed? [lhs, rhs] = none := by
  rw [Option.eq_none_iff_forall_ne_some]
  intro zero absorbs
  obtain ⟨declared, member⟩ := Option.filter_eq_some_iff.mp absorbs
  obtain ⟨-, rfl⟩ := of_zero declared
  simp only [List.contains_iff_mem, List.mem_cons, List.not_mem_nil, or_false]
    at member
  rcases member with rfl | rfl
  · cases lhsNotLiteral
  · cases rhsNotLiteral

/-- An application to operands other than literals is stored with its operands in order. -/
theorem construct_eq
    (table : SymbolTable)
    (lhsNotLiteral : lhs.isNumber = false)
    (rhsNotLiteral : rhs.isNumber = false) :
    table.construct op.symbol [lhs, rhs] =
      .ok (.apply op.symbol
        (sortBy (operandCompare op.symbol) [lhs, rhs])) := by
  have unevaluated : (lhs.isNumber && rhs.isNumber) = false := by
    rw [lhsNotLiteral, Bool.false_and]
  rw [construct_stored (op.specOf?_symbol table) (List.cons_ne_nil _ _)
    (op.evaluateLiterals?_eq_none unevaluated)
    (absorbed?_eq_none lhsNotLiteral rhsNotLiteral)]
  rfl

/-- No operand other than a literal is neutral. -/
theorem stripIdentities?_eq_none
    {table : SymbolTable}
    {builder : Builder}
    (lhsNotLiteral : lhs.isNumber = false)
    (rhsNotLiteral : rhs.isNumber = false) :
    Transform.stripIdentities? table builder (.apply op.symbol [lhs, rhs]) =
      none := by
  have notNeutral
      {operand : Expr}
      (notLiteral : operand.isNumber = false) :
      op.spec.identity ≠ some operand := by
    intro neutral
    cases op <;> cases neutral <;> cases notLiteral
  rw [Transform.stripIdentities?, op.specOf?_symbol]
  exact (if_neg (notNeutral lhsNotLiteral)).trans
    (if_neg (notNeutral rhsNotLiteral))

/-- Apart from distribution nothing happens to operands other than literals before they are regrouped. -/
theorem waits
    (op : BitOperator)
    {table : SymbolTable}
    (lhsNotLiteral : lhs.isNumber = false)
    (rhsNotLiteral : rhs.isNumber = false)
    {rule : Rule}
    (member : rule ∈ rulesBeforeDistribution ++ rulesAfterDistribution) :
    rule.transform? table table.construct (.apply op.symbol [lhs, rhs]) =
      none := by
  have unevaluated : (lhs.isNumber && rhs.isNumber) = false := by
    rw [lhsNotLiteral, Bool.false_and]
  have evaluation :
      Transform.evaluateNumeric? table table.construct
          (.apply op.symbol [lhs, rhs]) =
        none :=
    Transform.evaluateNumeric?_eq_none unevaluated
  obtain ⟨powers, subtraction, distribution, division, addition⟩ :=
    Transform.arithmetic_eq_none table table.construct op lhs rhs
  simp only [rulesBeforeDistribution, rulesAfterDistribution, catalogue,
    List.take_succ_cons, List.take_zero, List.tail_cons, List.drop_succ_cons,
    List.drop_zero, List.cons_append, List.nil_append, List.mem_cons,
    List.not_mem_nil, or_false] at member
  rcases member with rfl | rfl | rfl | rfl | rfl | rfl | rfl | rfl
  · exact stripIdentities?_eq_none lhsNotLiteral rhsNotLiteral
  · exact evaluation
  · exact powers
  · exact subtraction
  · exact distribution
  · exact division
  · exact addition
  · simp [Transform.absorbZero?, op.specOf?_symbol,
      absorbed?_eq_none lhsNotLiteral rhsNotLiteral]

/-- A conjunction is distributed over its first operand if that is a disjunction. -/
theorem andOverOr?_left
    {first second : Expr}
    (table : SymbolTable)
    (builder : Builder)
    (inLhs : lhs.operands? Operator.bitOr = some (first, second))
    (rhs : Expr) :
    Transform.andOverOr? table builder (.apply Operator.bitAnd [lhs, rhs]) =
      (Transform.spread builder Operator.bitAnd Operator.bitOr rhs first
        second).toOption := by
  simp only [Transform.andOverOr?, Transform.distribute?, operands?_pair,
    inLhs]

/-- A conjunction is distributed over its second operand if only that is a disjunction. -/
theorem andOverOr?_right
    {first second : Expr}
    (table : SymbolTable)
    (builder : Builder)
    (notInLhs : lhs.operands? Operator.bitOr = none)
    (inRhs : rhs.operands? Operator.bitOr = some (first, second)) :
    Transform.andOverOr? table builder (.apply Operator.bitAnd [lhs, rhs]) =
      (Transform.spread builder Operator.bitAnd Operator.bitOr lhs first
        second).toOption := by
  simp only [Transform.andOverOr?, Transform.distribute?, operands?_pair,
    notInLhs, inRhs]

/-- Disjunctions are not distributed, and neither are conjunctions of other things. -/
theorem andOverOr?_eq_none
    (table : SymbolTable)
    (builder : Builder)
    (undistributed :
      op = .conjunction →
        lhs.isApplyOf Operator.bitOr = false ∧
          rhs.isApplyOf Operator.bitOr = false) :
    Transform.andOverOr? table builder (.apply op.symbol [lhs, rhs]) = none := by
  cases op with
  | conjunction =>
      obtain ⟨lhsOther, rhsOther⟩ := undistributed rfl
      change Transform.distribute? builder Operator.bitAnd Operator.bitOr
        (.apply Operator.bitAnd [lhs, rhs]) = none
      simp only [Transform.distribute?, operands?_pair,
        operands?_eq_none_of_not_isApplyOf lhsOther,
        operands?_eq_none_of_not_isApplyOf rhsOther]
  | _ =>
      rfl

variable {kind : Expr → Prop}

theorem isNumber_of_combines
    (notLiteral : ∀ {item}, kind item → item.isNumber = false)
    {expr : Expr}
    (combines : Combines op.symbol kind expr) :
    expr.isNumber = false := by
  cases combines with
  | operand isKind =>
      exact notLiteral isKind
  | node lhsCombines rhsCombines =>
      rfl

theorem plainlyNamed_of_combines
    (plainlyNamed : ∀ {item}, kind item → item.PlainlyNamed)
    {expr : Expr}
    (combines : Combines op.symbol kind expr) :
    expr.PlainlyNamed := by
  induction combines with
  | operand isKind =>
      exact plainlyNamed isKind
  | node lhsCombines rhsCombines lhsHypothesis rhsHypothesis =>
      intro identity member
      rcases mem_wildcards_apply.mp member with inHead | ⟨arg, isArg, inArg⟩
      · cases inHead
      · rcases List.mem_pair.mp isArg with rfl | rfl
        · exact lhsHypothesis identity inArg
        · exact rhsHypothesis identity inArg

/-- Conjunction and disjunction regroup operands that are neither evaluated nor distributed. -/
theorem regroups
    (op : BitOperator)
    (table : SymbolTable)
    (idempotent : op ≠ .exclusion)
    (notLiteral : ∀ {item}, kind item → item.isNumber = false)
    (plainlyNamed : ∀ {item}, kind item → item.PlainlyNamed)
    (single : ∀ {item}, kind item → item.isApplyOf op.symbol = false)
    (undistributed :
      op = .conjunction →
        ∀ {item}, kind item → item.isApplyOf Operator.bitOr = false) :
    Regroups table op.symbol kind true := by
  refine
    { isLeaf := rfl
      plainlyNamed := plainlyNamed
      single := single
      stores := ?_
      waits := ?_
      sorts := ?_
      collapses := ?_ }
  · intro lhs rhs lhsCombines rhsCombines
    exact construct_eq table (isNumber_of_combines notLiteral lhsCombines)
      (isNumber_of_combines notLiteral rhsCombines)
  · intro lhs rhs lhsCombines rhsCombines rule member
    have otherThanDisjunction
        (isConjunction : op = .conjunction)
        {expr : Expr}
        (combines : Combines op.symbol kind expr) :
        expr.isApplyOf Operator.bitOr = false := by
      cases combines with
      | operand isKind =>
          exact undistributed isConjunction isKind
      | node _ _ =>
          subst isConjunction
          rfl
    rw [rulesBeforeRegrouping_eq, List.mem_append, List.mem_cons] at member
    have lhsNotLiteral := isNumber_of_combines notLiteral lhsCombines
    have rhsNotLiteral := isNumber_of_combines notLiteral rhsCombines
    rcases member with before | rfl | after
    · exact op.waits lhsNotLiteral rhsNotLiteral
        (List.mem_append_left _ before)
    · exact andOverOr?_eq_none table table.construct fun isConjunction =>
        ⟨otherThanDisjunction isConjunction lhsCombines,
          otherThanDisjunction isConjunction rhsCombines⟩
    · exact op.waits lhsNotLiteral rhsNotLiteral
        (List.mem_append_right _ after)
  · intro lhs rhs lhsCombines rhsCombines
    have combines : Combines op.symbol kind (.apply op.symbol [lhs, rhs]) :=
      .node lhsCombines rhsCombines
    rw [Transform.reassociate?_eq (op.specOf?_symbol table) rfl rfl,
      Transform.regrouping?_of_nonliterals]
    intro item member
    exact notLiteral (combines.kind_of_mem_flatten single member)
  · intro lhs rhs _ _
    cases op with
    | exclusion =>
        exact (idempotent rfl).elim
    | _ =>
        rfl

end BitOperator

end SymbolicAlgebra
