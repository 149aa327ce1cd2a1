import Mathlib.Data.Finset.Sups
import SymbolicAlgebra.Proofs.Monotone.Chain

/-!
# Normal forms of monotone expressions

Conjunctions and disjunctions of symbols multiply out to monomials, each of them a set of symbols.  The
normal form is the canonical disjunction of canonical conjunctions, one for each monomial.  It is a fixed
point, and it is determined by the monomials.
-/

namespace SymbolicAlgebra

open SymbolicAlgebra.Expr
open scoped FinsetFamily

namespace Expr

/-- The expression is a symbol. -/
def IsSymbol
    (expr : Expr) : Prop :=
  ∃ name, expr = .symbol name

/-- The sets of symbols that conjunctions and disjunctions multiply out to. -/
def monomials : Expr → Finset (Finset String)
  | symbol name => {{name}}
  | apply head [lhs, rhs] =>
    match BitOperator.ofSymbol? head with
    | some .conjunction => lhs.monomials ⊻ rhs.monomials
    | some .disjunction => lhs.monomials ∪ rhs.monomials
    | _ => ∅
  | _ => ∅

/-- The canonical conjunction of symbols. -/
def IsMonomial
    (expr : Expr) : Prop :=
  IsCanonical Operator.bitAnd IsSymbol true expr

/-- The canonical disjunction of monomials. -/
def IsPolynomial
    (expr : Expr) : Prop :=
  IsCanonical Operator.bitOr IsMonomial true expr

end Expr

section Normal

variable {expr expr' lhs rhs item : Expr} {names : Finset String}

theorem monomials_conjunction
    (lhs rhs : Expr) :
    (Expr.apply Operator.bitAnd [lhs, rhs]).monomials =
      lhs.monomials ⊻ rhs.monomials := by
  simp only [monomials, BitOperator.ofSymbol?]

theorem monomials_disjunction
    (lhs rhs : Expr) :
    (Expr.apply Operator.bitOr [lhs, rhs]).monomials =
      lhs.monomials ∪ rhs.monomials := by
  simp only [monomials, BitOperator.ofSymbol?]

/-! ## Monomials -/

/-- Conjunction regroups symbols. -/
theorem regroups_symbols
    (table : SymbolTable) :
    Regroups table Operator.bitAnd IsSymbol true := by
  have regroups : Regroups table BitOperator.conjunction.symbol IsSymbol true := by
    apply BitOperator.conjunction.regroups table (by decide)
    · rintro item ⟨name, rfl⟩
      rfl
    · rintro item ⟨name, rfl⟩ identity member
      cases member
    · rintro item ⟨name, rfl⟩
      rfl
    · rintro - item ⟨name, rfl⟩
      rfl
  exact regroups

/-- A conjunction of symbols has the one monomial of all of them. -/
theorem exists_monomials_eq_singleton
    (combines : Combines Operator.bitAnd IsSymbol expr) :
    ∃ names : Finset String,
      expr.monomials = {names} ∧
        ∀ name,
          name ∈ names ↔ symbol name ∈ Chain.flatten Operator.bitAnd expr := by
  induction combines with
  | operand isSymbol =>
      obtain ⟨name, rfl⟩ := isSymbol
      refine ⟨{name}, rfl, ?_⟩
      intro name'
      rw [Chain.flatten_of_not_isApplyOf rfl]
      simp
  | node lhsCombines rhsCombines lhsHypothesis rhsHypothesis =>
      obtain ⟨lhsNames, lhsMonomials, lhsMembers⟩ := lhsHypothesis
      obtain ⟨rhsNames, rhsMonomials, rhsMembers⟩ := rhsHypothesis
      refine ⟨lhsNames ∪ rhsNames, ?_, ?_⟩
      · rw [monomials_conjunction, lhsMonomials, rhsMonomials,
          Finset.singleton_sups_singleton]
        rfl
      · intro name
        rw [Finset.mem_union, lhsMembers, rhsMembers, Chain.flatten_pair,
          List.mem_append]

/-- Conjunctions of the same symbols have the same monomial. -/
theorem monomials_eq_of_mem_flatten_iff
    (combines : Combines Operator.bitAnd IsSymbol expr)
    (combines' : Combines Operator.bitAnd IsSymbol expr')
    (same :
      ∀ item,
        item ∈ Chain.flatten Operator.bitAnd expr ↔
          item ∈ Chain.flatten Operator.bitAnd expr') :
    expr.monomials = expr'.monomials := by
  obtain ⟨names, single, members⟩ := exists_monomials_eq_singleton combines
  obtain ⟨names', single', members'⟩ := exists_monomials_eq_singleton combines'
  have sameNames : names = names' := by
    ext name
    rw [members, members']
    exact same (symbol name)
  rw [single, single', sameNames]

/-- The symbols of one conjunction are symbols of any other with the same monomial. -/
theorem mem_flatten_of_monomials_eq
    (combines : Combines Operator.bitAnd IsSymbol expr)
    (combines' : Combines Operator.bitAnd IsSymbol expr')
    (same : expr.monomials = expr'.monomials)
    (member : item ∈ Chain.flatten Operator.bitAnd expr) :
    item ∈ Chain.flatten Operator.bitAnd expr' := by
  obtain ⟨names, single, members⟩ := exists_monomials_eq_singleton combines
  obtain ⟨names', single', members'⟩ := exists_monomials_eq_singleton combines'
  rw [single, single', Finset.singleton_inj] at same
  subst same
  obtain ⟨name, rfl⟩ :=
    combines.kind_of_mem_flatten (regroups_symbols {}).single member
  exact (members' name).mp ((members name).mpr member)

/-- Monomials with the same symbols are the same. -/
theorem Expr.IsMonomial.eq_of_monomials_eq
    (isMonomial : expr.IsMonomial)
    (isMonomial' : expr'.IsMonomial)
    (same : expr.monomials = expr'.monomials) :
    expr = expr' := by
  apply (regroups_symbols {}).eq_of_sameOperands isMonomial isMonomial'
  intro item
  constructor
  · exact mem_flatten_of_monomials_eq isMonomial.combines isMonomial'.combines
      same
  · exact mem_flatten_of_monomials_eq isMonomial'.combines isMonomial.combines
      same.symm

theorem isMonomial_symbol
    (name : String) :
    (symbol name).IsMonomial :=
  (regroups_symbols {}).isCanonical_of_isCanonicalChain
    ((regroups_symbols {}).canonicalChain_operand ⟨name, rfl⟩)

namespace Expr.IsMonomial

theorem isNumber_eq_false
    (isMonomial : expr.IsMonomial) :
    expr.isNumber = false := by
  cases isMonomial.combines with
  | operand isSymbol =>
      obtain ⟨name, rfl⟩ := isSymbol
      rfl
  | node lhsCombines rhsCombines =>
      rfl

theorem isApplyOf_eq_false
    (isMonomial : expr.IsMonomial) :
    expr.isApplyOf Operator.bitOr = false := by
  cases isMonomial.combines with
  | operand isSymbol =>
      obtain ⟨name, rfl⟩ := isSymbol
      rfl
  | node lhsCombines rhsCombines =>
      rfl

theorem plainlyNamed
    (isMonomial : expr.IsMonomial) :
    expr.PlainlyNamed :=
  BitOperator.plainlyNamed_of_combines (regroups_symbols {}).plainlyNamed
    (show Combines BitOperator.conjunction.symbol _ _ from isMonomial.combines)

/-- A monomial is a fixed point. -/
theorem pass_eq
    (isMonomial : expr.IsMonomial)
    (table : SymbolTable) :
    pass table catalogue expr = .ok expr := by
  apply (regroups_symbols table).pass_eq_self ?_ isMonomial
  rintro item ⟨name, rfl⟩
  exact pass_leaf rfl

end Expr.IsMonomial

/-! ## Polynomials -/

/-- Disjunction regroups monomials. -/
theorem regroups_monomials
    (table : SymbolTable) :
    Regroups table Operator.bitOr IsMonomial true := by
  have regroups :
      Regroups table BitOperator.disjunction.symbol IsMonomial true :=
    BitOperator.disjunction.regroups table (by decide)
      IsMonomial.isNumber_eq_false IsMonomial.plainlyNamed
      IsMonomial.isApplyOf_eq_false nofun
  exact regroups

/-- The monomials of a disjunction are those of its operands. -/
theorem mem_monomials_iff
    {kind : Expr → Prop}
    (combines : Combines Operator.bitOr kind expr)
    (single : ∀ {item}, kind item → item.isApplyOf Operator.bitOr = false) :
    names ∈ expr.monomials ↔
      ∃ item ∈ Chain.flatten Operator.bitOr expr, names ∈ item.monomials := by
  induction combines with
  | operand isKind =>
      rw [Chain.flatten_of_not_isApplyOf (single isKind)]
      simp
  | node lhsCombines rhsCombines lhsHypothesis rhsHypothesis =>
      rw [monomials_disjunction, Finset.mem_union, lhsHypothesis, rhsHypothesis,
        Chain.flatten_pair]
      simp [or_and_right, exists_or]

namespace Expr.IsPolynomial

theorem isMonomial_of_mem
    (isPolynomial : expr.IsPolynomial)
    (member : item ∈ Chain.flatten Operator.bitOr expr) :
    item.IsMonomial :=
  isPolynomial.combines.kind_of_mem_flatten (regroups_monomials {}).single member

/-- The operands of one polynomial are operands of any other with the same monomials. -/
theorem mem_flatten_of_monomials_eq
    (isPolynomial : expr.IsPolynomial)
    (isPolynomial' : expr'.IsPolynomial)
    (same : expr.monomials = expr'.monomials)
    (member : item ∈ Chain.flatten Operator.bitOr expr) :
    item ∈ Chain.flatten Operator.bitOr expr' := by
  have isMonomial := isPolynomial.isMonomial_of_mem member
  obtain ⟨names, monomials, -⟩ :=
    exists_monomials_eq_singleton isMonomial.combines
  have inExpr : names ∈ expr.monomials :=
    (mem_monomials_iff isPolynomial.combines (regroups_monomials {}).single).mpr
      ⟨item, member, by simp [monomials]⟩
  rw [same] at inExpr
  obtain ⟨item', member', inItem'⟩ :=
    (mem_monomials_iff isPolynomial'.combines (regroups_monomials {}).single).mp
      inExpr
  have isMonomial' := isPolynomial'.isMonomial_of_mem member'
  obtain ⟨names', monomials', -⟩ :=
    exists_monomials_eq_singleton isMonomial'.combines
  rw [monomials', Finset.mem_singleton] at inItem'
  have sameItem : item = item' := by
    apply isMonomial.eq_of_monomials_eq isMonomial'
    rw [monomials, monomials', inItem']
  rw [sameItem]
  exact member'

/-- Polynomials with the same monomials are the same. -/
theorem eq_of_monomials_eq
    (isPolynomial : expr.IsPolynomial)
    (isPolynomial' : expr'.IsPolynomial)
    (same : expr.monomials = expr'.monomials) :
    expr = expr' := by
  apply (regroups_monomials {}).eq_of_sameOperands isPolynomial isPolynomial'
  intro item
  constructor
  · exact isPolynomial.mem_flatten_of_monomials_eq isPolynomial' same
  · exact isPolynomial'.mem_flatten_of_monomials_eq isPolynomial same.symm

/-- A polynomial has as many operands as monomials. -/
theorem card_monomials
    (isPolynomial : expr.IsPolynomial) :
    expr.monomials.card = (Chain.flatten Operator.bitOr expr).length := by
  have distinct : (Chain.flatten Operator.bitOr expr).Nodup := by
    rw [isPolynomial.isChain.flatten_eq]
    exact nodup_canonicalOperands _
  have union :
      expr.monomials =
        (Chain.flatten Operator.bitOr expr).toFinset.biUnion monomials := by
    ext names
    rw [mem_monomials_iff isPolynomial.combines (regroups_monomials {}).single]
    simp
  have single
      (item : Expr)
      (member : item ∈ (Chain.flatten Operator.bitOr expr).toFinset) :
      ∃ names : Finset String, item.IsMonomial ∧ item.monomials = {names} := by
    have isMonomial := isPolynomial.isMonomial_of_mem (List.mem_toFinset.mp member)
    obtain ⟨names, monomials, -⟩ :=
      exists_monomials_eq_singleton isMonomial.combines
    exact ⟨names, isMonomial, monomials⟩
  rw [union, Finset.card_biUnion, Finset.sum_const_nat (m := 1), Nat.mul_one,
    List.toFinset_card_of_nodup distinct]
  · intro item member
    obtain ⟨names, -, monomials⟩ := single item member
    rw [monomials, Finset.card_singleton]
  · intro item member item' member' different
    obtain ⟨names, isMonomial, monomials⟩ := single item member
    obtain ⟨names', isMonomial', monomials'⟩ := single item' member'
    rw [Function.onFun, monomials, monomials', Finset.disjoint_singleton]
    rintro rfl
    exact different
      (isMonomial.eq_of_monomials_eq isMonomial' (monomials.trans monomials'.symm))

/-- A polynomial is a fixed point. -/
theorem pass_eq
    (isPolynomial : expr.IsPolynomial)
    (table : SymbolTable) :
    pass table catalogue expr = .ok expr :=
  (regroups_monomials table).pass_eq_self
    (fun _ isMonomial => isMonomial.pass_eq table) isPolynomial

theorem isNumber_eq_false
    (isPolynomial : expr.IsPolynomial) :
    expr.isNumber = false := by
  cases isPolynomial.combines with
  | operand isMonomial =>
      exact isMonomial.isNumber_eq_false
  | node lhsCombines rhsCombines =>
      rfl

theorem plainlyNamed
    (isPolynomial : expr.IsPolynomial) :
    expr.PlainlyNamed :=
  BitOperator.plainlyNamed_of_combines IsMonomial.plainlyNamed
    (show Combines BitOperator.disjunction.symbol _ _ from isPolynomial.combines)

/-- A polynomial that is no disjunction is a monomial. -/
theorem isMonomial_of_operands?_eq_none
    (isPolynomial : expr.IsPolynomial)
    (none : expr.operands? Operator.bitOr = none) :
    expr.IsMonomial := by
  cases isPolynomial.combines with
  | operand isMonomial =>
      exact isMonomial
  | node lhsCombines rhsCombines =>
      simp [operands?] at none

end Expr.IsPolynomial

theorem Expr.IsMonomial.isPolynomial
    (isMonomial : expr.IsMonomial) :
    expr.IsPolynomial :=
  (regroups_monomials {}).isCanonical_of_isCanonicalChain
    ((regroups_monomials {}).canonicalChain_operand isMonomial)

end Normal

end SymbolicAlgebra
