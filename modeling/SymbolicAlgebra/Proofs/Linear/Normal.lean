import SymbolicAlgebra.Proofs.Chain.Nested
import SymbolicAlgebra.Proofs.Linear.LikeTerms

/-!
# Normal forms of linear expressions

The normal form of a linear form other than zero is the right-nested chain of its terms, one for each
coefficient other than zero, in canonical order.  Expressions in normal form are equal as soon as their
linear forms are.
-/

namespace SymbolicAlgebra

open SymbolicAlgebra.Expr

/-- Building the chain of sorted addends nests them in this order. -/
theorem build_sum_of_sorted
    (table : SymbolTable)
    {first : Expr}
    {rest : List Expr}
    (singles : ∀ item ∈ first :: rest, item.isApplyOf Operator.add = false)
    (sorted : (first :: rest).Pairwise (NotAfter canonicalCompare))
    (oneLiteral : ((first :: rest).filter isNumber).length ≤ 1) :
    Chain.build table.construct Operator.add (first :: rest) =
      .ok (nested Operator.add first rest) := by
  refine build_of_sorted singles sorted fun suffix => ?_
  exact construct_sum_eq (unevaluated_of_suffix suffix oneLiteral)

/-! ## Terms -/

/-- A coefficient of a linear form with what it belongs to: a symbol, or nothing. -/
abbrev Coefficient :=
  Option String × Int

/-- The term of a coefficient. -/
def term : Coefficient → Expr
  | (none, value) => whole value
  | (some name, value) => collapsed value (.symbol name)

/-- Coefficients of different symbols, all of them exact and none of them zero. -/
structure IsReduced
    (coefficients : List Coefficient) : Prop where
  small :
    ∀ coefficient ∈ coefficients, coefficient.2.natAbs < 2 ^ 53
  nonzero :
    ∀ coefficient ∈ coefficients, coefficient.2 ≠ 0
  distinct :
    (coefficients.map Prod.fst).Nodup

/-- The linear form with the given coefficients. -/
def formOf
    (coefficients : List Coefficient) : LinearForm :=
  (coefficients.map fun coefficient =>
    Pi.single coefficient.1 coefficient.2).sum

section Term

variable {coefficient : Coefficient} {coefficients : List Coefficient}

theorem reading_term_form
    (small : coefficient.2.natAbs < 2 ^ 53) :
    (term coefficient).reading.form = Pi.single coefficient.1 coefficient.2 := by
  obtain ⟨_ | name, value⟩ := coefficient
  · rw [term, reading_whole small]
    rfl
  · rw [term, collapsed]
    split
    · rename_i one
      rw [one]
      rfl
    · rw [reading_multiple small]
      simp [reading, ← Pi.single_smul]

theorem term_isApplyOf_add
    (coefficient : Coefficient) :
    (term coefficient).isApplyOf Operator.add = false := by
  obtain ⟨_ | name, value⟩ := coefficient
  · rfl
  · rw [term, collapsed]
    split <;> rfl

theorem isNumber_term
    (coefficient : Coefficient) :
    (term coefficient).isNumber = coefficient.1.isNone := by
  obtain ⟨_ | name, value⟩ := coefficient
  · rfl
  · rw [term, collapsed]
    split <;> rfl

theorem splitCoefficient_term
    (name : String)
    (value : Int) :
    (Transform.splitCoefficient (term (some name, value))).2 =
      .symbol name := by
  rw [term, collapsed]
  split <;> rfl

theorem formOf_cons
    (coefficient : Coefficient)
    (coefficients : List Coefficient) :
    formOf (coefficient :: coefficients) =
      Pi.single coefficient.1 coefficient.2 + formOf coefficients := by
  rw [formOf, List.map_cons, List.sum_cons, formOf]

theorem formOf_eq_zero
    {key : Option String}
    (absent : key ∉ coefficients.map Prod.fst) :
    formOf coefficients key = 0 := by
  induction coefficients with
  | nil =>
      rfl
  | cons coefficient rest inductionHypothesis =>
      rw [List.map_cons, List.mem_cons, not_or] at absent
      rw [formOf_cons, Pi.add_apply, Pi.single_eq_of_ne absent.1,
        inductionHypothesis absent.2, add_zero]

theorem IsReduced.of_cons
    (reduced : IsReduced (coefficient :: coefficients)) :
    IsReduced coefficients :=
  ⟨(List.forall_mem_cons.mp reduced.small).2,
    (List.forall_mem_cons.mp reduced.nonzero).2,
    (List.nodup_cons.mp reduced.distinct).2⟩

/-- A reduced list holds the coefficients of its form other than zero. -/
theorem IsReduced.mem_iff
    (reduced : IsReduced coefficients)
    (key : Option String)
    (value : Int) :
    (key, value) ∈ coefficients ↔
      value ≠ 0 ∧ formOf coefficients key = value := by
  induction coefficients with
  | nil =>
      simp [formOf, eq_comm]
  | cons coefficient rest inductionHypothesis =>
      obtain ⟨first, value'⟩ := coefficient
      have nonzero : value' ≠ 0 :=
        reduced.nonzero _ List.mem_cons_self
      have absent : first ∉ rest.map Prod.fst :=
        (List.nodup_cons.mp reduced.distinct).1
      rw [List.mem_cons, formOf_cons, Pi.add_apply]
      by_cases same : key = first
      · subst same
        have notInRest : (key, value) ∉ rest :=
          fun member => absent (List.mem_map_of_mem member)
        rw [Pi.single_eq_same, formOf_eq_zero absent, add_zero]
        constructor
        · rintro (same | member)
          · cases same
            exact ⟨nonzero, rfl⟩
          · exact (notInRest member).elim
        · rintro ⟨-, rfl⟩
          exact .inl rfl
      · rw [Pi.single_eq_of_ne same, zero_add,
          ← inductionHypothesis reduced.of_cons]
        simp [same]

/-- Reduced lists with the same form have the same coefficients. -/
theorem IsReduced.perm
    {coefficients' : List Coefficient}
    (reduced : IsReduced coefficients)
    (reduced' : IsReduced coefficients')
    (same : formOf coefficients = formOf coefficients') :
    coefficients.Perm coefficients' := by
  rw [List.perm_ext_iff_of_nodup reduced.distinct.of_map reduced'.distinct.of_map]
  rintro ⟨key, value⟩
  rw [reduced.mem_iff, reduced'.mem_iff, same]

/-- Terms belong to different symbols if their bases differ and at most one of them is a literal. -/
theorem nodup_of_addends
    {addends : List Expr}
    (permuted : addends.Perm (coefficients.map term))
    (oneLiteral : (addends.filter isNumber).length ≤ 1)
    (bases :
      ((addends.filter (!·.isNumber)).map fun addend =>
        (Transform.splitCoefficient addend).2).Nodup) :
    (coefficients.map Prod.fst).Nodup := by
  have literalKeys : isNumber ∘ term = Option.isNone ∘ Prod.fst :=
    funext isNumber_term
  have otherKeys :
      (fun addend => !addend.isNumber) ∘ term =
        (fun key => !key.isNone) ∘ Prod.fst := by
    funext coefficient
    exact congrArg (! ·) (isNumber_term coefficient)
  have split :=
    List.filter_append_perm Option.isNone (coefficients.map Prod.fst)
  rw [← split.nodup_iff, List.nodup_append]
  refine ⟨?_, ?_, ?_⟩
  · rw [(permuted.filter isNumber).length_eq, List.filter_map, literalKeys,
      List.length_map] at oneLiteral
    rw [List.filter_map]
    match coefficients.filter (Option.isNone ∘ Prod.fst), oneLiteral with
    | [], _ =>
        exact List.nodup_nil
    | [coefficient], _ =>
        exact List.nodup_singleton _
  · have sameBases :=
      ((permuted.filter (!·.isNumber)).map fun addend =>
        (Transform.splitCoefficient addend).2).nodup_iff.mp bases
    rw [List.filter_map, otherKeys, List.map_map] at sameBases
    have named :
        (coefficients.filter ((fun key => !key.isNone) ∘ Prod.fst)).map
            ((fun addend => (Transform.splitCoefficient addend).2) ∘ term) =
          ((coefficients.filter ((fun key => !key.isNone) ∘ Prod.fst)).map
            Prod.fst).map fun key => Expr.symbol (key.getD "") := by
      rw [List.map_map]
      apply List.map_congr_left
      rintro ⟨_ | name, value⟩ member
      · simp at member
      · exact splitCoefficient_term name value
    rw [named] at sameBases
    rw [List.filter_map]
    exact sameBases.of_map
  · intro key isNone key' isSome same
    subst same
    simp only [List.mem_filter] at isNone isSome
    simp [isNone.2] at isSome

end Term

/-! ## Normal forms -/

/-- Zero, or the sorted right-nested chain of the terms of a linear form. -/
inductive IsNormal : Expr → Prop where
  | zero :
      IsNormal (whole 0)
  | chain
      {expr : Expr}
      {coefficients : List Coefficient}
      (reduced : IsReduced coefficients)
      (addends :
        (Chain.flatten Operator.add expr).Perm (coefficients.map term))
      (sorted :
        sortCanonically (Chain.flatten Operator.add expr) =
          Chain.flatten Operator.add expr)
      (isNested : Chain.isRightNested Operator.add expr = true) :
      IsNormal expr

section Normal

variable {expr expr' : Expr} {coefficients : List Coefficient}

/-- The form of a chain of terms has their coefficients. -/
theorem reading_form_eq
    (linear : expr.IsLinear)
    (reduced : IsReduced coefficients)
    (addends :
      (Chain.flatten Operator.add expr).Perm (coefficients.map term)) :
    expr.reading.form = formOf coefficients := by
  rw [← (flatten_sum linear).2, (addends.map reading).sum_eq, formOf]
  have small := reduced.small
  clear reduced addends
  induction coefficients with
  | nil =>
      rfl
  | cons coefficient rest inductionHypothesis =>
      obtain ⟨first, others⟩ := List.forall_mem_cons.mp small
      simp only [List.map_cons, List.sum_cons, Reading.add_form,
        reading_term_form first, inductionHypothesis others]

/-- The form of a chain of terms is not zero. -/
theorem formOf_ne_zero
    (linear : expr.IsLinear)
    (reduced : IsReduced coefficients)
    (addends :
      (Chain.flatten Operator.add expr).Perm (coefficients.map term)) :
    formOf coefficients ≠ 0 := by
  intro zero
  have none : coefficients = [] := by
    rw [List.eq_nil_iff_forall_not_mem]
    rintro ⟨key, value⟩ member
    obtain ⟨nonzero, same⟩ := (reduced.mem_iff key value).mp member
    rw [zero] at same
    exact nonzero same.symm
  subst none
  exact flatten_ne_nil_of_isLinear linear addends.eq_nil

/-- The normal form of a linear form is unique. -/
theorem IsNormal.eq_of_form_eq
    (normal : IsNormal expr)
    (normal' : IsNormal expr')
    (linear : expr.IsLinear)
    (linear' : expr'.IsLinear)
    (same : expr.reading.form = expr'.reading.form) :
    expr = expr' := by
  have zero : (whole 0).reading.form = 0 := by
    rw [reading_whole (by decide)]
    simp
  cases normal with
  | zero =>
      cases normal' with
      | zero =>
          rfl
      | chain reduced' addends' sorted' isNested' =>
          rw [zero, reading_form_eq linear' reduced' addends'] at same
          exact (formOf_ne_zero linear' reduced' addends' same.symm).elim
  | chain reduced addends sorted isNested =>
      rw [reading_form_eq linear reduced addends] at same
      cases normal' with
      | zero =>
          rw [zero] at same
          exact (formOf_ne_zero linear reduced addends same).elim
      | chain reduced' addends' sorted' isNested' =>
          rw [reading_form_eq linear' reduced' addends'] at same
          have permuted :
              (Chain.flatten Operator.add expr).Perm
                (Chain.flatten Operator.add expr') :=
            addends.trans
              (((reduced.perm reduced' same).map term).trans addends'.symm)
          apply eq_of_flatten_eq isNested isNested'
          rw [← sorted, ← sorted']
          exact sortCanonically_eq_of_perm
            (fun item member => ((flatten_sum linear).1 item member).1) permuted

end Normal

end SymbolicAlgebra
