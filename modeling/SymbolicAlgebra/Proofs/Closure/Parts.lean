import SymbolicAlgebra.Proofs.ArgumentOrder
import SymbolicAlgebra.Proofs.Closure.Simplification

/-!
# Families given by their parts

What can be said of each part of an expression on its own, heads and the expression itself included, is kept
by raw construction, provided that it holds of values, of the symbols that rules write and of applications
as they are stored.
-/

namespace SymbolicAlgebra

namespace OperatorSpec

theorem evaluateLiterals?_eq_none_of_perm
    {spec : OperatorSpec}
    {name : String}
    {args args' : List Expr}
    (unevaluated : spec.evaluateLiterals? name args = none)
    (permuted : args.Perm args') :
    spec.evaluateLiterals? name args' = none := by
  rw [evaluateLiterals?_eq_none_iff] at unevaluated ⊢
  exact unevaluated.imp_right fun notLiterals =>
    SymbolTable.not_literals_of_perm notLiterals permuted

end OperatorSpec

namespace SymbolTable

/-- Arguments as the head stores them: not evaluated, not absorbed, and in order if the head has one. -/
structure Stores
    (table : SymbolTable)
    (head : Expr)
    (args : List Expr) : Prop where
  nonempty :
    args ≠ []
  unevaluated :
    ∀ {spec},
      table.specOf? head = some spec →
        spec.evaluateLiterals? (head.symbol?.getD "") args = none
  unabsorbed :
    ∀ {spec}, table.specOf? head = some spec → spec.absorbed? args = none
  ordered :
    ∀ {spec},
      table.specOf? head = some spec → ∃ given, args = spec.ordered head given

/-- A raw term is a value, one of the arguments, or an application as the head stores it. -/
theorem construct_cases
    {table : SymbolTable}
    {head result : Expr}
    {args : List Expr}
    (constructed : table.construct head args = .ok result) :
    result.IsValue ∨ result ∈ args ∨
      ∃ args',
        result = .apply head args' ∧ args'.Perm args ∧ table.Stores head args' := by
  obtain ⟨nonempty, constructs⟩ := construct_eq_ok_iff.mp constructed
  generalize found : table.specOf? head = spec? at constructs
  cases constructs with
  | plain =>
      refine .inr (.inr ⟨args, rfl, .refl _, nonempty, ?_, ?_, ?_⟩) <;>
        · intro spec recorded
          rw [found] at recorded
          cases recorded
  | evaluated outcome =>
      exact .inl (OperatorSpec.isValue_of_evaluateLiterals? outcome)
  | absorbed unevaluated absorbs =>
      obtain ⟨-, among⟩ := Option.filter_eq_some_iff.mp absorbs
      exact .inr (.inl (List.contains_iff_mem.mp among))
  | @stored spec unevaluated unabsorbed =>
      have permuted := spec.ordered_perm head args
      refine .inr (.inr ⟨spec.ordered head args, rfl, permuted, ?_, ?_, ?_, ?_⟩)
      · intro empty
        rw [empty] at permuted
        exact nonempty permuted.symm.eq_nil
      all_goals
        intro recorded sameHead
        cases found.symm.trans sameHead
      · exact OperatorSpec.evaluateLiterals?_eq_none_of_perm unevaluated
          permuted.symm
      · exact (spec.absorbed?_eq_of_perm permuted).trans unabsorbed
      · exact ⟨args, rfl⟩

end SymbolTable

namespace Expr

/-- The property holds of every part of an expression. -/
def Everywhere
    (property : Expr → Prop)
    (expr : Expr) : Prop :=
  ∀ part, expr.contains part = true → property part

namespace Everywhere

variable {property : Expr → Prop}

theorem of_isLeaf
    {leaf : Expr}
    (isLeaf : leaf.isLeaf = true)
    (holds : property leaf) :
    leaf.Everywhere property := by
  intro part isPart
  cases leaf with
  | apply head args =>
      cases isLeaf
  | _ =>
      simp only [contains, decide_eq_true_eq] at isPart
      exact isPart ▸ holds

theorem apply_iff
    {head : Expr}
    {args : List Expr} :
    (apply head args).Everywhere property ↔
      property (.apply head args) ∧ head.Everywhere property ∧
        ∀ arg ∈ args, arg.Everywhere property := by
  simp only [Everywhere, contains_apply]
  constructor
  · intro everywhere
    exact ⟨everywhere _ (.inl rfl),
      fun part isPart => everywhere part (.inr (.inl isPart)),
      fun arg isArg part isPart => everywhere part (.inr (.inr ⟨arg, isArg, isPart⟩))⟩
  · rintro ⟨holds, inHead, inArgs⟩ part (rfl | isPart | ⟨arg, isArg, isPart⟩)
    · exact holds
    · exact inHead part isPart
    · exact inArgs arg isArg part isPart

theorem closedUnderParts :
    ClosedUnderParts (Everywhere property) where
  head everywhere :=
    (apply_iff.mp everywhere).2.1
  arg everywhere isArg :=
    (apply_iff.mp everywhere).2.2 _ isArg

/-- The parts of a raw term have what values, the given parts and stored applications have. -/
theorem closedUnderBuilding
    {table : SymbolTable}
    (value : ∀ {expr}, expr.IsValue → property expr)
    (sum : property Operator.add)
    (product : property Operator.mul)
    (power : property Operator.pow)
    (stored :
      ∀ {head args},
        head.Everywhere property → table.Stores head args →
          property (.apply head args)) :
    ClosedUnderBuilding table.construct (Everywhere property) where
  toClosedUnderParts :=
    closedUnderParts
  value isValue :=
    of_isLeaf isValue.isLeaf (value isValue)
  sum :=
    of_isLeaf rfl sum
  product :=
    of_isLeaf rfl product
  power :=
    of_isLeaf rfl power
  built := by
    intro head args result inHead inArgs constructed
    rcases SymbolTable.construct_cases constructed with
      isValue | isArg | ⟨args', rfl, permuted, stores⟩
    · exact of_isLeaf isValue.isLeaf (value isValue)
    · exact inArgs result isArg
    · refine apply_iff.mpr ⟨stored inHead stores, inHead, ?_⟩
      exact fun arg isArg => inArgs arg (permuted.mem_iff.mp isArg)

end Everywhere

end Expr

end SymbolicAlgebra
