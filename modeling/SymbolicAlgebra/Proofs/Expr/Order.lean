import SymbolicAlgebra.Expr.Order
import SymbolicAlgebra.Proofs.Expr.Printer

/-!
# Where the canonical order is linear

The order has an outer part, which compares rank, value, name and text, and an inner part, which is
consulted when the outer one sees no difference.  Wildcards with peculiar names can print like a truth
value or like an application; in a family of expressions without such wildcards the outer part tells
all kinds of expressions apart, and what remains is settled by induction.
-/

namespace SymbolicAlgebra

/-- The name of a wildcard cannot be mistaken for a literal truth value or for an application. -/
def Wildcard.IsPlain
    (identity : Wildcard) : Prop :=
  identity.name ≠ "True" ∧ identity.name ≠ "False" ∧
    identity.name.toList.getLast? ≠ some ')'

instance : DecidablePred Wildcard.IsPlain :=
  fun _ => inferInstanceAs (Decidable (_ ∧ _))

namespace Expr

/-- All wildcards of an expression have plain names. -/
def PlainlyNamed
    (expr : Expr) : Prop :=
  ∀ identity ∈ expr.wildcards, identity.IsPlain

instance : DecidablePred PlainlyNamed :=
  fun expr => inferInstanceAs (Decidable (∀ identity ∈ expr.wildcards, _))

/-- The head of a plainly named application is plainly named. -/
theorem PlainlyNamed.head
    {head : Expr}
    {args : List Expr}
    (plain : (apply head args).PlainlyNamed) :
    head.PlainlyNamed := by
  intro identity member
  exact plain identity (mem_wildcards_apply.mpr (.inl member))

/-- The arguments of a plainly named application are plainly named. -/
theorem PlainlyNamed.arg
    {head arg : Expr}
    {args : List Expr}
    (plain : (apply head args).PlainlyNamed)
    (isArg : arg ∈ args) :
    arg.PlainlyNamed := by
  intro identity member
  exact plain identity (mem_wildcards_apply.mpr (.inr ⟨arg, isArg, member⟩))

/-- With an application a family has its head and its arguments. -/
structure ClosedUnderParts
    (family : Expr → Prop) : Prop where
  head :
    ∀ {head args}, family (apply head args) → family head
  arg :
    ∀ {head args arg}, family (apply head args) → arg ∈ args → family arg

/-- The parts of plainly named expressions are plainly named. -/
theorem closedUnderParts_plainlyNamed :
    ClosedUnderParts PlainlyNamed where
  head :=
    PlainlyNamed.head
  arg :=
    PlainlyNamed.arg

/-- No wildcard of a family is printed like one of its truth values or applications. -/
structure WildcardsApart
    (family : Expr → Prop) : Prop where
  ne_boolean :
    ∀ {identity value},
      family (wildcard identity) → family (boolean value) →
        (wildcard identity).canonicalChars ≠ (boolean value).canonicalChars
  ne_apply :
    ∀ {identity head args},
      family (wildcard identity) → family (apply head args) →
        (wildcard identity).canonicalChars ≠ (apply head args).canonicalChars

/-! ## The outer and the inner part -/

/-- The position of a literal number among the literals. -/
def literalKey : Expr → Int
  | number value => orderKey value
  | _ => 0

/-- The name of a symbol. -/
def symbolName : Expr → String
  | symbol name => name
  | _ => ""

/-- The canonical text of what is neither a number nor a symbol. -/
def sortChars : Expr → List Char
  | number _ => []
  | symbol _ => []
  | expr => expr.canonicalChars

/-- The part of the canonical order that never looks at parts of expressions. -/
def outerCompare : Expr → Expr → Ordering :=
  compareLex (compareOn rank) <|
    compareLex (compareOn literalKey) <|
      compareLex (compareOn symbolName) (compareOn sortChars)

/-- The part of the canonical order that separates expressions with one text. -/
def innerCompare : (first second : Expr) → Ordering
  | wildcard first, wildcard second => compare first.id second.id
  | apply head args, apply head' args' =>
    (canonicalCompare head head').then <|
      (compare args.length args'.length).then (canonicalCompareArgs args args')
  | _, _ => .eq

instance : Std.TransCmp outerCompare :=
  inferInstanceAs (Std.TransCmp (compareLex _ _))

/-- The outer part decides first, the inner one breaks ties. -/
theorem canonicalCompare_eq_then
    (first second : Expr) :
    canonicalCompare first second =
      (outerCompare first second).then (innerCompare first second) := by
  cases first <;> cases second <;>
    simp [canonicalCompare, outerCompare, innerCompare, compareLex, compareOn,
      rank, literalKey, symbolName, sortChars, canonicalChars, chars,
      charsBefore, compareLiterals]
  all_goals rfl


/-- What comes second matters only after a draw. -/
theorem then_congr
    {outcome first second : Ordering}
    (same : outcome = .eq → first = second) :
    outcome.then first = outcome.then second := by
  cases outcome with
  | eq =>
      exact same rfl
  | _ =>
      rfl

/-! ## The order from the other side -/

/-- Swapping two argument lists of one length swaps the answer. -/
theorem canonicalCompareArgs_swap
    {first second : List Expr}
    (each :
      ∀ arg ∈ first, ∀ other,
        canonicalCompare other arg = (canonicalCompare arg other).swap)
    (sameLength : first.length = second.length) :
    canonicalCompareArgs second first =
      (canonicalCompareArgs first second).swap := by
  induction first generalizing second with
  | nil =>
      cases second with
      | nil =>
          rfl
      | cons _ _ =>
          simp at sameLength
  | cons arg rest inductionHypothesis =>
      cases second with
      | nil =>
          simp at sameLength
      | cons other others =>
          simp only [List.forall_mem_cons] at each
          simp only [canonicalCompareArgs, Ordering.swap_then]
          rw [each.1 other,
            inductionHypothesis each.2 (by simpa using sameLength)]

/-- Swapping two expressions swaps the answer. -/
theorem canonicalCompare_swap
    (first second : Expr) :
    canonicalCompare second first = (canonicalCompare first second).swap := by
  have ofInner
      {first second : Expr}
      (inner : innerCompare second first = (innerCompare first second).swap) :
      canonicalCompare second first = (canonicalCompare first second).swap := by
    have outer :
        outerCompare second first = (outerCompare first second).swap :=
      Std.OrientedCmp.eq_swap
    rw [canonicalCompare_eq_then, canonicalCompare_eq_then first, outer, inner,
      Ordering.swap_then]
  induction first generalizing second with
  | wildcard identity =>
      apply ofInner
      cases second <;> simp [innerCompare, Nat.compare_swap]
  | apply head args headHypothesis argsHypothesis =>
      apply ofInner
      cases second with
      | apply head' args' =>
          simp only [innerCompare, Ordering.swap_then, headHypothesis,
            Nat.compare_swap]
          congr 1
          apply then_congr
          intro sameLength
          exact canonicalCompareArgs_swap argsHypothesis
            (Nat.compare_eq_eq.mp sameLength).symm
      | _ =>
          rfl
  | _ =>
      apply ofInner
      cases second <;> rfl

/-! ## Draws -/

/-- A wildcard with a plain name is not printed like an application. -/
theorem canonicalChars_wildcard_ne_apply
    {identity : Wildcard}
    (plain : identity.IsPlain)
    (head : Expr)
    (args : List Expr) :
    (wildcard identity).canonicalChars ≠ (apply head args).canonicalChars := by
  obtain ⟨front, shape⟩ := chars_apply_eq_append {} head args
  intro same
  have name : identity.name.toList = front ++ [')'] := by
    rw [← shape, ← canonicalChars, ← same]
    simp [canonicalChars, chars, charsBefore]
  apply plain.2.2
  simp [name]

/-- A truth value is not printed like an application. -/
theorem canonicalChars_boolean_ne_apply
    (value : Bool)
    (head : Expr)
    (args : List Expr) :
    (boolean value).canonicalChars ≠ (apply head args).canonicalChars := by
  obtain ⟨front, shape⟩ := chars_apply_eq_append {} head args
  intro same
  have last := congrArg List.getLast? (same.trans shape)
  cases value <;> simp [canonicalChars, chars, charsBefore] at last

/-- A wildcard with a plain name is not printed like a truth value. -/
theorem canonicalChars_wildcard_ne_boolean
    {identity : Wildcard}
    (plain : identity.IsPlain)
    (value : Bool) :
    (wildcard identity).canonicalChars ≠ (boolean value).canonicalChars := by
  obtain ⟨notTrue, notFalse, -⟩ := plain
  intro same
  have name : identity.name.toList = (boolean value).canonicalChars := by
    rw [← same]
    simp [canonicalChars, chars, charsBefore]
  cases value with
  | true =>
      exact notTrue (String.toList_inj.mp name)
  | false =>
      exact notFalse (String.toList_inj.mp name)

/-- Wildcards with plain names are printed like nothing else. -/
theorem wildcardsApart_plainlyNamed :
    WildcardsApart PlainlyNamed where
  ne_boolean plain _ :=
    canonicalChars_wildcard_ne_boolean (plain _ (by simp [wildcards])) _
  ne_apply plain _ :=
    canonicalChars_wildcard_ne_apply (plain _ (by simp [wildcards])) _ _

variable {family : Expr → Prop}

/-- Whether an expression is a symbol, a wildcard, a number, a truth value or an application. -/
def kind : Expr → Nat
  | symbol _ => 0
  | wildcard _ => 1
  | number _ => 2
  | boolean _ => 3
  | apply .. => 4

/-- What the outer part of the order consists of. -/
theorem outerCompare_eq_eq
    {first second : Expr} :
    outerCompare first second = .eq ↔
      first.rank = second.rank ∧ first.literalKey = second.literalKey ∧
        first.symbolName = second.symbolName ∧
          first.sortChars = second.sortChars := by
  simp [outerCompare, compareLex_eq_eq, compareOn]

/-- The outer part tells expressions of different kinds apart. -/
theorem WildcardsApart.kind_eq_of_outerCompare
    (apart : WildcardsApart family)
    {first second : Expr}
    (firstMember : family first)
    (secondMember : family second)
    (draw : outerCompare first second = .eq) :
    first.kind = second.kind := by
  obtain ⟨sameRank, -, -, sameChars⟩ := outerCompare_eq_eq.mp draw
  cases first with
  | wildcard identity =>
      cases second with
      | wildcard _ =>
          rfl
      | boolean value =>
          exact (apart.ne_boolean firstMember secondMember sameChars).elim
      | apply head args =>
          exact (apart.ne_apply firstMember secondMember sameChars).elim
      | _ =>
          simp [rank] at sameRank
  | boolean value =>
      cases second with
      | boolean _ =>
          rfl
      | wildcard identity =>
          exact (apart.ne_boolean secondMember firstMember sameChars.symm).elim
      | apply head args =>
          exact (canonicalChars_boolean_ne_apply value head args sameChars).elim
      | _ =>
          simp [rank] at sameRank
  | apply head args =>
      cases second with
      | apply _ _ =>
          rfl
      | wildcard identity =>
          exact (apart.ne_apply secondMember firstMember sameChars.symm).elim
      | boolean value =>
          exact (canonicalChars_boolean_ne_apply
            value head args sameChars.symm).elim
      | _ =>
          simp [rank] at sameRank
  | _ =>
      cases second <;> first | rfl | simp [rank] at sameRank

/-- Argument lists of one length that draw are the same. -/
theorem eq_of_canonicalCompareArgs
    {first second : List Expr}
    (each :
      ∀ arg ∈ first, ∀ other ∈ second,
        canonicalCompare arg other = .eq → arg = other)
    (sameLength : first.length = second.length)
    (draw : canonicalCompareArgs first second = .eq) :
    first = second := by
  induction first generalizing second with
  | nil =>
      exact (List.eq_nil_of_length_eq_zero sameLength.symm).symm
  | cons arg rest inductionHypothesis =>
      cases second with
      | nil =>
          simp at sameLength
      | cons other others =>
          simp only [canonicalCompareArgs, Ordering.then_eq_eq] at draw
          simp only [List.forall_mem_cons] at each
          obtain ⟨⟨headEach, -⟩, restEach⟩ := each
          rw [headEach draw.1,
            inductionHypothesis
              (fun arg member => (restEach arg member).2)
              (by simpa using sameLength) draw.2]

/-- Leaves of one kind that draw are the same. -/
theorem eq_of_outerCompare_of_isLeaf
    {first second : Expr}
    (leaf : first.isLeaf)
    (sameKind : first.kind = second.kind)
    (outer : outerCompare first second = .eq)
    (inner : innerCompare first second = .eq) :
    first = second := by
  obtain ⟨-, sameValue, sameName, sameChars⟩ := outerCompare_eq_eq.mp outer
  cases first <;> cases second <;> simp only [kind] at sameKind
  case symbol.symbol name other =>
    exact congrArg symbol sameName
  case wildcard.wildcard identity other =>
    have sameId : identity.id = other.id :=
      Nat.compare_eq_eq.mp inner
    have sameText : identity.name = other.name := by
      apply String.toList_inj.mp
      simpa [sortChars, canonicalChars, chars, charsBefore] using sameChars
    exact congrArg wildcard
      (Wildcard.mk.injEq .. ▸ ⟨sameId, sameText⟩)
  case number.number value other =>
    exact congrArg number (orderKey_injective sameValue)
  case boolean.boolean value other =>
    cases value <;> cases other <;>
      simp [sortChars, canonicalChars, chars, charsBefore] at sameChars ⊢
  all_goals contradiction

/-- Expressions of a family that draw are the same. -/
theorem WildcardsApart.eq_of_canonicalCompare
    (apart : WildcardsApart family)
    (closed : ClosedUnderParts family)
    {first second : Expr}
    (firstMember : family first)
    (secondMember : family second)
    (draw : canonicalCompare first second = .eq) :
    first = second := by
  induction first generalizing second with
  | apply head args headHypothesis argsHypothesis =>
      rw [canonicalCompare_eq_then, Ordering.then_eq_eq] at draw
      obtain ⟨outer, inner⟩ := draw
      have sameKind :=
        apart.kind_eq_of_outerCompare firstMember secondMember outer
      cases second with
      | apply head' args' =>
          simp only [innerCompare, Ordering.then_eq_eq] at inner
          obtain ⟨headDraw, sameLength, argsDraw⟩ := inner
          have sameHead : head = head' :=
            headHypothesis (closed.head firstMember)
              (closed.head secondMember) headDraw
          have sameArgs : args = args' :=
            eq_of_canonicalCompareArgs
              (fun arg member other member' =>
                argsHypothesis arg member (closed.arg firstMember member)
                  (closed.arg secondMember member'))
              (Nat.compare_eq_eq.mp sameLength) argsDraw
          rw [sameHead, sameArgs]
      | _ =>
          simp [kind] at sameKind
  | _ =>
      rw [canonicalCompare_eq_then, Ordering.then_eq_eq] at draw
      obtain ⟨outer, inner⟩ := draw
      exact eq_of_outerCompare_of_isLeaf rfl
        (apart.kind_eq_of_outerCompare firstMember secondMember outer)
        outer inner

/-! ## Chains of comparisons -/

/--
The third outcome is what the first two imply, when these are the comparisons of a first with a
second and of the second with a third item.
-/
def Composes
    (former latter whole : Ordering) : Prop :=
  former.isLE → latter.isLE → whole = former.then latter

/-- Comparisons by a transitive order compose. -/
theorem Composes.of_transCmp
    {α : Type}
    {cmp : α → α → Ordering}
    [Std.TransCmp cmp]
    (first second third : α) :
    Composes (cmp first second) (cmp second third) (cmp first third) := by
  intro former latter
  cases formerOutcome : cmp first second with
  | gt =>
      simp [formerOutcome] at former
  | eq =>
      exact Std.TransCmp.congr_left formerOutcome
  | lt =>
      exact Std.TransCmp.lt_of_lt_of_isLE formerOutcome latter

/-- Comparisons by the order of a type compose. -/
theorem Composes.compare
    {α : Type}
    [Ord α]
    [Std.TransOrd α]
    (first second third : α) :
    Composes (compare first second) (compare second third)
      (compare first third) :=
  .of_transCmp first second third

/-- Comparisons compose in two steps if the second ones do after draws in the first step. -/
theorem Composes.then
    {former latter whole former' latter' whole' : Ordering}
    (outer : Composes former latter whole)
    (inner :
      former = .eq → latter = .eq → Composes former' latter' whole') :
    Composes (former.then former') (latter.then latter')
      (whole.then whole') := by
  cases former <;> cases latter <;> cases former' <;>
    simp_all [Composes]

/-- Comparisons of argument lists of one length compose. -/
theorem composes_canonicalCompareArgs
    {first second third : List Expr}
    (each :
      ∀ arg ∈ first, ∀ other ∈ second, ∀ last ∈ third,
        Composes (canonicalCompare arg other) (canonicalCompare other last)
          (canonicalCompare arg last))
    (firstLength : first.length = second.length)
    (secondLength : second.length = third.length) :
    Composes (canonicalCompareArgs first second)
      (canonicalCompareArgs second third)
      (canonicalCompareArgs first third) := by
  induction first generalizing second third with
  | nil =>
      obtain rfl := List.eq_nil_of_length_eq_zero firstLength.symm
      obtain rfl := List.eq_nil_of_length_eq_zero secondLength.symm
      simp [Composes, canonicalCompareArgs]
  | cons arg rest inductionHypothesis =>
      obtain ⟨other, others, rfl⟩ :=
        List.exists_cons_of_length_eq_add_one firstLength.symm
      obtain ⟨last, lasts, rfl⟩ :=
        List.exists_cons_of_length_eq_add_one secondLength.symm
      simp only [canonicalCompareArgs]
      refine (each arg (by simp) other (by simp) last (by simp)).then ?_
      intro _ _
      refine inductionHypothesis ?_ (by simpa using firstLength)
        (by simpa using secondLength)
      intro arg member other member' last member''
      exact each arg (by simp [member]) other (by simp [member'])
        last (by simp [member''])

/-- Inner comparisons of leaves of one kind compose. -/
theorem composes_innerCompare_of_isLeaf
    {first second third : Expr}
    (leaf : first.isLeaf)
    (firstKind : first.kind = second.kind)
    (secondKind : second.kind = third.kind) :
    Composes (innerCompare first second) (innerCompare second third)
      (innerCompare first third) := by
  cases first <;> cases second <;> simp only [kind] at firstKind
  case wildcard.wildcard identity other =>
    cases third <;> simp only [kind] at secondKind
    case wildcard last =>
      exact .compare identity.id other.id last.id
    all_goals contradiction
  case apply.apply =>
    simp [isLeaf] at leaf
  all_goals first | contradiction | simp [Composes, innerCompare]

/-- Comparisons of expressions of a family compose. -/
theorem WildcardsApart.composes_canonicalCompare
    (apart : WildcardsApart family)
    (closed : ClosedUnderParts family)
    {first second third : Expr}
    (firstMember : family first)
    (secondMember : family second)
    (thirdMember : family third) :
    Composes (canonicalCompare first second) (canonicalCompare second third)
      (canonicalCompare first third) := by
  have ofInner
      {first second third : Expr}
      (firstMember : family first)
      (secondMember : family second)
      (thirdMember : family third)
      (inner :
        first.kind = second.kind → second.kind = third.kind →
          Composes (innerCompare first second) (innerCompare second third)
            (innerCompare first third)) :
      Composes (canonicalCompare first second)
        (canonicalCompare second third) (canonicalCompare first third) := by
    simp only [canonicalCompare_eq_then]
    refine (Composes.of_transCmp first second third).then ?_
    intro firstDraw secondDraw
    exact inner
      (apart.kind_eq_of_outerCompare firstMember secondMember firstDraw)
      (apart.kind_eq_of_outerCompare secondMember thirdMember secondDraw)
  induction first generalizing second third with
  | apply head args headHypothesis argsHypothesis =>
      apply ofInner firstMember secondMember thirdMember
      intro firstKind secondKind
      cases second <;> simp only [kind] at firstKind
      case apply head' args' =>
        cases third <;> simp only [kind] at secondKind
        case apply head'' args'' =>
          simp only [innerCompare]
          refine (headHypothesis (closed.head firstMember)
            (closed.head secondMember) (closed.head thirdMember)).then ?_
          intro _ _
          refine (Composes.compare args.length args'.length
            args''.length).then ?_
          intro firstLength secondLength
          refine composes_canonicalCompareArgs ?_
            (Nat.compare_eq_eq.mp firstLength)
            (Nat.compare_eq_eq.mp secondLength)
          intro arg member other member' last member''
          exact argsHypothesis arg member (closed.arg firstMember member)
            (closed.arg secondMember member')
            (closed.arg thirdMember member'')
        all_goals contradiction
      all_goals contradiction
  | _ =>
      apply ofInner firstMember secondMember thirdMember
      exact composes_innerCompare_of_isLeaf rfl

end Expr
end SymbolicAlgebra
