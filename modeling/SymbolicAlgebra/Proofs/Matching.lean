import SymbolicAlgebra.Matching
import SymbolicAlgebra.Proofs.Expr.Structure

/-!
# Matching finds exactly the assignments that fill the pattern

Filling a pattern replaces all its wildcards at once and leaves everything else as it is.  Bindings
stand for the assignments that agree with them.  Matching a subject narrows these down to the ones
that also fill the pattern to the subject, and it fails when there are none.
-/

namespace SymbolicAlgebra

namespace Expr

mutual

/-- Replaces every wildcard, in heads as well, by its value; nothing is built anew. -/
def fill
    (assignment : Wildcard → Expr) : Expr → Expr
  | wildcard identity => assignment identity
  | apply head args => apply (head.fill assignment) (fillArgs assignment args)
  | leaf => leaf

/-- Fills every argument. -/
def fillArgs
    (assignment : Wildcard → Expr) : List Expr → List Expr
  | [] => []
  | arg :: rest => arg.fill assignment :: fillArgs assignment rest

end

@[simp] theorem fillArgs_eq_map
    (assignment : Wildcard → Expr)
    (args : List Expr) :
    fillArgs assignment args = args.map (fill assignment) := by
  induction args with
  | nil =>
      rfl
  | cons arg rest inductionHypothesis =>
      simp [fillArgs, inductionHypothesis]

end Expr

namespace Bindings

/-- The wildcards that have a value, oldest binding first. -/
def wildcards
    (bindings : Bindings) : List Wildcard :=
  bindings.entries.map (·.1)

/-- An assignment gives every bound wildcard its bound value. -/
def Agrees
    (bindings : Bindings)
    (assignment : Wildcard → Expr) : Prop :=
  ∀ identity value,
    bindings.valueOf? identity = some value → assignment identity = value

/-- Exactly the listed wildcards have a value. -/
theorem isSome_valueOf?
    {bindings : Bindings}
    {identity : Wildcard} :
    (bindings.valueOf? identity).isSome ↔ identity ∈ bindings.wildcards := by
  simp only [valueOf?, wildcards, List.lookup_isSome_iff, beq_iff_eq,
    List.mem_map]
  constructor
  · rintro ⟨entry, member, same⟩
    exact ⟨entry, member, same.symm⟩
  · rintro ⟨entry, member, same⟩
    exact ⟨entry, member, same.symm⟩

/-- The value of a wildcard after one more was bound. -/
theorem valueOf?_append
    (bindings : Bindings)
    (identity other : Wildcard)
    (value : Expr) :
    valueOf? ⟨bindings.entries ++ [(identity, value)]⟩ other =
      (bindings.valueOf? other).or
        (if other = identity then some value else none) := by
  by_cases same : other = identity
  · simp [valueOf?, List.lookup_append, same]
  · have different : (other == identity) = false := by
      simpa using same
    simp [valueOf?, List.lookup_append, List.lookup_cons, same, different]

/-- Every assignment agrees with empty bindings. -/
theorem agrees_empty
    (assignment : Wildcard → Expr) :
    ({} : Bindings).Agrees assignment := by
  intro identity value found
  simp [valueOf?] at found

/-- Some assignment agrees with given bindings. -/
theorem exists_agrees
    (bindings : Bindings) :
    ∃ assignment, bindings.Agrees assignment := by
  refine ⟨fun identity => (bindings.valueOf? identity).getD default, ?_⟩
  intro identity value found
  simp [found]

/-- Binding leaves exactly the assignments that also give the wildcard its value. -/
theorem agrees_bind?
    {bindings : Bindings}
    {identity : Wildcard}
    {value : Expr}
    {assignment : Wildcard → Expr} :
    (∃ extended,
        bindings.bind? identity value = some extended ∧
          extended.Agrees assignment) ↔
      bindings.Agrees assignment ∧ assignment identity = value := by
  cases found : bindings.valueOf? identity with
  | some bound =>
      simp only [bind?, found, Option.ite_none_right_eq_some,
        Option.some.injEq]
      constructor
      · rintro ⟨extended, ⟨sameValue, rfl⟩, agrees⟩
        exact ⟨agrees, (agrees identity bound found).trans sameValue⟩
      · rintro ⟨agrees, assigned⟩
        have sameValue : bound = value :=
          (agrees identity bound found).symm.trans assigned
        exact ⟨bindings, ⟨sameValue, rfl⟩, agrees⟩
  | none =>
      simp only [bind?, found, Option.some.injEq, exists_eq_left']
      constructor
      · intro agrees
        refine ⟨?_, ?_⟩
        · intro other bound foundOther
          apply agrees other bound
          simp [valueOf?_append, foundOther]
        · apply agrees identity value
          simp [valueOf?_append, found]
      · rintro ⟨agrees, assigned⟩ other bound foundOther
        rw [valueOf?_append, Option.or_eq_some_iff] at foundOther
        rcases foundOther with earlier | ⟨-, added⟩
        · exact agrees other bound earlier
        · split at added
          · simp_all
          · simp at added

/--
The bindings `extended` give a value to the wildcards bound before and to the added ones, and they
bind none of them twice if `bindings` did not.
-/
structure Extends
    (bindings extended : Bindings)
    (added : List Wildcard) : Prop where
  mem_wildcards :
    ∀ identity,
      identity ∈ extended.wildcards ↔
        identity ∈ bindings.wildcards ∨ identity ∈ added
  nodup :
    bindings.wildcards.Nodup → extended.wildcards.Nodup

namespace Extends

theorem refl
    (bindings : Bindings) :
    bindings.Extends bindings [] where
  mem_wildcards := by
    simp
  nodup :=
    id

theorem trans
    {bindings middle extended : Bindings}
    {first second : List Wildcard}
    (earlier : bindings.Extends middle first)
    (later : middle.Extends extended second) :
    bindings.Extends extended (first ++ second) where
  mem_wildcards identity := by
    rw [later.mem_wildcards, earlier.mem_wildcards, List.mem_append,
      or_assoc]
  nodup distinct :=
    later.nodup (earlier.nodup distinct)

/-- Binding adds its own wildcard. -/
theorem of_bind?
    {bindings extended : Bindings}
    {identity : Wildcard}
    {value : Expr}
    (bound : bindings.bind? identity value = some extended) :
    bindings.Extends extended [identity] := by
  cases found : bindings.valueOf? identity with
  | some earlier =>
      simp only [bind?, found, Option.ite_none_right_eq_some,
        Option.some.injEq] at bound
      obtain ⟨-, rfl⟩ := bound
      have known : identity ∈ bindings.wildcards := by
        rw [← isSome_valueOf?, found]
        rfl
      refine ⟨?_, id⟩
      intro other
      constructor
      · exact .inl
      · rintro (old | new)
        · exact old
        · rw [List.mem_singleton.mp new]
          exact known
  | none =>
      simp only [bind?, found, Option.some.injEq] at bound
      subst extended
      have unknown : identity ∉ bindings.wildcards := by
        rw [← isSome_valueOf?, found]
        simp
      refine ⟨?_, ?_⟩
      · intro other
        simp [wildcards]
      · intro distinct
        simp only [wildcards, List.map_append, List.map_cons, List.map_nil]
        rw [List.nodup_append]
        refine ⟨distinct, by simp, ?_⟩
        rintro other old added new rfl
        exact unknown (List.mem_singleton.mp new ▸ old)

end Extends

end Bindings

/-- Matching arguments narrows assignments as matching them one by one does. -/
theorem agrees_unifyArgs?
    {patterns : List Expr}
    {assignment : Wildcard → Expr}
    (each :
      ∀ pattern ∈ patterns, ∀ subject bindings,
        (∃ extended,
            unify? subject pattern bindings = some extended ∧
              extended.Agrees assignment) ↔
          bindings.Agrees assignment ∧ pattern.fill assignment = subject)
    {subjects : List Expr}
    (sameLength : subjects.length = patterns.length)
    (bindings : Bindings) :
    (∃ extended,
        unifyArgs? subjects patterns bindings = some extended ∧
          extended.Agrees assignment) ↔
      bindings.Agrees assignment ∧
        patterns.map (Expr.fill assignment) = subjects := by
  induction patterns generalizing subjects bindings with
  | nil =>
      have noSubjects : subjects = [] := by
        simpa using sameLength
      simp [unifyArgs?, noSubjects]
  | cons pattern rest inductionHypothesis =>
      obtain ⟨subject, others, rfl⟩ :=
        List.exists_cons_of_length_eq_add_one sameLength
      simp only [List.forall_mem_cons] at each
      obtain ⟨headEach, restEach⟩ := each
      have headNarrows := headEach subject bindings
      have restNarrows := inductionHypothesis restEach (by simpa using sameLength)
      simp only [unifyArgs?, List.map_cons, List.cons.injEq]
      rw [← and_assoc, ← headNarrows]
      cases unify? subject pattern bindings with
      | none =>
          simp
      | some extended =>
          simpa using restNarrows extended

/-- Matching leaves exactly the assignments that also fill the pattern to the subject. -/
theorem agrees_unify?
    {pattern : Expr}
    {assignment : Wildcard → Expr}
    (subject : Expr)
    (bindings : Bindings) :
    (∃ extended,
        unify? subject pattern bindings = some extended ∧
          extended.Agrees assignment) ↔
      bindings.Agrees assignment ∧ pattern.fill assignment = subject := by
  induction pattern generalizing subject bindings with
  | wildcard identity =>
      simpa [unify?, Expr.fill] using Bindings.agrees_bind?
  | apply head args headHypothesis argsHypothesis =>
      cases subject with
      | apply head' args' =>
          simp only [unify?, Expr.fill, Expr.fillArgs_eq_map, Expr.apply.injEq]
          by_cases sameLength : args'.length = args.length
          · rw [← and_assoc, ← headHypothesis head' bindings]
            simp only [sameLength, if_true]
            cases unify? head' head bindings with
            | none =>
                simp
            | some extended =>
                simpa using
                  agrees_unifyArgs? argsHypothesis sameLength extended
          · have differs : args.map (Expr.fill assignment) ≠ args' := by
              rintro rfl
              simp at sameLength
            simp [sameLength, differs]
      | _ =>
          simp [unify?, Expr.fill]
  | _ =>
      simp only [unify?, Expr.fill, Option.ite_none_right_eq_some,
        Option.some.injEq]
      constructor
      · rintro ⟨extended, ⟨rfl, rfl⟩, agrees⟩
        exact ⟨agrees, rfl⟩
      · rintro ⟨agrees, rfl⟩
        exact ⟨bindings, ⟨rfl, rfl⟩, agrees⟩

/-- Matching arguments adds the wildcards of all patterns. -/
theorem extends_unifyArgs?
    {patterns : List Expr}
    (each :
      ∀ pattern ∈ patterns, ∀ subject bindings extended,
        unify? subject pattern bindings = some extended →
          bindings.Extends extended pattern.wildcards)
    {subjects : List Expr}
    (sameLength : subjects.length = patterns.length)
    {bindings extended : Bindings}
    (matched : unifyArgs? subjects patterns bindings = some extended) :
    bindings.Extends extended (Expr.wildcardsOfArgs patterns) := by
  induction patterns generalizing subjects bindings with
  | nil =>
      simp only [unifyArgs?, Option.some.injEq] at matched
      subst extended
      exact .refl bindings
  | cons pattern rest inductionHypothesis =>
      obtain ⟨subject, others, rfl⟩ :=
        List.exists_cons_of_length_eq_add_one sameLength
      simp only [List.forall_mem_cons] at each
      obtain ⟨headEach, restEach⟩ := each
      cases headMatched : unify? subject pattern bindings with
      | none =>
          simp [unifyArgs?, headMatched] at matched
      | some middle =>
          simp only [unifyArgs?, headMatched] at matched
          exact (headEach subject bindings middle headMatched).trans
            (inductionHypothesis restEach (by simpa using sameLength) matched)

/-- Matching adds the wildcards of the pattern. -/
theorem extends_unify?
    {pattern subject : Expr}
    {bindings extended : Bindings}
    (matched : unify? subject pattern bindings = some extended) :
    bindings.Extends extended pattern.wildcards := by
  induction pattern generalizing subject bindings extended with
  | wildcard identity =>
      exact .of_bind? (by simpa only [unify?] using matched)
  | apply head args headHypothesis argsHypothesis =>
      cases subject with
      | apply head' args' =>
          simp only [unify?, Option.ite_none_right_eq_some] at matched
          obtain ⟨sameLength, matched⟩ := matched
          cases headMatched : unify? head' head bindings with
          | none =>
              simp [headMatched] at matched
          | some middle =>
              simp only [headMatched] at matched
              exact (headHypothesis headMatched).trans
                (extends_unifyArgs?
                  (fun arg member _ _ _ => argsHypothesis arg member)
                  sameLength matched)
      | _ =>
          simp [unify?] at matched
  | _ =>
      simp only [unify?, Option.ite_none_right_eq_some,
        Option.some.injEq] at matched
      obtain ⟨-, rfl⟩ := matched
      exact .refl bindings

/--
A pattern matches exactly the subjects that it can be filled to.  A match binds exactly the
wildcards of the pattern, each once and to its value in every assignment that fills the pattern to
the subject; after a failure nothing is bound.  What was bound before has no influence.
-/
theorem matchPattern_exact
    (subject pattern : Expr)
    (prior : Bindings) :
    ((matchPattern subject pattern prior).1 = true ↔
        ∃ assignment, pattern.fill assignment = subject) ∧
      (∀ assignment,
        pattern.fill assignment = subject →
          ((matchPattern subject pattern prior).2.wildcards.Nodup ∧
            ∀ identity,
              (matchPattern subject pattern prior).2.valueOf? identity =
                if identity ∈ pattern.wildcards then
                  some (assignment identity)
                else
                  none)) ∧
      ((matchPattern subject pattern prior).1 = false →
        (matchPattern subject pattern prior).2 = {}) := by
  have narrows (assignment : Wildcard → Expr) :
      (∃ extended,
          unify? subject pattern {} = some extended ∧
            extended.Agrees assignment) ↔
        pattern.fill assignment = subject := by
    rw [agrees_unify?]
    exact and_iff_right (Bindings.agrees_empty assignment)
  cases matched : unify? subject pattern {} with
  | none =>
      have unfilled (assignment : Wildcard → Expr) :
          pattern.fill assignment ≠ subject := by
        intro filled
        simpa [matched] using (narrows assignment).mpr filled
      simp [matchPattern, captures?, matched, unfilled]
  | some bindings =>
      have extended := extends_unify? matched
      simp only [matched, Option.some.injEq, exists_eq_left'] at narrows
      simp only [matchPattern, captures?, matched]
      refine ⟨?_, ?_, by simp⟩
      · obtain ⟨assignment, agrees⟩ := bindings.exists_agrees
        simpa using ⟨assignment, (narrows assignment).mp agrees⟩
      · intro assignment filled
        refine ⟨extended.nodup (by simp [Bindings.wildcards]), ?_⟩
        intro identity
        have bound :
            (bindings.valueOf? identity).isSome ↔
              identity ∈ pattern.wildcards := by
          rw [Bindings.isSome_valueOf?, extended.mem_wildcards]
          simp [Bindings.wildcards]
        simp only [← bound]
        cases found : bindings.valueOf? identity with
        | none =>
            simp
        | some value =>
            have assigned :=
              (narrows assignment).mpr filled identity value found
            simp [assigned]

end SymbolicAlgebra
