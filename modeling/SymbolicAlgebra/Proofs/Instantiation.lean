import SymbolicAlgebra.Proofs.Matching
import SymbolicAlgebra.Proofs.Session.Plain

/-!
# Instantiating the pattern that a subject matched

Matching compares expressions as they are, while instantiation builds a pattern anew around what its wildcards were
bound to, and looks up every node that it has built.  If the function terms of the filled pattern are built to
themselves, the two agree: filling is all that instantiation does.
-/

namespace SymbolicAlgebra

open SymbolicAlgebra.Expr

namespace Bindings

/-- Gives bound wildcards their values, and leaves the others as they are. -/
def assignment
    (bindings : Bindings)
    (identity : Wildcard) : Expr :=
  (bindings.valueOf? identity).getD (.wildcard identity)

theorem agrees_assignment
    (bindings : Bindings) :
    bindings.Agrees bindings.assignment := by
  intro identity value found
  rw [assignment, found, Option.getD_some]

theorem lookup_wildcard
    (entries : List (Wildcard × Expr))
    (identity : Wildcard) :
    (entries.map fun entry => (Expr.wildcard entry.1, entry.2)).lookup
        (.wildcard identity) =
      entries.lookup identity := by
  induction entries with
  | nil =>
      rfl
  | cons entry rest inductionHypothesis =>
      have sameTest :
          (Expr.wildcard identity == Expr.wildcard entry.1) = (identity == entry.1) := by
        rw [Bool.eq_iff_iff, beq_iff_eq, beq_iff_eq, Expr.wildcard.injEq]
      rw [List.map_cons, List.lookup_cons, List.lookup_cons, sameTest,
        inductionHypothesis]

/-- The keys of the substitution are the bound wildcards. -/
theorem find?_toSubstitution
    (bindings : Bindings)
    (node : Expr) :
    bindings.toSubstitution.find? node = bindings.get? node := by
  cases node with
  | wildcard identity =>
      exact lookup_wildcard bindings.entries identity
  | _ =>
      refine List.lookup_eq_none_iff.mpr fun entry isEntry => ?_
      obtain ⟨bound, -, rfl⟩ := List.mem_map.mp isEntry
      exact bne_iff_ne.mpr fun same => by cases same

/-- A wildcard that is replaced, if only by itself, becomes its value. -/
theorem getD_replacement?_wildcard
    (bindings : Bindings)
    (identity : Wildcard) :
    (bindings.toSubstitution.replacement? (.wildcard identity)).getD (.wildcard identity) =
      bindings.assignment identity := by
  rw [Substitution.replacement?, find?_toSubstitution, assignment, get?]
  cases bindings.valueOf? identity with
  | none =>
      rfl
  | some value =>
      dsimp only
      split
      · rename_i untouched
        exact (beq_iff_eq.mp (Bool.and_eq_true_iff.mp untouched).2).symm
      · rfl

/-- Nothing but wildcards is replaced. -/
theorem replacement?_eq_none
    (bindings : Bindings)
    {node : Expr}
    (other : bindings.get? node = none) :
    bindings.toSubstitution.replacement? node = none := by
  rw [Substitution.replacement?, find?_toSubstitution, other]

end Bindings

section Fill

variable {build : Builder} {bindings : Bindings}

theorem exists_walkArgs_eq_fill
    {visit : Expr → Except ExprError (Option Expr)}
    {assignment : Wildcard → Expr}
    {args : List Expr}
    (each :
      ∀ arg ∈ args, ∃ replaced,
        arg.walk build visit = .ok replaced ∧ replaced.getD arg = arg.fill assignment) :
    ∃ replaced,
      walkArgs build visit args = .ok replaced ∧
        replaced.getD args = args.map (fill assignment) := by
  induction args with
  | nil =>
      exact ⟨none, rfl, rfl⟩
  | cons arg rest inductionHypothesis =>
      obtain ⟨⟨arg', argWalked, argFilled⟩, later⟩ := List.forall_mem_cons.mp each
      obtain ⟨rest', restWalked, restFilled⟩ := inductionHypothesis later
      rw [walkArgs, argWalked, ok_bind, restWalked, ok_bind, List.map_cons, ← argFilled,
        ← restFilled]
      refine ⟨_, rfl, ?_⟩
      cases arg' <;> cases rest' <;> rfl

/-- Replacing bound wildcards fills an expression whose filled function terms are built to themselves. -/
theorem exists_walk_eq_fill
    {expr : Expr}
    (reproduced :
      ∀ head args,
        (expr.fill bindings.assignment).contains (.apply head args) = true →
          build head args = .ok (.apply head args)) :
    ∃ replaced,
      expr.walk build (fun node => pure (bindings.toSubstitution.replacement? node)) =
          .ok replaced ∧
        replaced.getD expr = expr.fill bindings.assignment := by
  induction expr with
  | wildcard identity =>
      exact ⟨_, rfl, bindings.getD_replacement?_wildcard identity⟩
  | apply head args headHypothesis argsHypothesis =>
      rw [fill, fillArgs_eq_map] at reproduced ⊢
      obtain ⟨head', headWalked, headFilled⟩ :=
        headHypothesis fun callee operands inHead =>
          reproduced callee operands (contains_apply.mpr (.inr (.inl inHead)))
      obtain ⟨args', argsWalked, argsFilled⟩ :=
        exists_walkArgs_eq_fill fun arg isArg =>
          argsHypothesis arg isArg fun callee operands inArg =>
            reproduced callee operands (contains_apply.mpr (.inr (.inr
              ⟨arg.fill bindings.assignment, List.mem_map_of_mem isArg, inArg⟩)))
      have built := reproduced _ _ (contains_apply.mpr (.inl rfl))
      rw [← headFilled, ← argsFilled] at built ⊢
      -- The node is built to what it is filled to, unless it is kept because nothing in it was replaced.
      obtain ⟨rebuilt, rebuilding, rebuiltFilled⟩ :
          ∃ rebuilt,
            rebuild build head args head' args' = .ok rebuilt ∧
              rebuilt.getD (.apply head args) =
                .apply (head'.getD head) (args'.getD args) := by
        unfold rebuild
        split
        · rename_i untouched
          rw [Bool.and_eq_true, Option.isNone_iff_eq_none, Option.isNone_iff_eq_none]
            at untouched
          obtain ⟨rfl, rfl⟩ := untouched
          exact ⟨none, rfl, rfl⟩
        · rw [built]
          exact ⟨some _, rfl, rfl⟩
      have kept :
          bindings.toSubstitution.replacement? (rebuilt.getD (.apply head args)) = none := by
        rw [rebuiltFilled]
        exact bindings.replacement?_eq_none rfl
      refine ⟨rebuilt, ?_, rebuiltFilled⟩
      rw [walk, headWalked, ok_bind, argsWalked, ok_bind, rebuilding, ok_bind, kept]
      rfl
  | _ =>
      refine ⟨none, ?_, rfl⟩
      change Except.ok (bindings.toSubstitution.replacement? _) = _
      rw [bindings.replacement?_eq_none rfl]

/-- So does instantiating an expression with any builder. -/
theorem onePass_toSubstitution
    {expr : Expr}
    (reproduced :
      ∀ head args,
        (expr.fill bindings.assignment).contains (.apply head args) = true →
          build head args = .ok (.apply head args)) :
    expr.onePass build (fun node => pure (bindings.toSubstitution.replacement? node)) =
      .ok (expr.fill bindings.assignment) := by
  obtain ⟨replaced, walked, filled⟩ := exists_walk_eq_fill reproduced
  rw [onePass, walked, ok_bind, filled]
  rfl

end Fill

/-- What a match has bound fills the pattern to the subject. -/
theorem fill_of_captures?
    {subject pattern : Expr}
    {bindings : Bindings}
    (captured : captures? subject pattern = some bindings) :
    pattern.fill bindings.assignment = subject :=
  ((agrees_unify? subject {}).mp ⟨bindings, captured, bindings.agrees_assignment⟩).2

/--
If a subject matches a pattern, and every function term in the subject is what its head and its arguments are built
to, then instantiating the pattern gives the subject, whatever wildcards the subject contains.  So it does in every
session of the workspace, outside of simplifications.
-/
theorem instantiate_captures
    {workspace : Workspace}
    {subject pattern : Expr}
    {bindings : Bindings}
    (reproduced :
      ∀ head args,
        subject.contains (.apply head args) = true →
          workspace.apply head args = .ok (.apply head args))
    (captured : captures? subject pattern = some bindings) :
    workspace.instantiate bindings pattern = .ok subject ∧
      Session.Evaluates false workspace
        (Session.substitute bindings.toSubstitution pattern) (.ok subject) := by
  have filled := fill_of_captures? captured
  have instantiated : workspace.instantiate bindings pattern = .ok subject := by
    have outcome := onePass_toSubstitution (filled.symm ▸ reproduced)
    rw [filled] at outcome
    exact outcome
  refine ⟨instantiated, instantiated ▸ ?_⟩
  exact Session.evaluates_substitute_of_idle bindings.toSubstitution pattern

/-- During a simplification it does so if the function terms of the subject are built raw to themselves. -/
theorem evaluates_substitute_captures
    {workspace : Workspace}
    {subject pattern : Expr}
    {bindings : Bindings}
    (reproduced :
      ∀ head args,
        subject.contains (.apply head args) = true →
          workspace.table.construct head args = .ok (.apply head args))
    (captured : captures? subject pattern = some bindings) :
    Session.Evaluates true workspace
      (Session.substitute bindings.toSubstitution pattern) (.ok subject) := by
  have filled := fill_of_captures? captured
  have evaluates :=
    @Session.evaluates_substitute workspace bindings.toSubstitution pattern
  rw [onePass_toSubstitution (filled.symm ▸ reproduced), filled] at evaluates
  exact evaluates

/--
With wildcards `u` and `w`, the subject `f(w, g(u))` matches the pattern `f(u, w)`: now `u` stands for `w`, and `w` for
a term with `u` in it.  Instantiating the pattern gives the subject back.
-/
theorem instantiate_captures_crossed :
    let u := Expr.wildcard ⟨0, "u"⟩
    let w := Expr.wildcard ⟨1, "w"⟩
    let subject := Expr.apply (.symbol "f") [w, .apply (.symbol "g") [u]]
    let bindings : Bindings :=
      ⟨[(⟨0, "u"⟩, w), (⟨1, "w"⟩, .apply (.symbol "g") [u])]⟩
    captures? subject (.apply (.symbol "f") [u, w]) = some bindings ∧
      ({} : Workspace).instantiate bindings (.apply (.symbol "f") [u, w]) =
        .ok subject := by
  intro u w subject bindings
  have captured :
      captures? subject (.apply (.symbol "f") [u, w]) = some bindings := by
    decide
  have reproduced : ∀ head args,
      subject.contains (.apply head args) = true →
        ({} : Workspace).apply head args = .ok (.apply head args) := by
    intro head args contained
    simp only [subject, u, w, contains, argsContain, Bool.or_eq_true, Bool.or_false,
      decide_eq_true_eq, reduceCtorEq, or_false, false_or, Expr.apply.injEq]
      at contained
    rcases contained with ⟨rfl, rfl⟩ | ⟨rfl, rfl⟩ <;> decide +kernel
  exact ⟨captured, (instantiate_captures reproduced captured).1⟩

end SymbolicAlgebra
