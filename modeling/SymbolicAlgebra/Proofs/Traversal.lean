import SymbolicAlgebra.Proofs.Expr.Structure
import SymbolicAlgebra.Traversal

/-!
# Walks in two monads

A walk does nothing of its own but to return values and to let steps follow each other.  So whatever relates the
steps of two monads, and holds of equal values and of steps that follow each other, relates the walks as soon as it
relates building and visiting; and it relates the repetition of passes as soon as it relates the passes.
-/

namespace SymbolicAlgebra

/-- What a walk makes of an expression. -/
def Expr.onePass
    {m : Type → Type}
    [Monad m]
    (build : Expr → List Expr → m Expr)
    (visit : Expr → m (Option Expr))
    (expr : Expr) : m Expr := do
  let replaced ← expr.walk build visit
  pure (replaced.getD expr)

/-- Replaced arguments are put in, whether or not any argument was replaced. -/
theorem Expr.getD_replacedArgs
    (arg : Expr)
    (rest : List Expr)
    (arg' : Option Expr)
    (rest' : Option (List Expr)) :
    Option.getD
        (if arg'.isNone && rest'.isNone then
          none
        else
          some (arg'.getD arg :: rest'.getD rest))
        (arg :: rest) =
      arg'.getD arg :: rest'.getD rest := by
  cases arg' <;> cases rest' <;> rfl

/-- What relates the steps of two monads: equal values are related, and so are steps that follow each other. -/
structure Correspondence
    (m n : Type → Type)
    [Monad m]
    [Monad n] where
  related : {α : Type} → m α → n α → Prop
  pure :
    ∀ {α : Type} (value : α), related (pure value) (pure value)
  bind :
    ∀ {α β : Type} {first : m α} {first' : n α} {next : α → m β} {next' : α → n β},
      related first first' → (∀ value, related (next value) (next' value)) →
        related (first >>= next) (first' >>= next')

namespace Correspondence

open SymbolicAlgebra.Expr

variable {m n : Type → Type} [Monad m] [Monad n] (corresponds : Correspondence m n)
  {build : Expr → List Expr → m Expr}
  {build' : Expr → List Expr → n Expr}
  {visit : Expr → m (Option Expr)}
  {visit' : Expr → n (Option Expr)}

theorem map
    [LawfulMonad m]
    [LawfulMonad n]
    {α β : Type}
    {action : m α}
    {action' : n α}
    (same : corresponds.related action action')
    (read : α → β) :
    corresponds.related (read <$> action) (read <$> action') := by
  rw [map_eq_pure_bind, map_eq_pure_bind]
  exact corresponds.bind same fun value => corresponds.pure (read value)

theorem rebuild
    [LawfulMonad m]
    [LawfulMonad n]
    (builds : ∀ head args, corresponds.related (build head args) (build' head args))
    (head : Expr)
    (args : List Expr)
    (head' : Option Expr)
    (args' : Option (List Expr)) :
    corresponds.related (Expr.rebuild build head args head' args')
      (Expr.rebuild build' head args head' args') := by
  unfold Expr.rebuild
  split
  · exact corresponds.pure none
  · exact corresponds.map (builds _ _) some

theorem walkArgs
    {args : List Expr}
    (each :
      ∀ arg ∈ args,
        corresponds.related (arg.walk build visit) (arg.walk build' visit')) :
    corresponds.related (Expr.walkArgs build visit args)
      (Expr.walkArgs build' visit' args) := by
  induction args with
  | nil =>
      exact corresponds.pure none
  | cons arg rest inductionHypothesis =>
      obtain ⟨first, later⟩ := List.forall_mem_cons.mp each
      refine corresponds.bind first fun arg' => ?_
      refine corresponds.bind (inductionHypothesis later) fun rest' => ?_
      exact corresponds.pure _

/-- Walks correspond if building and visiting do. -/
theorem walk
    [LawfulMonad m]
    [LawfulMonad n]
    (builds : ∀ head args, corresponds.related (build head args) (build' head args))
    (visits : ∀ node, corresponds.related (visit node) (visit' node))
    (expr : Expr) :
    corresponds.related (expr.walk build visit) (expr.walk build' visit') := by
  induction expr with
  | apply head args headHypothesis argsHypothesis =>
      refine corresponds.bind headHypothesis fun head' => ?_
      refine corresponds.bind (corresponds.walkArgs argsHypothesis) fun args' => ?_
      refine corresponds.bind (corresponds.rebuild builds head args head' args')
        fun rebuilt => ?_
      refine corresponds.bind (visits _) fun replaced => ?_
      exact corresponds.pure _
  | _ =>
      exact visits _

theorem onePass
    [LawfulMonad m]
    [LawfulMonad n]
    (builds : ∀ head args, corresponds.related (build head args) (build' head args))
    (visits : ∀ node, corresponds.related (visit node) (visit' node))
    (expr : Expr) :
    corresponds.related (expr.onePass build visit) (expr.onePass build' visit') :=
  corresponds.bind (corresponds.walk builds visits expr) fun _ => corresponds.pure _

/-- Repeated passes correspond if the passes do. -/
theorem settle?
    {pass : Expr → m Expr}
    {pass' : Expr → n Expr}
    (passes : ∀ expr, corresponds.related (pass expr) (pass' expr))
    (done : Nat)
    (expr : Expr)
    (ceiling : Nat) :
    corresponds.related (Expr.settle? pass done expr ceiling)
      (Expr.settle? pass' done expr ceiling) := by
  induction ceiling generalizing done expr with
  | zero =>
      exact corresponds.pure none
  | succ ceiling inductionHypothesis =>
      refine corresponds.bind (passes expr) fun next => ?_
      split
      · exact corresponds.pure _
      · exact inductionHypothesis (done + 1) next

end Correspondence

end SymbolicAlgebra
