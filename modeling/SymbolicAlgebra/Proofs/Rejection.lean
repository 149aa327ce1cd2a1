import Mathlib.Logic.Relation
import SymbolicAlgebra.Proofs.Bitwise.Evaluation

/-!
# Rejected operands

An evaluator may reject two literals.  A rule that comes upon such a pair is abandoned, so applying a head
fails for this reason only if the arguments are such a pair themselves, or if a pass finds an application
of which the operands have just become one.
-/

namespace SymbolicAlgebra

open SymbolicAlgebra.Expr

/-- Two literals that the evaluator of an operator rejects. -/
structure Rejection where
  op : String
  lhs : Float
  rhs : Float
  reason : EvalFailure

namespace Rejection

/-- The literals. -/
def operands
    (rejection : Rejection) : List Expr :=
  [.number rejection.lhs, .number rejection.rhs]

/-- What applying the operator to the literals fails with. -/
def error
    (rejection : Rejection) : ExprError :=
  .evaluation rejection.op rejection.lhs rejection.rhs rejection.reason

end Rejection

/-- The next pass over an expression makes another one of it. -/
def Passes
    (table : SymbolTable)
    (expr next : Expr) : Prop :=
  pass table catalogue expr = .ok next

/-- A pass turns the parts of an application into an operator and the two literals that it rejects. -/
structure Collapse
    (table : SymbolTable)
    (rejection : Rejection)
    (head : Expr)
    (args : List Expr) : Prop where
  head_passes :
    Passes table head (.symbol rejection.op)
  args_pass :
    List.Forall₂ (Passes table) args rejection.operands
  rejects :
    table.construct (.symbol rejection.op) rejection.operands =
      .error rejection.error
  changes :
    Expr.apply head args ≠ .apply (.symbol rejection.op) rejection.operands

/-- The parts of some application in the expression become rejected operands. -/
inductive Collapses
    (table : SymbolTable)
    (rejection : Rejection) : Expr → Prop where
  | here
      {head : Expr}
      {args : List Expr}
      (collapse : Collapse table rejection head args) :
      Collapses table rejection (.apply head args)
  | head
      {head : Expr}
      {args : List Expr}
      (collapses : Collapses table rejection head) :
      Collapses table rejection (.apply head args)
  | arg
      {head arg : Expr}
      {args : List Expr}
      (member : arg ∈ args)
      (collapses : Collapses table rejection arg) :
      Collapses table rejection (.apply head args)

section Rejecting

variable {table : SymbolTable} {rejection : Rejection} {head expr : Expr}
  {args : List Expr}

/-- An evaluator rejects the two literals that it is called with. -/
theorem of_evaluateLiterals?_eq_error
    {spec : OperatorSpec}
    {name : String}
    (rejects :
      spec.evaluateLiterals? name args = some (.error rejection.error)) :
    name = rejection.op ∧ args = rejection.operands := by
  unfold OperatorSpec.evaluateLiterals? at rejects
  split at rejects
  · obtain ⟨evaluator, -, computed⟩ := Option.map_eq_some_iff.mp rejects
    dsimp only at computed
    generalize (spec.coerce _ >>= _) = outcome at computed
    cases outcome with
    | error reason =>
        cases computed
        exact ⟨rfl, rfl⟩
    | ok value =>
        cases computed
  · cases rejects

/-- A raw term is rejected only for its own head and arguments. -/
theorem of_construct_eq_error
    (fails : table.construct head args = .error rejection.error) :
    head = .symbol rejection.op ∧ args = rejection.operands := by
  unfold SymbolTable.construct at fails
  split at fails
  · cases fails
  · split at fails
    · cases fails
    · rename_i spec found
      split at fails
      · rename_i outcome evaluated
        subst fails
        obtain ⟨sameName, sameArgs⟩ := of_evaluateLiterals?_eq_error evaluated
        cases head with
        | symbol name =>
            exact ⟨congrArg Expr.symbol sameName, sameArgs⟩
        | _ =>
            cases found
      · split at fails
        · cases fails
        · split at fails <;> cases fails

/-! ## Passes that fail -/

/-- A walk through arguments fails only if the walk through one of them does. -/
theorem exists_of_walkArgs_eq_error
    {error : ExprError}
    (fails : walkArgs table.construct (visit table) args = .error error) :
    ∃ arg ∈ args, arg.walk table.construct (visit table) = .error error := by
  induction args with
  | nil =>
      cases fails
  | cons arg rest inductionHypothesis =>
      rcases of_bind_eq_error fails with argFails | ⟨arg', -, fails⟩
      · exact ⟨arg, List.mem_cons_self, argFails⟩
      · rcases of_bind_eq_error fails with restFails | ⟨rest', -, fails⟩
        · obtain ⟨other, member, otherFails⟩ := inductionHypothesis restFails
          exact ⟨other, List.mem_cons_of_mem arg member, otherFails⟩
        · cases fails

/-- A walk through arguments makes a pass over each of them. -/
theorem forall₂_passes_of_walkArgs
    {args' : Option (List Expr)}
    (walked : walkArgs table.construct (visit table) args = .ok args') :
    List.Forall₂ (Passes table) args (args'.getD args) :=
  forall₂_of_walkArgs (fun _ _ _ argWalked => pass_of_walk argWalked) walked

/-- A walk through leaves replaces nothing. -/
theorem walkArgs_leaves
    (leaves : ∀ arg ∈ args, arg.isLeaf = true) :
    walkArgs table.construct (visit table) args = .ok none := by
  induction args with
  | nil =>
      rfl
  | cons arg rest inductionHypothesis =>
      obtain ⟨isLeaf, restLeaves⟩ := List.forall_mem_cons.mp leaves
      rw [walkArgs, walk_leaf isLeaf, ok_bind, inductionHypothesis restLeaves]
      rfl

/-- An application is rejected in a pass if a part of it is, or if its parts become rejected operands. -/
theorem of_walk_apply_eq_error
    (fails :
      (Expr.apply head args).walk table.construct (visit table) =
        .error rejection.error) :
    head.walk table.construct (visit table) = .error rejection.error ∨
      (∃ arg ∈ args,
        arg.walk table.construct (visit table) = .error rejection.error) ∨
      Collapse table rejection head args := by
  rcases of_bind_eq_error fails with headFails | ⟨head', headWalked, fails⟩
  · exact .inl headFails
  rcases of_bind_eq_error fails with argsFail | ⟨args', argsWalked, fails⟩
  · exact .inr (.inl (exists_of_walkArgs_eq_error argsFail))
  -- Visits never fail, so it is building the application anew that does.
  rcases of_bind_eq_error fails with buildFails | ⟨rebuilt, -, fails⟩
  · have headPasses : Passes table head (head'.getD head) :=
      pass_of_walk headWalked
    have argsPass := forall₂_passes_of_walkArgs argsWalked
    unfold rebuild at buildFails
    split at buildFails
    · cases buildFails
    · rename_i touched
      have constructFails :
          table.construct (head'.getD head) (args'.getD args) =
            .error rejection.error := by
        cases outcome : table.construct (head'.getD head) (args'.getD args) with
        | error error =>
            rw [outcome] at buildFails
            cases buildFails
            rfl
        | ok built =>
            rw [outcome] at buildFails
            cases buildFails
      obtain ⟨sameHead, sameArgs⟩ := of_construct_eq_error constructFails
      rw [sameHead, sameArgs] at constructFails
      rw [sameHead] at headPasses
      rw [sameArgs] at argsPass
      have changes :
          Expr.apply head args ≠
            .apply (.symbol rejection.op) rejection.operands := by
        -- Leaves are never replaced, so rejected operands are not built anew.
        intro same
        obtain ⟨rfl, rfl⟩ := Expr.apply.inj same
        have leaves : ∀ arg ∈ rejection.operands, arg.isLeaf = true := by
          simp [Rejection.operands, isLeaf]
        cases (walk_leaf rfl).symm.trans headWalked
        cases (walkArgs_leaves leaves).symm.trans argsWalked
        exact touched rfl
      exact .inr (.inr ⟨headPasses, argsPass, constructFails, changes⟩)
  · rcases of_bind_eq_error fails with visitFails | ⟨replaced, -, fails⟩
    · cases visitFails
    · cases fails

/-- A walk is rejected only where the parts of an application become rejected operands. -/
theorem collapses_of_walk_eq_error
    (fails :
      expr.walk table.construct (visit table) = .error rejection.error) :
    Collapses table rejection expr := by
  induction expr with
  | apply head args headHypothesis argsHypothesis =>
      rcases of_walk_apply_eq_error fails with
        headFails | ⟨arg, member, argFails⟩ | collapse
      · exact .head (headHypothesis headFails)
      · exact .arg member (argsHypothesis arg member argFails)
      · exact .here collapse
  | _ =>
      cases (walk_leaf rfl).symm.trans fails

theorem walk_eq_error_of_pass
    {error : ExprError}
    (fails : pass table catalogue expr = .error error) :
    expr.walk table.construct (visit table) = .error error := by
  rcases of_bind_eq_error fails with walkFails | ⟨replaced, -, fails⟩
  · exact walkFails
  · cases fails

/-- Passes leave fixed points alone. -/
theorem eq_of_forall₂_passes
    {args' : List Expr}
    (fixed : ∀ arg ∈ args, Passes table arg arg)
    (pass : List.Forall₂ (Passes table) args args') :
    args = args' := by
  induction pass with
  | nil =>
      rfl
  | cons argPasses restPass inductionHypothesis =>
      obtain ⟨argFixed, restFixed⟩ := List.forall_mem_cons.mp fixed
      rw [Except.ok.inj (argFixed.symm.trans argPasses),
        inductionHypothesis restFixed]

/-- The first pass over an application of a symbol to fixed points is not rejected. -/
theorem pass_ne_error_of_fixed
    {name : String}
    (fixed : ∀ arg ∈ args, Passes table arg arg) :
    pass table catalogue (.apply (.symbol name) args) ≠
      .error rejection.error := by
  intro fails
  rcases of_walk_apply_eq_error (walk_eq_error_of_pass fails) with
    headFails | ⟨arg, member, argFails⟩ | collapse
  · cases (walk_leaf rfl).symm.trans headFails
  · obtain ⟨arg', argWalked, -⟩ := exists_walk_of_pass (fixed arg member)
    cases argWalked.symm.trans argFails
  · have sameHead :=
      Except.ok.inj ((pass_leaf rfl).symm.trans collapse.head_passes)
    have sameArgs := eq_of_forall₂_passes fixed collapse.args_pass
    exact collapse.changes (by rw [sameHead, sameArgs])

/-! ## Simplification that fails -/

/-- Repeated passes are rejected only after some of them have succeeded. -/
theorem exists_of_settle?_eq_error
    {done ceiling : Nat}
    {error : ExprError}
    (fails :
      settle? (pass table catalogue) done expr ceiling = .error error) :
    ∃ reached,
      Relation.ReflTransGen (Passes table) expr reached ∧
        pass table catalogue reached = .error error := by
  induction ceiling generalizing expr done with
  | zero =>
      cases fails
  | succ ceiling inductionHypothesis =>
      rcases of_bind_eq_error fails with passFails | ⟨next, passes, fails⟩
      · exact ⟨expr, .refl, passFails⟩
      · split at fails
        · cases fails
        · obtain ⟨reached, steps, reachedFails⟩ := inductionHypothesis fails
          exact ⟨reached, .head passes steps, reachedFails⟩

variable {workspace : Workspace}

/-- Applying a head is rejected for its own arguments, or by a pass over what the raw term became. -/
theorem of_apply_eq_error
    (fails : workspace.apply head args = .error rejection.error) :
    workspace.table.construct head args = .error rejection.error ∨
      ∃ raw reached,
        workspace.table.construct head args = .ok raw ∧
          Relation.ReflTransGen (Passes workspace.table) raw reached ∧
            pass workspace.table catalogue reached = .error rejection.error := by
  rcases of_bind_eq_error fails with constructFails | ⟨raw, constructed, fails⟩
  · exact .inl constructFails
  · split at fails
    · cases fails
    · cases outcome :
          settle? (pass workspace.table catalogue) 0 raw workspace.ceiling with
      | ok settled =>
          unfold Workspace.simplify fixedPoint at fails
          rw [outcome] at fails
          cases settled <;> cases fails
      | error error =>
          unfold Workspace.simplify fixedPoint at fails
          rw [outcome] at fails
          cases fails
          obtain ⟨reached, steps, reachedFails⟩ :=
            exists_of_settle?_eq_error outcome
          exact .inr ⟨raw, reached, constructed, steps, reachedFails⟩

/-- The first pass over a raw term of a symbol and fixed points is not rejected. -/
theorem pass_ne_error_of_construct
    {name : String}
    {raw : Expr}
    (fixed : ∀ arg ∈ args, Passes table arg arg)
    (constructed : table.construct (.symbol name) args = .ok raw) :
    pass table catalogue raw ≠ .error rejection.error := by
  obtain ⟨-, constructs⟩ := construct_eq_ok_iff.mp constructed
  generalize table.specOf? (.symbol name) = spec? at constructs
  cases constructs with
  | plain =>
      exact pass_ne_error_of_fixed fixed
  | evaluated outcome =>
      rw [pass_leaf (OperatorSpec.isLeaf_of_evaluateLiterals? outcome)]
      nofun
  | absorbed unevaluated absorbs =>
      obtain ⟨-, member⟩ := Option.filter_eq_some_iff.mp absorbs
      have zeroFixed := fixed raw (List.contains_iff_mem.mp member)
      rw [Passes] at zeroFixed
      rw [zeroFixed]
      nofun
  | @stored spec unevaluated unabsorbed =>
      refine pass_ne_error_of_fixed fun arg member => ?_
      exact fixed arg ((spec.ordered_perm _ _).mem_iff.mp member)

/--
Applying an operator to simplified arguments is rejected only if the arguments are two literals that its
evaluator rejects, or if two operands in what a later pass starts from become such literals.
-/
theorem operands_or_collapses_of_apply
    {name : String}
    (fixed : ∀ arg ∈ args, Passes workspace.table arg arg)
    (fails : workspace.apply (.symbol name) args = .error rejection.error) :
    name = rejection.op ∧ args = rejection.operands ∨
      ∃ raw reached,
        workspace.table.construct (.symbol name) args = .ok raw ∧
          Relation.TransGen (Passes workspace.table) raw reached ∧
            Collapses workspace.table rejection reached := by
  rcases of_apply_eq_error fails with
    constructFails | ⟨raw, reached, constructed, steps, passFails⟩
  · obtain ⟨sameHead, sameArgs⟩ := of_construct_eq_error constructFails
    exact .inl ⟨Expr.symbol.inj sameHead, sameArgs⟩
  · refine .inr ⟨raw, reached, constructed, ?_, ?_⟩
    · rcases Relation.reflTransGen_iff_eq_or_transGen.mp steps with
        rfl | later
      · exact (pass_ne_error_of_construct fixed constructed passFails).elim
      · exact later
    · exact collapses_of_walk_eq_error (walk_eq_error_of_pass passFails)

end Rejecting

/-- The exponents of two powers add up to a literal that is rejected only after the powers were joined. -/
theorem operands_or_collapses_of_apply_powers :
    let x := Expr.symbol "x"
    let lhs := Expr.apply Operator.pow [.number 0, x]
    let rhs :=
      Expr.apply Operator.pow
        [.number 0,
          .apply Operator.add
            [.number (-1), .apply Operator.mul [.number (-1), x]]]
    let rejection : Rejection := ⟨"**", 0, -1, .divisionByZero⟩
    ∃ raw reached,
      ({} : Workspace).table.construct Operator.mul [lhs, rhs] = .ok raw ∧
        Relation.TransGen (Passes ({} : Workspace).table) raw reached ∧
          Collapses ({} : Workspace).table rejection reached := by
  intro x lhs rhs rejection
  have lhsFixed : pass ({} : Workspace).table catalogue lhs = .ok lhs := by
    decide +kernel
  have rhsFixed : pass ({} : Workspace).table catalogue rhs = .ok rhs := by
    decide +kernel
  have fixed : ∀ arg ∈ [lhs, rhs], Passes ({} : Workspace).table arg arg := by
    intro arg member
    rcases List.mem_pair.mp member with rfl | rfl
    · exact lhsFixed
    · exact rhsFixed
  have fails :
      ({} : Workspace).apply Operator.mul [lhs, rhs] =
        .error rejection.error := by
    decide +kernel
  rcases operands_or_collapses_of_apply fixed fails with
    ⟨sameName, -⟩ | collapses
  · exact absurd sameName (by decide)
  · exact collapses

/-- Neither of two factors is a literal, and still multiplying them fails to evaluate a power. -/
theorem apply_powers_eq_error :
    let x := Expr.symbol "x"
    let lhs := Expr.apply Operator.pow [.number 0, x]
    let rhs :=
      Expr.apply Operator.pow
        [.number 0,
          .apply Operator.add
            [.number (-1), .apply Operator.mul [.number (-1), x]]]
    pass ({} : Workspace).table catalogue lhs = .ok lhs ∧
      pass ({} : Workspace).table catalogue rhs = .ok rhs ∧
        lhs.isNumber = false ∧
          rhs.isNumber = false ∧
            ({} : Workspace).apply Operator.mul [lhs, rhs] =
              .error (.evaluation "**" 0 (-1) .divisionByZero) := by
  decide +kernel

/-! ## Bitwise terms -/

section Bitwise

variable {names : List String} {table : SymbolTable} {rejection : Rejection}

/-- A pass over a bitwise term makes a bitwise term. -/
theorem Passes.isBitwise
    {expr next : Expr}
    (passes : Passes table expr next)
    (bitwise : expr.IsBitwise names) :
    next.IsBitwise names := by
  have keeps : Expr.KeepsWord names (fun _ => default) expr next :=
    related_pass (keepsWord_respected table)
      (fun _ => catalogue_keepsWord table) passes
  exact (keeps.denotes bitwise).bitwise

/-- Passes over a bitwise term make bitwise terms. -/
theorem isBitwise_of_passes
    {expr reached : Expr}
    (steps : Relation.ReflTransGen (Passes table) expr reached)
    (bitwise : expr.IsBitwise names) :
    reached.IsBitwise names := by
  induction steps with
  | refl =>
      exact bitwise
  | tail _ passes inductionHypothesis =>
      exact passes.isBitwise inductionHypothesis

/-- Whatever the operands of a bitwise operator become, they are not rejected. -/
theorem Expr.IsBitwise.not_collapses
    {expr : Expr}
    (bitwise : expr.IsBitwise names) :
    ¬Collapses table rejection expr := by
  intro collapses
  induction bitwise with
  | input member =>
      cases collapses
  | literal exact represented =>
      cases collapses
  | @node head lhs rhs op isOperator lhsBitwise rhsBitwise unevaluated
      lhsHypothesis rhsHypothesis =>
      subst isOperator
      cases collapses with
      | here collapse =>
          have sameHead :=
            Except.ok.inj ((pass_leaf rfl).symm.trans collapse.head_passes)
          obtain ⟨lhsPasses, rhsPass⟩ :=
            List.forall₂_cons.mp collapse.args_pass
          obtain ⟨rhsPasses, -⟩ := List.forall₂_cons.mp rhsPass
          obtain ⟨first, sameFirst⟩ :=
            (lhsPasses.isBitwise lhsBitwise).exists_literal rfl
          obtain ⟨second, sameSecond⟩ :=
            (rhsPasses.isBitwise rhsBitwise).exists_literal rfl
          have rejects := collapse.rejects
          rw [← sameHead, Rejection.operands, sameFirst, sameSecond,
            op.construct_literals] at rejects
          cases rejects
      | head collapses =>
          cases collapses
      | arg member collapses =>
          rcases List.mem_pair.mp member with rfl | rfl
          · exact lhsHypothesis collapses
          · exact rhsHypothesis collapses

/-- Applying a bitwise operator to bitwise terms is never rejected. -/
theorem BitOperator.apply_ne_error
    {workspace : Workspace}
    (op : BitOperator)
    {lhs rhs : Expr}
    (lhsBitwise : lhs.IsBitwise names)
    (rhsBitwise : rhs.IsBitwise names) :
    workspace.apply op.symbol [lhs, rhs] ≠ .error rejection.error := by
  intro fails
  rcases of_apply_eq_error fails with
    constructFails | ⟨raw, reached, constructed, steps, passFails⟩
  · obtain ⟨-, sameArgs⟩ := of_construct_eq_error constructFails
    cases sameArgs
    obtain ⟨first, sameFirst⟩ := lhsBitwise.exists_literal rfl
    obtain ⟨second, sameSecond⟩ := rhsBitwise.exists_literal rfl
    rw [sameFirst, sameSecond, op.construct_literals] at constructFails
    cases constructFails
  · have lhsDenotes : lhs.Denotes names (fun _ => default) _ :=
      lhsBitwise.denotes
    have rawDenotes := lhsDenotes.construct rhsBitwise.denotes constructed
    have reachedBitwise := isBitwise_of_passes steps rawDenotes.bitwise
    exact reachedBitwise.not_collapses
      (collapses_of_walk_eq_error (walk_eq_error_of_pass passFails))

/-- Building a tree of bitwise operators is never rejected. -/
theorem BitTree.build_ne_error
    {workspace : Workspace}
    (tree : BitTree) :
    tree.build workspace.apply ≠ .error rejection.error := by
  induction tree with
  | node op lhs rhs lhsHypothesis rhsHypothesis =>
      intro fails
      rcases of_bind_eq_error fails with lhsFails | ⟨lhs', lhsBuilt, fails⟩
      · exact lhsHypothesis lhsFails
      rcases of_bind_eq_error fails with rhsFails | ⟨rhs', rhsBuilt, fails⟩
      · exact rhsHypothesis rhsFails
      have lhsDenotes :
          lhs'.Denotes (lhs.inputs ++ rhs.inputs) (fun _ => default) _ :=
        lhs.build_denotes (fun _ => List.mem_append_left _) lhsBuilt
      have rhsDenotes :
          rhs'.Denotes (lhs.inputs ++ rhs.inputs) (fun _ => default) _ :=
        rhs.build_denotes (fun _ => List.mem_append_right _) rhsBuilt
      exact op.apply_ne_error lhsDenotes.bitwise rhsDenotes.bitwise fails
  | _ =>
      nofun

end Bitwise

end SymbolicAlgebra
