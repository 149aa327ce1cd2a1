import SymbolicAlgebra.Proofs.Stability.Rebuilding
import SymbolicAlgebra.Proofs.Visit

/-!
# Obtained terms reproduce themselves

Every application that a client can get hold of, wherever it occurs, is what raw construction makes of its own head
and arguments.
-/

namespace SymbolicAlgebra

open SymbolicAlgebra.Expr Effect

/-- Building an application again reproduces it, and so do the rules that repeat what construction does. -/
structure SymbolTable.Reproduces
    (table : SymbolTable)
    (head : Expr)
    (args : List Expr) : Prop where
  nonempty :
    args ≠ []
  constructed :
    table.construct head args = .ok (.apply head args)
  sorted :
    ∀ {spec},
      table.specOf? head = some spec → spec.commutative = true →
        args.Pairwise (NotAfter (operandCompare head))
  zero_notMem :
    ∀ {spec zero},
      table.specOf? head = some spec → spec.zero = some zero → zero ∉ args
  not_literals :
    ∀ {spec},
      table.specOf? head = some spec → spec.evaluator.isSome = true →
        ¬∃ lhs rhs, args = [.number lhs, .number rhs]
  commutativeOrder :
    Transform.commutativeOrder?.result table (.apply head args) =
      .apply head args
  evaluateNumeric :
    Transform.evaluateNumeric?.result table (.apply head args) =
      .apply head args
  absorbZero :
    Transform.absorbZero?.result table (.apply head args) = .apply head args

section Obtained

variable {table : SymbolTable} {head : Expr} {args : List Expr}

/-- Arguments as a head stores them reproduce the application, if their wildcards are plainly named. -/
theorem SymbolTable.Stores.reproduces
    (stores : table.Stores head args)
    (plain : ∀ arg ∈ args, arg.PlainlyNamed) :
    table.Reproduces head args where
  nonempty :=
    stores.nonempty
  constructed :=
    stores.construct_eq plain
  sorted :=
    stores.pairwise plain
  zero_notMem := by
    intro spec zero found declared isArg
    have unabsorbed := stores.unabsorbed found
    rw [OperatorSpec.absorbed?, declared, Option.filter_eq_none_iff] at unabsorbed
    exact unabsorbed zero rfl (List.contains_iff_mem.mpr isArg)
  not_literals := by
    intro spec found evaluates
    rcases OperatorSpec.evaluateLiterals?_eq_none_iff.mp
      (stores.unevaluated found) with noEvaluator | notLiterals
    · rw [noEvaluator] at evaluates
      cases evaluates
    · exact notLiterals
  commutativeOrder :=
    result_commutativeOrder_of_stored (stores.construct_eq plain)
  evaluateNumeric := by
    unfold Transform.result Transform.evaluateNumeric?
    dsimp only
    cases found : table.specOf? head with
    | none =>
        rfl
    | some spec =>
        simp [stores.unevaluated found]
  absorbZero := by
    unfold Transform.result Transform.absorbZero?
    dsimp only
    cases found : table.specOf? head with
    | none =>
        rfl
    | some spec =>
        simp [stores.unabsorbed found]

theorem Session.buildsRaw_constructRaw :
    BuildsRaw Session.constructRaw := by
  intro session head args _
  change (Action.ofExcept (session.workspace.table.construct head args)).run session =
    (session.workspace.table.construct head args, session)
  cases session.workspace.table.construct head args <;> rfl

/-- A session that is busy builds terms raw. -/
theorem Session.buildsRaw_apply :
    BuildsRaw Session.apply := by
  intro session head args busy
  unfold Session.apply
  rw [run_bind, Session.buildsRaw_constructRaw busy]
  cases (Host.table session).construct head args with
  | error error =>
      rfl
  | ok raw =>
      have finished : (raw.isLeaf || session.busy) = true := by
        rw [show session.busy = true from busy, Bool.or_true]
      change (ite ((raw.isLeaf || session.busy) = true) _ _ : Action Expr).run session = _
      rw [if_pos finished]
      rfl

theorem Client.buildsRaw_build :
    BuildsRaw Client.build := by
  intro client head args busy
  have raw :
      (Session.apply head args).run client.session =
        (client.session.workspace.table.construct head args, client.session) :=
    Session.buildsRaw_apply busy
  change (((Session.apply head args).run client.session).1,
    { client with session := ((Session.apply head args).run client.session).2 }) = _
  rw [raw]
  rfl

end Obtained

/--
Whatever a client does, every application in an expression that it has obtained has arguments, is what raw
construction makes of its head and its arguments, and is left alone by the rules that sort, evaluate and absorb,
provided that its wildcards are plainly named.  Inside a simplification walks over such an expression may keep what
did not change: building everything again does and gives the same, for the rules of clients and for default ones.
-/
theorem Program.reproduces_of_held
    (program : Program)
    {client : Client}
    (empty : client.held = [])
    {expr : Expr}
    (obtained : expr ∈ (program.run.run client).2.held) :
    let table := (program.run.run client).2.session.workspace.table
    (∀ {head args},
      expr.contains (.apply head args) = true →
        (Expr.apply head args).PlainlyNamed → table.Reproduces head args) ∧
    (expr.PlainlyNamed →
      (∀ (rules : List (String × (Client → Program))) {inside : Client},
        table.ExtendedBy inside.session.workspace.table → Host.Valid inside →
          inside.session.busy = true →
            Agrees inside (expr.walk Client.build (Program.visit rules))
              (expr.walkAnew Client.build (Program.visit rules)) (·.getD expr)) ∧
      ∀ {rules : List Rule} {inside : Session},
        rules ⊆ catalogue → table.ExtendedBy inside.workspace.table →
          inside.busy = true →
            Agrees inside (expr.walk Session.constructRaw (Session.visitRules rules))
              (expr.walkAnew Session.constructRaw (Session.visitRules rules))
              (·.getD expr)) := by
  have valid : Host.Valid client := by
    unfold Host.Valid
    rw [show Host.held client = [] from empty]
    exact List.forall_mem_nil _
  have stable := (yieldsAt_run program valid).valid expr obtained
  refine ⟨?_, fun plain => ⟨?_, ?_⟩⟩
  · intro head args contained plain
    have stores : SymbolTable.Stores _ head args := stable _ contained
    exact stores.reproduces fun arg isArg => plain.arg isArg
  · intro rules inside extended valid busy
    exact agrees_walk Client.buildsRaw_build Client.builds_build
      (visitsStably_visit rules) (stable.mono extended) plain valid busy
  · intro rules inside fromCatalogue extended busy
    exact agrees_walk Session.buildsRaw_constructRaw Session.yields_constructRaw
      (Session.yields_visitRules fromCatalogue) (stable.mono extended) plain
      (valid_session inside) busy

/--
A client simplifies `f(x)` with a rule that changes nothing, but builds a sum of the node, which is not simplified
since a simplification is under way.  The client has obtained the sum when it ends.
-/
def Program.leak : Program :=
  .ask (.symbol "x") fun _ _ =>
    .ask (.symbol "+") fun _ _ =>
      .ask (.symbol "f") fun _ _ =>
        .ask (.apply 2 [0]) fun _ _ =>
          .simplify [("sum", fun client =>
            .ask (.apply 1 [client.held.length - 1, 0]) fun _ client =>
              .ask (.apply 1 [client.held.length - 1, 0]) fun _ _ =>
                .stop none)] 8 3 fun _ _ =>
            .stop none

/-- The sum `f(x) + x + x`, which is stored with `x` in front, reproduces itself although it is not simplified. -/
theorem Program.reproduces_of_held_leak :
    let later := (Program.leak.run.run {}).2
    let x := Expr.symbol "x"
    let sum := Expr.apply Operator.add [x, .apply (.symbol "f") [x]]
    Expr.apply Operator.add [x, sum] ∈ later.held ∧
      later.session.workspace.table.Reproduces Operator.add [x, sum] := by
  have obtained :
      Expr.apply Operator.add
          [.symbol "x",
            .apply Operator.add
              [.symbol "x", .apply (.symbol "f") [.symbol "x"]]] ∈
        (Program.leak.run.run {}).2.held := by
    decide +kernel
  exact ⟨obtained,
    (Program.reproduces_of_held Program.leak rfl obtained).1 (by decide) (by decide)⟩

end SymbolicAlgebra
