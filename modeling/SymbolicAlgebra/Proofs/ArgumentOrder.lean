import SymbolicAlgebra.Proofs.Construction
import SymbolicAlgebra.Proofs.Expr.Sorting
import SymbolicAlgebra.Session

/-!
# Commutative operators forget the order of their arguments

Absorption does not depend on the order of the arguments, and sorting removes it.  Only the
evaluation of two literals sees which one comes first.
-/

namespace SymbolicAlgebra

namespace OperatorSpec

/-- Absorption asks only which arguments there are. -/
theorem absorbed?_eq_of_perm
    (spec : OperatorSpec)
    {args args' : List Expr}
    (permuted : args.Perm args') :
    spec.absorbed? args = spec.absorbed? args' := by
  have sameMembers (zero : Expr) : args.contains zero = args'.contains zero := by
    rw [Bool.eq_iff_iff]
    simpa using permuted.mem_iff
  simp only [absorbed?, sameMembers]

end OperatorSpec

namespace SymbolTable

/-- A list that is no pair of literals is none in any other order. -/
theorem not_literals_of_perm
    {args args' : List Expr}
    (notLiterals : ¬∃ lhs rhs, args = [.number lhs, .number rhs])
    (permuted : args.Perm args') :
    ¬∃ lhs rhs, args' = [.number lhs, .number rhs] := by
  rintro ⟨lhs, rhs, rfl⟩
  obtain ⟨first, rest, rfl⟩ :=
    List.exists_cons_of_length_eq_add_one permuted.length_eq
  obtain ⟨second, rfl⟩ :=
    List.length_eq_one_iff.mp (Nat.succ.inj permuted.length_eq)
  have literal (arg : Expr) (member : arg ∈ [first, second]) :
      ∃ value, arg = .number value := by
    have origin := permuted.mem_iff.mp member
    simp only [List.mem_cons, List.not_mem_nil, or_false] at origin
    rcases origin with same | same
    · exact ⟨lhs, same⟩
    · exact ⟨rhs, same⟩
  obtain ⟨firstValue, rfl⟩ := literal first (by simp)
  obtain ⟨secondValue, rfl⟩ := literal second (by simp)
  exact notLiterals ⟨firstValue, secondValue, rfl⟩

/-- The raw term of a commutative head does not depend on the order of its arguments. -/
theorem construct_eq_of_perm
    {table : SymbolTable}
    {head : Expr}
    {spec : OperatorSpec}
    {args args' : List Expr}
    (found : table.specOf? head = some spec)
    (commutative : spec.commutative = true)
    (plain : ∀ arg ∈ args, arg.PlainlyNamed)
    (notLiterals : ¬∃ lhs rhs, args = [.number lhs, .number rhs])
    (permuted : args.Perm args') :
    table.construct head args = table.construct head args' := by
  have sameEmpty : args.isEmpty = args'.isEmpty := by
    rw [Bool.eq_iff_iff, List.isEmpty_iff, List.isEmpty_iff]
    exact ⟨fun none => by simpa [none] using permuted,
      fun none => by simpa [none] using permuted⟩
  have notLiterals' := not_literals_of_perm notLiterals permuted
  have sameOrder :
      Expr.sortBy (Expr.operandCompare head) args =
        Expr.sortBy (Expr.operandCompare head) args' :=
    (Expr.operandCompare_linearOn head).sortBy_eq_of_perm plain permuted
  simp only [construct, found, sameEmpty, commutative, if_true, sameOrder,
    spec.absorbed?_eq_of_perm permuted,
    spec.evaluateLiterals?_eq_none _ notLiterals,
    spec.evaluateLiterals?_eq_none _ notLiterals']

end SymbolTable

namespace Session

/-- A step that builds a term depends on the arguments only through the raw term. -/
theorem apply_run_congr
    {session : Session}
    {head : Expr}
    {args args' : List Expr}
    (sameRaw :
      session.workspace.table.construct head args =
        session.workspace.table.construct head args') :
    (apply head args).run session = (apply head args').run session := by
  have raw : constructRaw head args session = constructRaw head args' session := by
    change Action.ofExcept _ session = Action.ofExcept _ session
    rw [sameRaw]
  simp only [apply, ExceptT.run, bind, ExceptT.bind, ExceptT.mk, StateT.bind, raw]

end Session

/--
Applying a commutative head gives one answer for all orders of its arguments, be it an expression or
an error, whether a simplification is under way or not.
-/
theorem apply_eq_of_perm
    {workspace : Workspace}
    {head : Expr}
    {spec : OperatorSpec}
    {args args' : List Expr}
    (found : workspace.table.specOf? head = some spec)
    (commutative : spec.commutative = true)
    (plain : ∀ arg ∈ args, arg.PlainlyNamed)
    (notLiterals : ¬∃ lhs rhs, args = [.number lhs, .number rhs])
    (permuted : args.Perm args') :
    workspace.apply head args = workspace.apply head args' ∧
      ∀ session : Session,
        session.workspace = workspace →
          (Session.apply head args).run session =
            (Session.apply head args').run session := by
  have sameRaw :=
    SymbolTable.construct_eq_of_perm found commutative plain notLiterals
      permuted
  refine ⟨?_, ?_⟩
  · simp only [Workspace.apply, sameRaw]
  · rintro session rfl
    exact Session.apply_run_congr sameRaw

/-- A sum of two sums, a wildcard and a literal is one and the same in two orders. -/
theorem apply_sum_reversed :
    let x := Expr.symbol "x"
    let w := Expr.wildcard ⟨0, "w"⟩
    let sum := Expr.apply Operator.add [x, w]
    ({} : Workspace).apply Operator.add [sum, w, .number 1, x] =
        ({} : Workspace).apply Operator.add [x, .number 1, w, sum] ∧
      ∀ session : Session,
        session.workspace = {} →
          (Session.apply Operator.add [sum, w, .number 1, x]).run session =
            (Session.apply Operator.add [x, .number 1, w, sum]).run session :=
  apply_eq_of_perm rfl rfl (by decide) (by simp) (by decide)

end SymbolicAlgebra
