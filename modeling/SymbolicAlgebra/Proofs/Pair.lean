import SymbolicAlgebra.Proofs.Construction
import SymbolicAlgebra.Proofs.Expr.Sorting
import SymbolicAlgebra.Proofs.Visit

/-!
# Two operands in order

An operator that sorts its operands stores two of them in one order, however they are given.  If the operands
are fixed points, then a pass over the stored application visits this application and nothing else.
-/

namespace SymbolicAlgebra

open SymbolicAlgebra.Expr

/-! ## Operands in order -/

section Order

variable {table : SymbolTable} {op first second : Expr}

/-- Two operands are stored in this order. -/
def InOrder
    (op first second : Expr) : Prop :=
  operandCompare op second first ≠ .lt

/-- The operands are the two given ones, in one order or the other. -/
def IsPair
    (lhs rhs first second : Expr) : Prop :=
  lhs = first ∧ rhs = second ∨ lhs = second ∧ rhs = first

theorem IsPair.swap
    {lhs rhs : Expr}
    (isPair : IsPair lhs rhs first second) :
    IsPair lhs rhs second first :=
  isPair.symm

theorem IsPair.symm
    {lhs rhs : Expr}
    (isPair : IsPair lhs rhs first second) :
    IsPair first second lhs rhs := by
  rcases isPair with ⟨rfl, rfl⟩ | ⟨rfl, rfl⟩
  · exact .inl ⟨rfl, rfl⟩
  · exact .inr ⟨rfl, rfl⟩

/-- What holds of both given operands holds of the operands. -/
theorem IsPair.forall
    {lhs rhs : Expr}
    (isPair : IsPair lhs rhs first second)
    (kind : Expr → Prop)
    (firstKind : kind first)
    (secondKind : kind second) :
    kind lhs ∧ kind rhs := by
  rcases isPair with ⟨rfl, rfl⟩ | ⟨rfl, rfl⟩
  · exact ⟨firstKind, secondKind⟩
  · exact ⟨secondKind, firstKind⟩

/-- Measured together, the operands are what the given ones are. -/
theorem IsPair.add_eq
    {lhs rhs : Expr}
    (isPair : IsPair lhs rhs first second)
    (measure : Expr → Nat) :
    measure lhs + measure rhs = measure first + measure second := by
  rcases isPair with ⟨rfl, rfl⟩ | ⟨rfl, rfl⟩
  · rfl
  · exact Nat.add_comm _ _

/-- Sorting two operands puts them in order. -/
theorem exists_inOrder
    (op first second : Expr) :
    ∃ lhs rhs,
      sortBy (operandCompare op) [first, second] = [lhs, rhs] ∧
        InOrder op lhs rhs ∧ IsPair lhs rhs first second := by
  by_cases outOfOrder : operandCompare op second first = .lt
  · refine ⟨second, first, sortBy_pair_swap outOfOrder, ?_, .inr ⟨rfl, rfl⟩⟩
    rw [InOrder, (operandCompare_linearOn op).swap second first, outOfOrder]
    decide
  · exact ⟨first, second, sortBy_pair outOfOrder, outOfOrder, .inl ⟨rfl, rfl⟩⟩

/-- The application to two operands, stored in order. -/
def stored
    (op first second : Expr) : Expr :=
  .apply op (sortBy (operandCompare op) [first, second])

theorem exists_stored
    (op first second : Expr) :
    ∃ lhs rhs,
      stored op first second = .apply op [lhs, rhs] ∧
        InOrder op lhs rhs ∧ IsPair lhs rhs first second := by
  obtain ⟨lhs, rhs, sorted, inOrder, isPair⟩ := exists_inOrder op first second
  exact ⟨lhs, rhs, by rw [stored, sorted], inOrder, isPair⟩

theorem InOrder.stored_eq
    (inOrder : InOrder op first second) :
    stored op first second = .apply op [first, second] := by
  rw [stored, sortBy_pair inOrder]

theorem InOrder.commutativeOrder?_eq_none
    (inOrder : InOrder op first second)
    (builder : Builder) :
    Transform.commutativeOrder? table builder (.apply op [first, second]) =
      none := by
  have sorted : isSortedBy (operandCompare op) [first, second] = true := by
    have notAfter : operandCompare op first second ≠ .gt := by
      rw [(operandCompare_linearOn op).swap second first]
      unfold InOrder at inOrder
      cases outcome : operandCompare op second first with
      | lt =>
          exact (inOrder outcome).elim
      | _ =>
          decide
    simp [isSortedBy, notAfter]
  simp [Transform.commutativeOrder?, sorted]

/-- The canonical order of operands that are no chains is the order in which they are stored. -/
theorem InOrder.sortCanonically_eq
    (inOrder : InOrder op first second)
    (firstSingle : first.isApplyOf op = false)
    (secondSingle : second.isApplyOf op = false) :
    sortCanonically [first, second] = [first, second] := by
  apply sortBy_pair
  rw [InOrder, operandCompare, firstSingle, secondSingle] at inOrder
  exact inOrder

end Order

/-! ## Rules on applications to two -/

namespace Transform

variable {table : SymbolTable} {builder : Builder} {head lhs rhs : Expr}

/-- Operands that are not neutral are not dropped. -/
theorem stripIdentities?_pair
    {spec : OperatorSpec}
    (found : table.specOf? head = some spec)
    (notLeft : spec.effectiveLeftIdentity ≠ some lhs)
    (notRight : spec.effectiveRightIdentity ≠ some rhs) :
    stripIdentities? table builder (.apply head [lhs, rhs]) = none := by
  rw [stripIdentities?, found]
  exact (if_neg notLeft).trans (if_neg notRight)

/-- Nothing is evaluated unless both operands are literals. -/
theorem evaluateNumeric?_pair
    (builder : Builder)
    (notLiterals : (lhs.isNumber && rhs.isNumber) = false) :
    evaluateNumeric? table builder (.apply head [lhs, rhs]) = none := by
  cases found : table.specOf? head with
  | none =>
      simp [evaluateNumeric?, found]
  | some spec =>
      simp [evaluateNumeric?, found, spec.evaluateLiterals?_pair _ notLiterals]

end Transform

/-! ## Passes over two fixed points -/

section Pass

variable {table : SymbolTable} {workspace : Workspace}
  {op first second result : Expr}

/-- The operator stores the two operands, however they are given. -/
def StoresPair
    (table : SymbolTable)
    (op first second : Expr) : Prop :=
  ∀ {lhs rhs},
    IsPair lhs rhs first second →
      table.construct op [lhs, rhs] = .ok (stored op lhs rhs)

/-- A pass over a stored application to fixed points visits the application. -/
theorem pass_stored
    (isLeaf : op.isLeaf = true)
    (firstFixed : pass table catalogue first = .ok first)
    (secondFixed : pass table catalogue second = .ok second)
    (stores : StoresPair table op first second) :
    pass table catalogue (stored op first second) =
      .ok (visited table catalogue (stored op first second)) := by
  obtain ⟨lhs, rhs, shape, inOrder, isPair⟩ := exists_stored op first second
  obtain ⟨lhsFixed, rhsFixed⟩ :=
    isPair.forall (fun expr => pass table catalogue expr = .ok expr) firstFixed
      secondFixed
  have construction : table.construct op [lhs, rhs] = .ok (.apply op [lhs, rhs]) := by
    rw [stores isPair, inOrder.stored_eq]
  rw [shape]
  obtain ⟨node, rfl | rfl, passes⟩ :=
    exists_pass_pair isLeaf lhsFixed rhsFixed construction
  · exact passes
  · exact passes

/-- Applying an operator to fixed points visits the stored application, if that gives a fixed point. -/
theorem apply_of_visited
    (enough : 2 ≤ workspace.ceiling)
    (isLeaf : op.isLeaf = true)
    (firstFixed : pass workspace.table catalogue first = .ok first)
    (secondFixed : pass workspace.table catalogue second = .ok second)
    (stores : StoresPair workspace.table op first second)
    (visits : visited workspace.table catalogue (stored op first second) = result)
    (fixed : pass workspace.table catalogue result = .ok result) :
    workspace.apply op [first, second] = .ok result := by
  have passes :
      pass workspace.table catalogue (stored op first second) = .ok result := by
    rw [pass_stored isLeaf firstFixed secondFixed stores, visits]
  rw [apply_eq_simplify (stores (.inl ⟨rfl, rfl⟩)) rfl]
  exact simplify_of_pass enough passes fixed

end Pass

end SymbolicAlgebra
