import Mathlib.Control.Monad.Basic
import SymbolicAlgebra.Proofs.Bitwise.Rules
import SymbolicAlgebra.Substitution

/-!
# The value of bitwise trees

Building a tree of bitwise operators rewrites it in many ways, and putting integers for its variables
evaluates what is left.  The outcome is the value of the tree in two's complement.
-/

namespace SymbolicAlgebra

/-- A tree of bitwise operators over variables and integers. -/
inductive BitTree where
  | input (name : String)
  | literal (exact : ExactInt)
  | node (op : BitOperator) (lhs rhs : BitTree)

namespace BitTree

/-- The names of the variables, with repetition. -/
def inputs : BitTree → List String
  | input name => [name]
  | literal _ => []
  | node _ lhs rhs => lhs.inputs ++ rhs.inputs

/-- Builds the tree bottom-up. -/
def build
    (builder : Builder) : BitTree → Except ExprError Expr
  | input name => .ok (.symbol name)
  | literal exact => .ok exact.literal
  | node op lhs rhs => do
    let lhs' ← lhs.build builder
    let rhs' ← rhs.build builder
    builder op.symbol [lhs', rhs']

/-- The value of the tree in two's complement, under values of its variables. -/
def value
    (values : String → ExactInt) : BitTree → Int
  | input name => (values name).whole
  | literal exact => exact.whole
  | node op lhs rhs => op.onInts (lhs.value values) (rhs.value values)

end BitTree

/-- The substitution that puts the literals of their values for variables. -/
def assignment
    (names : List String)
    (values : String → ExactInt) : Substitution :=
  .ofList (names.map fun name => (.symbol name, (values name).literal))

variable {names : List String} {values : String → ExactInt}

theorem find?_assignment
    {name : String}
    (member : name ∈ names) :
    (assignment names values).find? (.symbol name) =
      some (values name).literal := by
  rw [assignment, Substitution.find?_ofList, ← List.map_reverse]
  have found : name ∈ names.reverse :=
    List.mem_reverse.mpr member
  generalize names.reverse = reversed at found ⊢
  induction reversed with
  | nil =>
      cases found
  | cons first rest inductionHypothesis =>
      by_cases same : name = first
      · subst same
        simp
      · have different : (Expr.symbol name == Expr.symbol first) = false := by
          simpa using same
        have inRest : name ∈ rest := by
          simpa [same] using found
        rw [List.map_cons, List.lookup_cons, different]
        exact inductionHypothesis inRest

theorem find?_assignment_eq_none
    {key : Expr}
    (other : ∀ name ∈ names, key ≠ .symbol name) :
    (assignment names values).find? key = none := by
  rw [assignment, Substitution.find?_ofList, List.lookup_eq_none_iff]
  intro entry member
  obtain ⟨name, nameMember, rfl⟩ :=
    List.mem_map.mp (List.mem_reverse.mp member)
  simpa using other name nameMember

theorem replacement?_assignment_eq_none
    {node : Expr}
    (other : ∀ name ∈ names, node ≠ .symbol name) :
    (assignment names values).replacement? node = none := by
  rw [Substitution.replacement?, find?_assignment_eq_none other]

/-- A built tree denotes the word of its value. -/
theorem BitTree.build_denotes
    {workspace : Workspace}
    {tree : BitTree}
    {expr : Expr}
    (covered : ∀ name ∈ tree.inputs, name ∈ names)
    (built : tree.build workspace.apply = .ok expr) :
    expr.Denotes names values (BitVec.ofInt 64 (tree.value values)) := by
  induction tree generalizing expr with
  | input name =>
      cases built
      exact ⟨.input (covered name (by simp [inputs])), rfl⟩
  | literal exact =>
      cases built
      exact exact.denotes_literal
  | node op lhs rhs lhsHypothesis rhsHypothesis =>
      obtain ⟨lhsCovered, rhsCovered⟩ := List.forall_mem_append.mp covered
      obtain ⟨lhs', lhsBuilt, built⟩ := exists_of_bind_eq_ok built
      obtain ⟨rhs', rhsBuilt, built⟩ := exists_of_bind_eq_ok built
      have respects :
          Builder.Respects workspace.table.construct
            (Expr.KeepsWord names values) :=
        keepsWord_respected workspace.table
      obtain ⟨raw, constructed, keeps⟩ :=
        exists_construct_of_apply respects
          (fun _ => catalogue_keepsWord workspace.table) built
      have rawDenotes :=
        (lhsHypothesis lhsCovered lhsBuilt).construct
          (rhsHypothesis rhsCovered rhsBuilt) constructed
      have exprDenotes := keeps.denotes rawDenotes.bitwise
      rw [rawDenotes.word_eq] at exprDenotes
      rw [value, op.ofInt_onInts]
      exact exprDenotes

/-- The value of a tree is an exact integer. -/
theorem BitTree.exists_exact_value
    (tree : BitTree)
    (values : String → ExactInt) :
    ∃ exact : ExactInt, exact.whole = tree.value values := by
  induction tree with
  | input name =>
      exact ⟨values name, rfl⟩
  | literal exact =>
      exact ⟨exact, rfl⟩
  | node op lhs rhs lhsHypothesis rhsHypothesis =>
      obtain ⟨first, sameFirst⟩ := lhsHypothesis
      obtain ⟨second, sameSecond⟩ := rhsHypothesis
      refine ⟨op.combine first second, ?_⟩
      rw [value, ← sameFirst, ← sameSecond]
      rfl

/-- The raw term of an operator and literals is a literal. -/
theorem BitOperator.construct_literals
    (op : BitOperator)
    (table : SymbolTable)
    (lhs rhs : ExactInt) :
    table.construct op.symbol [lhs.literal, rhs.literal] =
      .ok (op.combine lhs rhs).literal :=
  construct_evaluated (op.specOf?_symbol table) (List.cons_ne_nil _ _)
    (op.evaluateLiterals?_literals _ lhs rhs)

/-- Applying an operator to literals gives a literal at once. -/
theorem apply_literals
    (workspace : Workspace)
    (op : BitOperator)
    (lhs rhs : ExactInt) :
    workspace.apply op.symbol [lhs.literal, rhs.literal] =
      .ok (op.combine lhs rhs).literal := by
  have isLeaf : (op.combine lhs rhs).literal.isLeaf = true := by
    rw [ExactInt.literal_eq_number]
    rfl
  rw [Workspace.apply, op.construct_literals, ok_bind, if_pos isLeaf]
  rfl

theorem ExactInt.literal_ne_symbol
    (exact : ExactInt)
    (name : String) :
    exact.literal ≠ .symbol name := by
  rw [exact.literal_eq_number]
  nofun

/-- No operator is a variable. -/
theorem BitOperator.symbol_ne
    {table : SymbolTable}
    (operatorFree : ∀ name ∈ names, table.spec? name = none)
    (op : BitOperator) :
    ∀ name ∈ names, op.symbol ≠ .symbol name := by
  intro name member same
  have found := op.specOf?_symbol table
  rw [same] at found
  cases (operatorFree name member).symm.trans found

/--
Putting literals for variables makes a literal of the word of every bitwise term.  Terms other than
literals are replaced by it, so that the applications around them are built anew.
-/
theorem Expr.IsBitwise.walk_assignment
    {workspace : Workspace}
    {expr : Expr}
    (bitwise : expr.IsBitwise names)
    (operatorFree : ∀ name ∈ names, workspace.table.spec? name = none)
    (values : String → ExactInt) :
    ∃ (exact : ExactInt) (replaced : Option Expr),
      exact.word = expr.word values ∧
        expr.walk workspace.apply
            (fun node =>
              pure ((assignment names values).replacement? node)) =
          .ok replaced ∧
        replaced.getD expr = exact.literal ∧
          replaced.isNone = expr.isNumber := by
  have untouched
      {node : Expr}
      (other : ∀ name ∈ names, node ≠ .symbol name) :
      (pure ((assignment names values).replacement? node) :
          Except ExprError (Option Expr)) =
        .ok none := by
    rw [replacement?_assignment_eq_none other]
    rfl
  induction bitwise with
  | @input name member =>
      refine ⟨values name, some (values name).literal, rfl, ?_, rfl, rfl⟩
      simp only [walk, Substitution.replacement?, find?_assignment member]
      rfl
  | @literal value exact represented =>
      have same : Expr.number value = exact.literal := by
        rw [exact.literal_eq_number, represented]
      have denotes : exact.literal.Denotes names values exact.word :=
        exact.denotes_literal
      refine ⟨exact, none, ?_, ?_, same, rfl⟩
      · rw [same, denotes.word_eq]
      · refine untouched fun name _ => ?_
        rw [same]
        exact exact.literal_ne_symbol name
  | @node head lhs rhs op isOperator lhsBitwise rhsBitwise unevaluated
      lhsHypothesis rhsHypothesis =>
      subst isOperator
      obtain ⟨first, lhs', firstWord, lhsWalked, lhsLiteral, lhsNone⟩ :=
        lhsHypothesis
      obtain ⟨second, rhs', secondWord, rhsWalked, rhsLiteral, rhsNone⟩ :=
        rhsHypothesis
      refine ⟨op.combine first second, some (op.combine first second).literal,
        ?_, ?_, rfl, rfl⟩
      · rw [op.word_combine, firstWord, secondWord, word_node]
      · refine walk_pair (untouched (op.symbol_ne operatorFree)) lhsWalked
          rhsWalked ?_ ?_ (untouched fun name _ => ExactInt.literal_ne_symbol _ name)
        · rw [lhsNone, rhsNone, unevaluated]
        · rw [lhsLiteral, rhsLiteral, apply_literals]

/--
If a tree of bitwise operators can be built, putting integers for its variables gives the literal of
the tree's value in two's complement, which a float holds exactly.
-/
theorem substitute_bitTree
    {workspace : Workspace}
    {tree : BitTree}
    {names : List String}
    {expr : Expr}
    (operatorFree : ∀ name ∈ names, workspace.table.spec? name = none)
    (covered : ∀ name ∈ tree.inputs, name ∈ names)
    (built : tree.build workspace.apply = .ok expr)
    (values : String → ExactInt) :
    workspace.substitute (assignment names values) expr =
        .ok (.ofInt (tree.value values)) ∧
      integer? (floatOfInt (tree.value values)) =
        some (tree.value values) := by
  have denotes :
      expr.Denotes names values (BitVec.ofInt 64 (tree.value values)) :=
    tree.build_denotes covered built
  obtain ⟨result, replaced, resultWord, walked, literal, -⟩ :=
    denotes.bitwise.walk_assignment operatorFree values
  obtain ⟨exact, sameValue⟩ := tree.exists_exact_value values
  have sameWhole : result.whole = exact.whole := by
    apply ExactInt.eq_of_word
    rw [resultWord, denotes.word_eq, ExactInt.word, sameValue]
  rw [← sameValue]
  refine ⟨?_, exact.isExactly.integer?_eq⟩
  rw [Workspace.substitute, walked, ok_bind, literal, ← sameWhole]
  rfl

/-- A tree that is distributed, sorted and regrouped when it is built still has its value. -/
theorem substitute_bitTree_distributed :
    let x := Expr.symbol "x"
    let y := Expr.symbol "y"
    let tree : BitTree :=
      .node .exclusion
        (.node .conjunction (.input "x")
          (.node .disjunction (.input "y") (.literal ⟨6, by decide, by decide⟩)))
        (.node .exclusion (.input "y") (.input "x"))
    let expr :=
      Expr.apply Operator.bitXor
        [x, .apply Operator.bitXor
          [y, .apply Operator.bitOr
            [.apply Operator.bitAnd [.number 6, x], .apply Operator.bitAnd [x, y]]]]
    let values (name : String) : ExactInt :=
      if name = "x" then ⟨-3, by decide, by decide⟩ else ⟨5, by decide, by decide⟩
    tree.build ({} : Workspace).apply = .ok expr ∧
      ({} : Workspace).substitute (assignment ["x", "y"] values) expr =
        .ok (.ofInt (-3)) := by
  intro x y tree expr values
  have operatorFree :
      ∀ name ∈ ["x", "y"], ({} : Workspace).table.spec? name = none := by
    decide
  have covered : ∀ name ∈ tree.inputs, name ∈ ["x", "y"] := by
    decide
  have built : tree.build ({} : Workspace).apply = .ok expr := by
    decide +kernel
  have value : tree.value values = -3 := by
    decide +kernel
  have evaluated := (substitute_bitTree operatorFree covered built values).1
  rw [value] at evaluated
  exact ⟨built, evaluated⟩

end SymbolicAlgebra
