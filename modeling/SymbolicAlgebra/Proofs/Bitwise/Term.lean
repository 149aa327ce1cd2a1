import SymbolicAlgebra.Chain
import SymbolicAlgebra.Proofs.Bitwise.Operator
import SymbolicAlgebra.Proofs.Construction
import SymbolicAlgebra.Proofs.Expr.Structure

/-!
# Bitwise terms

A bitwise term is made of variables, literals of exact integers and binary applications of bitwise
operators, none of them to two literals.  Under values of the variables it denotes a word.
-/

namespace SymbolicAlgebra

namespace BitOperator

/-- The operator of a symbol. -/
def ofSymbol? : Expr → Option BitOperator
  | .symbol "&" => some conjunction
  | .symbol "|" => some disjunction
  | .symbol "^" => some exclusion
  | _ => none

theorem ofSymbol?_symbol
    (op : BitOperator) :
    ofSymbol? op.symbol = some op := by
  cases op <;> rfl

theorem eq_of_symbol
    {op op' : BitOperator}
    (same : op.symbol = op'.symbol) :
    op = op' := by
  have sameFound := congrArg ofSymbol? same
  rw [ofSymbol?_symbol, ofSymbol?_symbol] at sameFound
  exact Option.some.inj sameFound

end BitOperator

namespace Expr

/-- The word of a bitwise term under values of its variables. -/
def word
    (values : String → ExactInt) : Expr → BitVec 64
  | symbol name => (values name).word
  | number value => BitVec.ofInt 64 ((integer? value).getD 0)
  | apply head [lhs, rhs] =>
    match BitOperator.ofSymbol? head with
    | some op => op.onWords (lhs.word values) (rhs.word values)
    | none => 0#64
  | _ => 0#64

/-- The bitwise terms over variables with the given names. -/
inductive IsBitwise
    (names : List String) : Expr → Prop where
  | input
      {name : String}
      (member : name ∈ names) :
      IsBitwise names (symbol name)
  | literal
      {value : Float}
      (exact : ExactInt)
      (represented : value = floatOfInt exact.whole) :
      IsBitwise names (number value)
  | node
      {head lhs rhs : Expr}
      (op : BitOperator)
      (isOperator : head = op.symbol)
      (lhsBitwise : IsBitwise names lhs)
      (rhsBitwise : IsBitwise names rhs)
      (unevaluated : (lhs.isNumber && rhs.isNumber) = false) :
      IsBitwise names (apply head [lhs, rhs])

/-- The expression is a bitwise term with the given word. -/
structure Denotes
    (names : List String)
    (values : String → ExactInt)
    (expr : Expr)
    (word : BitVec 64) : Prop where
  bitwise :
    expr.IsBitwise names
  word_eq :
    expr.word values = word

end Expr

variable {names : List String} {values : String → ExactInt}

theorem ExactInt.denotes_literal
    (exact : ExactInt) :
    exact.literal.Denotes names values exact.word := by
  rw [exact.literal_eq_number]
  refine ⟨.literal exact rfl, ?_⟩
  rw [Expr.word, exact.isExactly.integer?_eq]
  rfl

namespace Expr

/-- Zero has no bits set. -/
theorem denotes_zero :
    Denotes names values (.number 0) 0#64 :=
  ExactInt.denotes_literal ⟨0, by decide, by decide⟩

theorem IsBitwise.denotes
    {expr : Expr}
    (bitwise : expr.IsBitwise names) :
    expr.Denotes names values (expr.word values) :=
  ⟨bitwise, rfl⟩

theorem IsBitwise.exists_literal
    {expr : Expr}
    (bitwise : expr.IsBitwise names)
    (isNumber : expr.isNumber = true) :
    ∃ exact : ExactInt, expr = exact.literal := by
  cases bitwise with
  | literal exact represented =>
      exact ⟨exact, by rw [exact.literal_eq_number, represented]⟩
  | _ =>
      cases isNumber

theorem Denotes.unique
    {expr : Expr}
    {first second : BitVec 64}
    (firstDenotes : expr.Denotes names values first)
    (secondDenotes : expr.Denotes names values second) :
    first = second :=
  firstDenotes.word_eq.symm.trans secondDenotes.word_eq

theorem word_node
    (op : BitOperator)
    (lhs rhs : Expr) :
    (apply op.symbol [lhs, rhs]).word values =
      op.onWords (lhs.word values) (rhs.word values) := by
  simp only [word, BitOperator.ofSymbol?_symbol]

theorem Denotes.node
    {op : BitOperator}
    {lhs rhs : Expr}
    {lhsWord rhsWord : BitVec 64}
    (lhsDenotes : lhs.Denotes names values lhsWord)
    (rhsDenotes : rhs.Denotes names values rhsWord)
    (unevaluated : (lhs.isNumber && rhs.isNumber) = false) :
    (apply op.symbol [lhs, rhs]).Denotes names values
      (op.onWords lhsWord rhsWord) := by
  refine ⟨.node op rfl lhsDenotes.bitwise rhsDenotes.bitwise unevaluated, ?_⟩
  rw [word_node, lhsDenotes.word_eq, rhsDenotes.word_eq]

end Expr

/-- Only zero absorbs, and only under conjunction. -/
theorem BitOperator.of_zero
    {op : BitOperator}
    {zero : Expr}
    (declared : op.spec.zero = some zero) :
    op = conjunction ∧ zero = .number 0 := by
  cases op with
  | conjunction =>
      cases declared
      exact ⟨rfl, rfl⟩
  | _ =>
      cases declared

theorem BitOperator.evaluateLiterals?_eq_none
    (op : BitOperator)
    {name : String}
    {lhs rhs : Expr}
    (unevaluated : (lhs.isNumber && rhs.isNumber) = false) :
    op.spec.evaluateLiterals? name [lhs, rhs] = none :=
  op.spec.evaluateLiterals?_pair name unevaluated

/-- An application with an absorbing operand has that operand's word. -/
theorem Expr.denotes_of_absorbed?
    {op : BitOperator}
    {lhs rhs zero : Expr}
    (absorbed : op.spec.absorbed? [lhs, rhs] = some zero) :
    zero.Denotes names values
      (op.onWords (lhs.word values) (rhs.word values)) := by
  obtain ⟨declared, member⟩ := Option.filter_eq_some_iff.mp absorbed
  obtain ⟨rfl, rfl⟩ := BitOperator.of_zero declared
  have zeroDenotes : (Expr.number 0).Denotes names values 0#64 :=
    denotes_zero
  have absorbs : lhs.word values &&& rhs.word values = 0#64 := by
    simp only [List.contains_iff_mem, List.mem_cons, List.not_mem_nil,
      or_false] at member
    rcases member with rfl | rfl
    · rw [zeroDenotes.word_eq, BitVec.zero_and]
    · rw [zeroDenotes.word_eq, BitVec.and_zero]
  change Denotes names values _ (lhs.word values &&& rhs.word values)
  rw [absorbs]
  exact zeroDenotes

/-- The raw term of an operator and two bitwise terms denotes the combined words. -/
theorem Expr.Denotes.construct
    {table : SymbolTable}
    {op : BitOperator}
    {lhs rhs result : Expr}
    {lhsWord rhsWord : BitVec 64}
    (lhsDenotes : lhs.Denotes names values lhsWord)
    (rhsDenotes : rhs.Denotes names values rhsWord)
    (constructed : table.construct op.symbol [lhs, rhs] = .ok result) :
    result.Denotes names values (op.onWords lhsWord rhsWord) := by
  obtain ⟨-, constructs⟩ := construct_eq_ok_iff.mp constructed
  rw [op.specOf?_symbol] at constructs
  cases literals : lhs.isNumber && rhs.isNumber with
  | true =>
      obtain ⟨lhsNumber, rhsNumber⟩ := Bool.and_eq_true_iff.mp literals
      obtain ⟨first, rfl⟩ := lhsDenotes.bitwise.exists_literal lhsNumber
      obtain ⟨second, rfl⟩ := rhsDenotes.bitwise.exists_literal rhsNumber
      have evaluates (name : String) :=
        op.evaluateLiterals?_literals name first second
      cases constructs with
      | evaluated outcome =>
          cases outcome.symm.trans (evaluates _)
          rw [lhsDenotes.unique first.denotes_literal,
            rhsDenotes.unique second.denotes_literal, ← op.word_combine]
          exact (op.combine first second).denotes_literal
      | absorbed unevaluated absorbs =>
          cases unevaluated.symm.trans (evaluates _)
      | stored unevaluated unabsorbed =>
          cases unevaluated.symm.trans (evaluates _)
  | false =>
      cases constructs with
      | evaluated outcome =>
          cases (op.evaluateLiterals?_eq_none literals).symm.trans outcome
      | absorbed unevaluated absorbs =>
          rw [← lhsDenotes.word_eq, ← rhsDenotes.word_eq]
          exact denotes_of_absorbed? absorbs
      | stored unevaluated unabsorbed =>
          rcases op.spec.ordered_pair op.symbol lhs rhs with kept | swapped
          · rw [kept]
            exact lhsDenotes.node rhsDenotes literals
          · rw [swapped, op.onWords_comm]
            rw [Bool.and_comm] at literals
            exact rhsDenotes.node lhsDenotes literals

end SymbolicAlgebra
