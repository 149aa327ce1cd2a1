import SymbolicAlgebra.Proofs.Bitwise.Chain
import SymbolicAlgebra.Proofs.Regrouping
import SymbolicAlgebra.Proofs.Visit

/-!
# Rules on bitwise terms

Every rule of the catalogue replaces a bitwise term by a bitwise term with the same word, and leaves
symbols alone.  Half of the rules never apply: they wait for operators of arithmetic.
-/

namespace SymbolicAlgebra

variable {names : List String} {values : String → ExactInt}

/-- Symbols stay what they are, and bitwise terms keep their word. -/
structure Expr.KeepsWord
    (names : List String)
    (values : String → ExactInt)
    (expr result : Expr) : Prop where
  symbol :
    expr.symbol?.isSome → result = expr
  denotes :
    expr.IsBitwise names → result.Denotes names values (expr.word values)

/-- Building terms anew keeps words. -/
theorem keepsWord_respected
    (table : SymbolTable) :
    Builder.Respects table.construct (Expr.KeepsWord names values) where
  refl expr :=
    ⟨fun _ => rfl, Expr.IsBitwise.denotes⟩
  trans := by
    intro first second third former latter
    refine ⟨fun isSymbol => ?_, fun bitwise => ?_⟩
    · have same := former.symbol isSymbol
      subst same
      exact latter.symbol isSymbol
    · have denotes := former.denotes bitwise
      rw [← denotes.word_eq]
      exact latter.denotes denotes.bitwise
  built := by
    intro head head' args args' result headKeeps argsKeep constructed
    refine ⟨nofun, fun bitwise => ?_⟩
    cases bitwise with
    | @node _ lhs rhs op isOperator lhsBitwise rhsBitwise unevaluated =>
        subst isOperator
        obtain rfl : head' = op.symbol := headKeeps.symbol rfl
        obtain ⟨lhs', rest, lhsKeeps, restKeep, rfl⟩ :=
          List.forall₂_cons_left_iff.mp argsKeep
        obtain ⟨rhs', none, rhsKeeps, noneKeep, rfl⟩ :=
          List.forall₂_cons_left_iff.mp restKeep
        cases noneKeep
        rw [Expr.word_node]
        exact (lhsKeeps.denotes lhsBitwise).construct
          (rhsKeeps.denotes rhsBitwise) constructed

/-- It is enough to look at applications of bitwise operators if leaves are left alone. -/
theorem Rule.respects_keepsWord
    {rule : Rule}
    {table : SymbolTable}
    (leaf :
      ∀ node,
        node.isLeaf = true →
          rule.transform? table table.construct node = none)
    (application :
      ∀ {op : BitOperator} {lhs rhs replacement : Expr},
        lhs.IsBitwise names → rhs.IsBitwise names →
          (lhs.isNumber && rhs.isNumber) = false →
            rule.transform? table table.construct
                (.apply op.symbol [lhs, rhs]) = some replacement →
              replacement.Denotes names values
                (op.onWords (lhs.word values) (rhs.word values))) :
    rule.Respects table (Expr.KeepsWord names values) := by
  intro node replacement transformed
  have notLeaf : node.isLeaf = false := by
    cases isLeaf : node.isLeaf with
    | false =>
        rfl
    | true =>
        rw [leaf node isLeaf] at transformed
        cases transformed
  refine ⟨fun isSymbol => ?_, fun bitwise => ?_⟩
  · cases node <;> simp_all [Expr.symbol?, Expr.isLeaf]
  · cases bitwise with
    | node op isOperator lhsBitwise rhsBitwise unevaluated =>
        subst isOperator
        rw [Expr.word_node]
        exact application lhsBitwise rhsBitwise unevaluated transformed
    | _ =>
        cases notLeaf

namespace Transform

variable {table : SymbolTable} {op : BitOperator} {lhs rhs replacement : Expr}

theorem commutativeOrder?_denotes
    (lhsBitwise : lhs.IsBitwise names)
    (rhsBitwise : rhs.IsBitwise names)
    (transformed :
      commutativeOrder? table table.construct (.apply op.symbol [lhs, rhs]) =
        some replacement) :
    replacement.Denotes names values
      (op.onWords (lhs.word values) (rhs.word values)) := by
  simp only [commutativeOrder?] at transformed
  split at transformed
  · exact lhsBitwise.denotes.construct rhsBitwise.denotes
      (eq_ok_of_toOption transformed)
  · cases transformed

/-- What an operator declares neutral denotes the word that it ignores. -/
theorem denotes_unit
    {neutral : Expr}
    (declared : op.spec.identity = some neutral) :
    neutral.Denotes names values op.unit := by
  cases op with
  | conjunction =>
      cases declared
  | disjunction =>
      cases declared
      exact Expr.denotes_zero
  | exclusion =>
      cases declared
      exact Expr.denotes_zero

theorem stripIdentities?_denotes
    {builder : Builder}
    {expr : Expr}
    (bitwise : expr.IsBitwise names) :
    ((stripIdentities? table builder expr).getD expr).Denotes names values
      (expr.word values) := by
  induction bitwise with
  | @node head lhs rhs op isOperator lhsBitwise rhsBitwise unevaluated
      lhsHypothesis rhsHypothesis =>
      subst isOperator
      rw [Expr.word_node]
      simp only [stripIdentities?, op.specOf?_symbol]
      split
      · rename_i neutral
        have unitDenotes : lhs.Denotes names values op.unit :=
          denotes_unit neutral
        rw [unitDenotes.word_eq, op.unit_onWords]
        exact rhsHypothesis
      · split
        · rename_i neutral
          have unitDenotes : rhs.Denotes names values op.unit :=
            denotes_unit neutral
          rw [unitDenotes.word_eq, op.onWords_comm, op.unit_onWords]
          exact lhsHypothesis
        · exact lhsBitwise.denotes.node rhsBitwise.denotes unevaluated
  | input member =>
      exact (Expr.IsBitwise.input member).denotes
  | literal exact represented =>
      exact (Expr.IsBitwise.literal exact represented).denotes

/-- The rules of arithmetic do not apply. -/
theorem arithmetic_eq_none
    (table : SymbolTable)
    (builder : Builder)
    (op : BitOperator)
    (lhs rhs : Expr) :
    let node := Expr.apply op.symbol [lhs, rhs]
    convertPowers? table builder node = none ∧
      removeSubtraction? table builder node = none ∧
        mulOverAdd? table builder node = none ∧
          cancelDivision? table builder node = none ∧
            foldAdditions? table builder node = none := by
  cases op <;>
    exact arithmetic_eq_none_of_ne (by decide) (by decide) (by decide)
      (by decide) (by decide) table builder lhs rhs

theorem evaluateNumeric?_eq_none
    {builder : Builder}
    (unevaluated : (lhs.isNumber && rhs.isNumber) = false) :
    evaluateNumeric? table builder (.apply op.symbol [lhs, rhs]) = none := by
  simp only [evaluateNumeric?, op.specOf?_symbol, Option.bind_eq_bind,
    Option.bind_some, op.evaluateLiterals?_eq_none unevaluated]
  rfl

/-- The operands of a bitwise application are bitwise and combine to its word. -/
theorem operands?_bitwise
    (op : BitOperator)
    {expr first second : Expr}
    (bitwise : expr.IsBitwise names)
    (found : expr.operands? op.symbol = some (first, second)) :
    first.IsBitwise names ∧ second.IsBitwise names ∧
      expr.word values =
        op.onWords (first.word values) (second.word values) := by
  obtain rfl := Expr.operands?_eq_some found
  refine ⟨?_, ?_, Expr.word_node op first second⟩
  · cases bitwise with
    | node op isOperator firstBitwise secondBitwise unevaluated =>
        exact firstBitwise
  · cases bitwise with
    | node op isOperator firstBitwise secondBitwise unevaluated =>
        exact secondBitwise

/-- Conjunction spreads over the operands of a disjunction. -/
theorem spread_denotes
    {factor first second result : Expr}
    {factorWord firstWord secondWord : BitVec 64}
    (firstDenotes : first.Denotes names values firstWord)
    (secondDenotes : second.Denotes names values secondWord)
    (factorDenotes : factor.Denotes names values factorWord)
    (spreads :
      spread table.construct Operator.bitAnd Operator.bitOr factor first second =
        .ok result) :
    result.Denotes names values ((firstWord ||| secondWord) &&& factorWord) := by
  obtain ⟨left, leftBuilt, spreads⟩ := exists_of_bind_eq_ok spreads
  obtain ⟨right, rightBuilt, built⟩ := exists_of_bind_eq_ok spreads
  have leftDenotes :
      left.Denotes names values
        (BitOperator.conjunction.onWords firstWord factorWord) :=
    firstDenotes.construct factorDenotes leftBuilt
  have rightDenotes :
      right.Denotes names values
        (BitOperator.conjunction.onWords secondWord factorWord) :=
    secondDenotes.construct factorDenotes rightBuilt
  have resultDenotes :
      result.Denotes names values
        (BitOperator.disjunction.onWords
          (BitOperator.conjunction.onWords firstWord factorWord)
          (BitOperator.conjunction.onWords secondWord factorWord)) :=
    leftDenotes.construct rightDenotes built
  have distributes :
      (firstWord ||| secondWord) &&& factorWord =
        firstWord &&& factorWord ||| secondWord &&& factorWord :=
    BitVec.and_or_distrib_right
  rw [distributes]
  exact resultDenotes

theorem andOverOr?_denotes
    (lhsBitwise : lhs.IsBitwise names)
    (rhsBitwise : rhs.IsBitwise names)
    (transformed :
      andOverOr? table table.construct (.apply op.symbol [lhs, rhs]) =
        some replacement) :
    replacement.Denotes names values
      (op.onWords (lhs.word values) (rhs.word values)) := by
  unfold andOverOr? distribute? at transformed
  split at transformed
  · cases transformed
  · rename_i first second found
    obtain ⟨sameOperator, sameOperands⟩ :=
      Expr.apply.inj (Expr.operands?_eq_some found)
    obtain rfl : op = .conjunction :=
      BitOperator.eq_of_symbol sameOperator
    cases sameOperands
    split at transformed
    · rename_i first second inLhs
      obtain ⟨firstBitwise, secondBitwise, lhsWord⟩ :=
        operands?_bitwise .disjunction lhsBitwise inLhs
      rw [lhsWord]
      exact spread_denotes firstBitwise.denotes secondBitwise.denotes
        rhsBitwise.denotes (eq_ok_of_toOption transformed)
    · split at transformed
      · rename_i first second inRhs
        obtain ⟨firstBitwise, secondBitwise, rhsWord⟩ :=
          operands?_bitwise .disjunction rhsBitwise inRhs
        rw [rhsWord, BitOperator.onWords_comm]
        exact spread_denotes firstBitwise.denotes secondBitwise.denotes
          lhsBitwise.denotes (eq_ok_of_toOption transformed)
      · cases transformed

theorem absorbZero?_denotes
    (transformed :
      absorbZero? table table.construct (.apply op.symbol [lhs, rhs]) =
        some replacement) :
    replacement.Denotes names values
      (op.onWords (lhs.word values) (rhs.word values)) := by
  simp only [absorbZero?, op.specOf?_symbol, Option.bind_eq_bind,
    Option.bind_some] at transformed
  exact Expr.denotes_of_absorbed? transformed

/-- Folding literals gives a literal of the word that they join to. -/
theorem foldConstants?_denotes
    {name : String}
    {total value : Expr}
    {rest : List Expr}
    {totalWord restWord : BitVec 64}
    (totalDenotes : total.Denotes names values totalWord)
    (totalNumber : total.isNumber = true)
    (restJoin : op.Joins names values rest restWord)
    (restNumbers : ∀ item ∈ rest, item.isNumber = true)
    (folded : foldConstants? op.spec name total rest = some value) :
    value.Denotes names values (op.onWords totalWord restWord) := by
  induction rest generalizing total totalWord restWord with
  | nil =>
      cases folded
      rw [← restJoin.total_eq, op.onWords_comm]
      exact (op.unit_onWords totalWord).symm ▸ totalDenotes
  | cons next rest inductionHypothesis =>
      obtain ⟨nextWord, laterWord, nextDenotes, laterJoin, rfl⟩ :=
        restJoin.exists_of_cons
      obtain ⟨nextNumber, laterNumbers⟩ := List.forall_mem_cons.mp restNumbers
      obtain ⟨first, rfl⟩ := totalDenotes.bitwise.exists_literal totalNumber
      obtain ⟨second, rfl⟩ := nextDenotes.bitwise.exists_literal nextNumber
      have combinedNumber := (op.combine first second).isNumber_literal
      simp only [foldConstants?, op.evaluateLiterals?_literals,
        Option.bind_eq_bind, Option.bind_some, Except.toOption, combinedNumber,
        if_true] at folded
      rw [totalDenotes.unique first.denotes_literal,
        nextDenotes.unique second.denotes_literal, ← op.onWords_assoc,
        ← op.word_combine]
      exact inductionHypothesis (op.combine first second).denotes_literal
        combinedNumber laterJoin laterNumbers folded

theorem foldedConstants?_joins
    {name : String}
    {constants folded : List Expr}
    {word : BitVec 64}
    (constantsJoin : op.Joins names values constants word)
    (numbers : ∀ item ∈ constants, item.isNumber = true)
    (found : foldedConstants? op.spec name constants = some folded) :
    op.Joins names values folded word := by
  unfold foldedConstants? at found
  split at found
  · rename_i first second rest
    have evaluates : op.spec.evaluator.isSome = true :=
      rfl
    rw [if_pos evaluates] at found
    obtain ⟨value, folds, rfl⟩ := Option.map_eq_some_iff.mp found
    obtain ⟨firstNumber, restNumbers⟩ := List.forall_mem_cons.mp numbers
    obtain ⟨firstWord, restWord, firstDenotes, restJoin, rfl⟩ :=
      constantsJoin.exists_of_cons
    exact .singleton
      (foldConstants?_denotes firstDenotes firstNumber restJoin restNumbers folds)
  · cases found
    exact constantsJoin

/-- A literal that is left out beside other operands is the unit. -/
theorem keptLiterals_joins
    {literals : List Expr}
    {word : BitVec 64}
    (others : List Expr)
    (literalsJoin : op.Joins names values literals word) :
    op.Joins names values (keptLiterals op.spec others literals) word := by
  unfold keptLiterals
  split
  · rename_i literal
    split
    · rename_i dropped
      have declared : op.spec.identity = some literal := by
        have identity := (Bool.and_eq_true_iff.mp dropped).1
        simpa [isIdentity, OperatorSpec.effectiveLeftIdentity,
          OperatorSpec.effectiveRightIdentity, BitOperator.spec] using identity
      rw [literalsJoin.of_singleton.unique (denotes_unit declared)]
      exact .nil
    · exact literalsJoin
  · exact literalsJoin

theorem reassociateSorted?_denotes
    {node : Expr}
    (bitwise : node.IsBitwise names)
    (transformed :
      reassociateSorted? op.spec table.construct op.symbol node =
        some replacement) :
    replacement.Denotes names values (node.word values) := by
  have flatJoin :
      op.Joins names values (Chain.flatten op.symbol node) (node.word values) :=
    .flatten bitwise
  obtain ⟨constantsWord, othersWord, constantsJoin, othersJoin, joined⟩ :=
    (flatJoin.of_perm (List.filter_append_perm (·.isNumber) _).symm).exists_of_append
  rw [reassociateSorted?_eq] at transformed
  obtain ⟨regrouping, regroups, built⟩ := Option.bind_eq_some_iff.mp transformed
  obtain ⟨literals, folded, outcome⟩ := exists_literals_of_regrouping? regroups
  have literalsJoin : op.Joins names values literals constantsWord :=
    foldedConstants?_joins constantsJoin (by simp) folded
  rcases outcome with ⟨zero, absorbs, rfl, rfl⟩ | rfl
  · cases built
    obtain ⟨rfl, rfl⟩ := BitOperator.of_zero absorbs
    have zeroWord : node.word values = 0#64 := by
      rw [joined, literalsJoin.of_singleton.unique Expr.denotes_zero]
      exact BitVec.zero_and
    rw [zeroWord]
    exact Expr.denotes_zero
  · rw [joined]
    exact ((keptLiterals_joins _ literalsJoin).append othersJoin).build_sorted built

theorem reassociate?_denotes
    (bitwise : (Expr.apply op.symbol [lhs, rhs]).IsBitwise names)
    (transformed :
      reassociate? table table.construct (.apply op.symbol [lhs, rhs]) =
        some replacement) :
    replacement.Denotes names values
      ((Expr.apply op.symbol [lhs, rhs]).word values) := by
  rw [reassociate?_eq (op.specOf?_symbol table) rfl rfl, ← reassociateSorted?_eq]
    at transformed
  exact reassociateSorted?_denotes bitwise transformed

theorem cancelPairs?_denotes
    {node : Expr}
    (bitwise : node.IsBitwise names)
    (transformed :
      cancelPairs? table.construct node = some replacement) :
    replacement.Denotes names values (node.word values) := by
  have flatJoin :
      BitOperator.exclusion.Joins names values
        (Chain.flatten Operator.bitXor node) (node.word values) :=
    BitOperator.Joins.flatten bitwise
  have keptJoin := oddItems_joins flatJoin
  simp only [cancelPairs?] at transformed
  split at transformed
  · cases transformed
  · split at transformed
    · rename_i none
      cases transformed
      rw [← keptJoin.total_eq, List.isEmpty_iff.mp none]
      exact Expr.denotes_zero
    · exact keptJoin.build_sorted transformed

theorem deduplicate?_denotes
    (op : BitOperator)
    {node : Expr}
    (idempotent : ∀ word, op.onWords word word = word)
    (bitwise : node.IsBitwise names)
    (transformed :
      deduplicate? table.construct op.symbol node = some replacement) :
    replacement.Denotes names values (node.word values) := by
  have keptJoin :
      op.Joins names values
        (distinctItems (Chain.flatten op.symbol node)) (node.word values) :=
    distinctItems_joins idempotent (.flatten bitwise)
  simp only [deduplicate?] at transformed
  split at transformed
  · cases transformed
  · exact keptJoin.build_sorted transformed

theorem bitIdentities?_denotes
    (bitwise : (Expr.apply op.symbol [lhs, rhs]).IsBitwise names)
    (transformed :
      bitIdentities? table table.construct (.apply op.symbol [lhs, rhs]) =
        some replacement) :
    replacement.Denotes names values
      ((Expr.apply op.symbol [lhs, rhs]).word values) := by
  cases op with
  | conjunction =>
      exact deduplicate?_denotes .conjunction (fun _ => BitVec.and_self) bitwise
        transformed
  | disjunction =>
      exact deduplicate?_denotes .disjunction (fun _ => BitVec.or_self) bitwise
        transformed
  | exclusion =>
      exact cancelPairs?_denotes bitwise transformed

end Transform

/-- The rules of the catalogue keep the words of bitwise terms. -/
theorem catalogue_keepsWord
    (table : SymbolTable)
    {rule : Rule}
    (member : rule ∈ catalogue) :
    rule.Respects table (Expr.KeepsWord names values) := by
  refine Rule.respects_keepsWord
    (fun node => transform?_of_isLeaf member table table.construct) ?_
  intro op lhs rhs replacement lhsBitwise rhsBitwise unevaluated transformed
  have bitwise : (Expr.apply op.symbol [lhs, rhs]).IsBitwise names :=
    .node op rfl lhsBitwise rhsBitwise unevaluated
  have evaluation :
      Transform.evaluateNumeric? table table.construct
          (.apply op.symbol [lhs, rhs]) =
        none :=
    Transform.evaluateNumeric?_eq_none unevaluated
  obtain ⟨powers, subtraction, distribution, division, addition⟩ :=
    Transform.arithmetic_eq_none table table.construct op lhs rhs
  simp only [catalogue, List.mem_cons, List.not_mem_nil, or_false] at member
  rcases member with rfl | rfl | rfl | rfl | rfl | rfl | rfl | rfl | rfl | rfl |
      rfl | rfl
  · exact Transform.commutativeOrder?_denotes lhsBitwise rhsBitwise transformed
  · have stripped :
        ((Transform.stripIdentities? table table.construct
              (.apply op.symbol [lhs, rhs])).getD
            (.apply op.symbol [lhs, rhs])).Denotes names values
          ((Expr.apply op.symbol [lhs, rhs]).word values) :=
      Transform.stripIdentities?_denotes bitwise
    change Transform.stripIdentities? table table.construct _ = _ at transformed
    rw [transformed, Expr.word_node] at stripped
    exact stripped
  · cases evaluation.symm.trans transformed
  · cases powers.symm.trans transformed
  · cases subtraction.symm.trans transformed
  · cases distribution.symm.trans transformed
  · exact Transform.andOverOr?_denotes lhsBitwise rhsBitwise transformed
  · cases division.symm.trans transformed
  · cases addition.symm.trans transformed
  · exact Transform.absorbZero?_denotes transformed
  · rw [← Expr.word_node]
    exact Transform.reassociate?_denotes bitwise transformed
  · rw [← Expr.word_node]
    exact Transform.bitIdentities?_denotes bitwise transformed

end SymbolicAlgebra
