import Mathlib.Data.Int.Bitwise
import SymbolicAlgebra.Construction
import SymbolicAlgebra.Proofs.Number.Exact

/-!
# Bitwise operators on exact integers

The integers of magnitude up to `2 ^ 53` that a float holds exactly are closed under conjunction,
disjunction and exclusive disjunction in two's complement.  On their literals the evaluators compute
exactly these operations, and on their words the operations are the ones of 64-bit patterns.
-/

namespace SymbolicAlgebra

/-- An integer that a float holds exactly, like all integers closer to zero. -/
structure ExactInt where
  whole : Int
  lower : -2 ^ 53 ≤ whole
  upper : whole < 2 ^ 53

namespace ExactInt

instance : Inhabited ExactInt :=
  ⟨⟨0, by decide, by decide⟩⟩

/-- The literal of an integer. -/
def literal
    (exact : ExactInt) : Expr :=
  .ofInt exact.whole

/-- The two's-complement pattern of an integer. -/
def word
    (exact : ExactInt) : BitVec 64 :=
  BitVec.ofInt 64 exact.whole

theorem natAbs_le
    (exact : ExactInt) :
    exact.whole.natAbs ≤ 2 ^ 53 := by
  have lower := exact.lower
  have upper := exact.upper
  omega

theorem natAbs_lt_wordLimit
    (exact : ExactInt) :
    exact.whole.natAbs < wordLimit :=
  Nat.lt_of_le_of_lt exact.natAbs_le (by decide)

theorem isExactly
    (exact : ExactInt) :
    IsExactly (floatOfInt exact.whole) exact.whole :=
  floatOfInt_isExactly (fitsFloat_of_le exact.natAbs_le)

theorem literal_eq_number
    (exact : ExactInt) :
    exact.literal = .number (floatOfInt exact.whole) :=
  Expr.ofInt_eq_number (fitsFloat_of_le exact.natAbs_le)

theorem isNumber_literal
    (exact : ExactInt) :
    exact.literal.isNumber = true := by
  rw [exact.literal_eq_number]
  rfl

theorem toInt_word
    (exact : ExactInt) :
    exact.word.toInt = exact.whole := by
  have lower := exact.lower
  have upper := exact.upper
  apply BitVec.toInt_ofInt_eq_self <;> omega

theorem eq_of_word
    {first second : ExactInt}
    (same : first.word = second.word) :
    first.whole = second.whole := by
  rw [← toInt_word, ← toInt_word, same]

end ExactInt

/-- The operators that combine two words bit by bit. -/
inductive BitOperator where
  | conjunction
  | disjunction
  | exclusion
deriving DecidableEq

namespace BitOperator

/-- The name of an operator. -/
def name : BitOperator → String
  | conjunction => "&"
  | disjunction => "|"
  | exclusion => "^"

/-- The symbol of an operator. -/
def symbol
    (op : BitOperator) : Expr :=
  .symbol op.name

/-- What an operator does to two bits. -/
def onBits : BitOperator → Bool → Bool → Bool
  | conjunction => and
  | disjunction => or
  | exclusion => xor

/-- What an operator does to two words. -/
def onWords : BitOperator → BitVec 64 → BitVec 64 → BitVec 64
  | conjunction => (· &&& ·)
  | disjunction => (· ||| ·)
  | exclusion => (· ^^^ ·)

/-- What an operator does to two integers, which have infinitely many bits. -/
def onInts : BitOperator → Int → Int → Int
  | conjunction => Int.land
  | disjunction => Int.lor
  | exclusion => Int.xor

/-- The operator as an evaluator. -/
def evaluator : BitOperator → Evaluator
  | conjunction => .bitAnd
  | disjunction => .bitOr
  | exclusion => .bitXor

/-- The properties of an operator. -/
def spec
    (op : BitOperator) : OperatorSpec where
  commutative := true
  associative := true
  identity := if op = conjunction then none else some (.number 0)
  zero := if op = conjunction then some (.number 0) else none
  evaluator := some op.evaluator
  cast := some .integer

/-- The word that an operator ignores. -/
def unit : BitOperator → BitVec 64
  | conjunction => BitVec.allOnes 64
  | disjunction => 0#64
  | exclusion => 0#64

theorem onWords_assoc
    (op : BitOperator)
    (first second third : BitVec 64) :
    op.onWords (op.onWords first second) third =
      op.onWords first (op.onWords second third) := by
  cases op with
  | conjunction =>
      exact BitVec.and_assoc first second third
  | disjunction =>
      exact BitVec.or_assoc first second third
  | exclusion =>
      exact BitVec.xor_assoc first second third

theorem onWords_comm
    (op : BitOperator)
    (first second : BitVec 64) :
    op.onWords first second = op.onWords second first := by
  cases op with
  | conjunction =>
      exact BitVec.and_comm first second
  | disjunction =>
      exact BitVec.or_comm first second
  | exclusion =>
      exact BitVec.xor_comm first second

theorem unit_onWords
    (op : BitOperator)
    (word : BitVec 64) :
    op.onWords op.unit word = word := by
  cases op with
  | conjunction =>
      exact BitVec.allOnes_and
  | disjunction =>
      exact BitVec.zero_or
  | exclusion =>
      exact BitVec.zero_xor

theorem specOf?_symbol
    (table : SymbolTable)
    (op : BitOperator) :
    table.specOf? op.symbol = some op.spec := by
  cases op <;> rfl

theorem getElem_onWords
    (op : BitOperator)
    (lhs rhs : BitVec 64)
    (index : Nat)
    (below : index < 64) :
    (op.onWords lhs rhs)[index] = op.onBits lhs[index] rhs[index] := by
  cases op <;> simp [onWords, onBits]

theorem onInts_eq_bitwise
    (op : BitOperator) :
    op.onInts = Int.bitwise op.onBits := by
  cases op with
  | conjunction =>
      exact Int.bitwise_and.symm
  | disjunction =>
      exact Int.bitwise_or.symm
  | exclusion =>
      exact Int.bitwise_xor.symm

end BitOperator

/-- The bits of a two's-complement pattern are those of the integer. -/
theorem getElem_ofInt
    (whole : Int)
    (index : Nat)
    (below : index < 64) :
    (BitVec.ofInt 64 whole)[index] = whole.testBit index := by
  cases whole with
  | ofNat number =>
      rw [Int.ofNat_eq_natCast, BitVec.ofInt_natCast,
        ← BitVec.getLsbD_eq_getElem, BitVec.getLsbD_ofNat, decide_eq_true below,
        Bool.true_and]
      rfl
  | negSucc number =>
      rw [BitVec.ofInt_negSucc_eq_not_ofNat, BitVec.getElem_not,
        ← BitVec.getLsbD_eq_getElem, BitVec.getLsbD_ofNat, decide_eq_true below,
        Bool.true_and]
      rfl

theorem natBitwise_bounds
    (onBits : Bool → Bool → Bool)
    {places lhs rhs : Nat}
    (lhsBelow : lhs < 2 ^ places)
    (rhsBelow : rhs < 2 ^ places) :
    -2 ^ places ≤ Int.natBitwise onBits lhs rhs ∧
      Int.natBitwise onBits lhs rhs < 2 ^ places := by
  have below
      (onBits : Bool → Bool → Bool) :
      (Nat.bitwise onBits lhs rhs : Int) < 2 ^ places := by
    exact_mod_cast Nat.bitwise_lt_two_pow lhsBelow rhsBelow
  unfold Int.natBitwise
  cases onBits false false with
  | false =>
      have := below onBits
      simp only [cond_false]
      omega
  | true =>
      have := below fun x y => !onBits x y
      simp only [cond_true, Int.negSucc_eq]
      omega

/-- Bitwise operations do not leave the integers of a given length. -/
theorem bitwise_bounds
    (onBits : Bool → Bool → Bool)
    {places : Nat}
    {lhs rhs : Int}
    (lhsLower : -2 ^ places ≤ lhs)
    (lhsUpper : lhs < 2 ^ places)
    (rhsLower : -2 ^ places ≤ rhs)
    (rhsUpper : rhs < 2 ^ places) :
    -2 ^ places ≤ Int.bitwise onBits lhs rhs ∧
      Int.bitwise onBits lhs rhs < 2 ^ places := by
  have ofNatBelow
      {number : Nat}
      (upper : Int.ofNat number < 2 ^ places) :
      number < 2 ^ places := by
    rw [Int.ofNat_eq_natCast] at upper
    exact_mod_cast upper
  have negSuccBelow
      {number : Nat}
      (lower : -2 ^ places ≤ Int.negSucc number) :
      number < 2 ^ places := by
    apply ofNatBelow
    rw [Int.negSucc_eq] at lower
    rw [Int.ofNat_eq_natCast]
    omega
  cases lhs with
  | ofNat first =>
      cases rhs with
      | ofNat second =>
          exact natBitwise_bounds onBits
            (ofNatBelow lhsUpper) (ofNatBelow rhsUpper)
      | negSucc second =>
          exact natBitwise_bounds (fun x y => onBits x !y)
            (ofNatBelow lhsUpper) (negSuccBelow rhsLower)
  | negSucc first =>
      cases rhs with
      | ofNat second =>
          exact natBitwise_bounds (fun x y => onBits (!x) y)
            (negSuccBelow lhsLower) (ofNatBelow rhsUpper)
      | negSucc second =>
          exact natBitwise_bounds (fun x y => onBits (!x) !y)
            (negSuccBelow lhsLower) (negSuccBelow rhsLower)

namespace BitOperator

/-- What an operator does to two exact integers. -/
def combine
    (op : BitOperator)
    (lhs rhs : ExactInt) : ExactInt where
  whole := op.onInts lhs.whole rhs.whole
  lower := by
    rw [onInts_eq_bitwise]
    exact (bitwise_bounds op.onBits lhs.lower lhs.upper rhs.lower rhs.upper).1
  upper := by
    rw [onInts_eq_bitwise]
    exact (bitwise_bounds op.onBits lhs.lower lhs.upper rhs.lower rhs.upper).2

/-- The pattern of a combined integer is the combination of the patterns. -/
theorem ofInt_onInts
    (op : BitOperator)
    (lhs rhs : Int) :
    BitVec.ofInt 64 (op.onInts lhs rhs) =
      op.onWords (BitVec.ofInt 64 lhs) (BitVec.ofInt 64 rhs) := by
  ext index below
  rw [getElem_onWords, getElem_ofInt, getElem_ofInt, getElem_ofInt,
    onInts_eq_bitwise, Int.testBit_bitwise]

theorem word_combine
    (op : BitOperator)
    (lhs rhs : ExactInt) :
    (op.combine lhs rhs).word = op.onWords lhs.word rhs.word :=
  op.ofInt_onInts lhs.whole rhs.whole

/-- On literals an operator evaluates to the literal of the combined integers. -/
theorem evaluateLiterals?_literals
    (op : BitOperator)
    (name : String)
    (lhs rhs : ExactInt) :
    op.spec.evaluateLiterals? name [lhs.literal, rhs.literal] =
      some (.ok (op.combine lhs rhs).literal) := by
  have coerced
      (exact : ExactInt) :
      op.spec.coerce (floatOfInt exact.whole) = .ok (floatOfInt exact.whole) := by
    simp only [OperatorSpec.coerce, spec, Cast.convert,
      exact.isExactly.truncatedWord?_eq exact.natAbs_lt_wordLimit]
  have read
      (exact : ExactInt) :
      Evaluator.word (floatOfInt exact.whole) = .ok exact.whole := by
    simp only [Evaluator.word,
      exact.isExactly.word?_eq exact.natAbs_lt_wordLimit]
  have evaluated :
      op.evaluator.evaluate (floatOfInt lhs.whole) (floatOfInt rhs.whole) =
        Evaluator.finite
          (floatOfInt
            (SymbolicAlgebra.onWords op.onWords lhs.whole rhs.whole)) := by
    cases op <;>
      simp only [evaluator, Evaluator.evaluate, Evaluator.bitwise, read] <;> rfl
  have combined :
      SymbolicAlgebra.onWords op.onWords lhs.whole rhs.whole =
        (op.combine lhs rhs).whole := by
    rw [← (op.combine lhs rhs).toInt_word, word_combine]
    rfl
  have finite := (op.combine lhs rhs).isExactly.isFinite
  rw [lhs.literal_eq_number, rhs.literal_eq_number]
  simp only [OperatorSpec.evaluateLiterals?, OperatorSpec.evaluate?, coerced]
  change some (Except.mapError _ (op.evaluator.evaluate _ _)) = _
  rw [evaluated, combined, Evaluator.finite, if_pos finite]
  rfl

end BitOperator

end SymbolicAlgebra
