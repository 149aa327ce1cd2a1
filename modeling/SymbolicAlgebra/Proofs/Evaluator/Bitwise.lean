import SymbolicAlgebra.Proofs.Bitwise.Operator
import SymbolicAlgebra.Proofs.Evaluator.Shift
import SymbolicAlgebra.Proofs.Number.Rounding

/-!
# Bitwise operators on literals

The evaluators combine two integers that are words in two's complement and round the result to a float.  A
conjunction never has more significant digits than its operands, so it is exact; the other results are
exact if they fit, as they do for operands up to `2 ^ 53`.  An exact result is an operand again, unless it
has been rounded up to the first magnitude that is no word.
-/

namespace SymbolicAlgebra

/-! ## Digits of a conjunction -/

/-- The low digits that an integer lacks are missing in a conjunction. -/
theorem two_pow_dvd_land
    (places : Nat)
    {lhs : Int}
    (rhs : Int)
    (divides : 2 ^ places ∣ lhs) :
    2 ^ places ∣ Int.land lhs rhs := by
  induction places generalizing lhs rhs with
  | zero =>
      exact Int.one_dvd _
  | succ places inductionHypothesis =>
      obtain ⟨quotient, rfl⟩ := divides
      have halved : 2 ^ (places + 1) * quotient = Int.bit false (2 ^ places * quotient) := by
        rw [Int.bit_val, Int.pow_succ]
        simp only [cond_false]
        ring
      rw [halved, ← Int.bit_decomp rhs, Int.land_bit, Bool.false_and, Int.bit_val,
        cond_false, Int.add_zero, Int.pow_succ, Int.mul_comm]
      exact Int.mul_dvd_mul_left 2
        (inductionHypothesis rhs.div2 (Int.dvd_mul_right _ _))

theorem land_comm
    (lhs rhs : Int) :
    Int.land lhs rhs = Int.land rhs lhs := by
  cases lhs <;> cases rhs <;> simp only [Int.land, Nat.land_comm, Nat.lor_comm]

/-- A conjunction with the longer of two integers has no more digits than that integer. -/
theorem fitsFloat_land_of_le
    {lhs rhs : Int}
    (fits : FitsFloat lhs.natAbs)
    (small : lhs.natAbs < 2 ^ 63)
    (shorter : rhs.natAbs ≤ lhs.natAbs) :
    FitsFloat (Int.land lhs rhs).natAbs := by
  have below : lhs.natAbs < 2 ^ (lhs.natAbs.log2 + 1) := Nat.lt_log2_self
  have place : lhs.natAbs.log2 ≤ 62 := log2_le_of_lt_two_pow small
  obtain ⟨-, divides⟩ := fits
  generalize lhs.natAbs.log2 = digits at below place divides
  have power : ((2 ^ (digits + 1) : Nat) : Int) = 2 ^ (digits + 1) :=
    Int.natCast_pow 2 (digits + 1)
  have bounds :=
    @bitwise_bounds and (digits + 1) lhs rhs (by omega) (by omega) (by omega)
      (by omega)
  rw [Int.bitwise_and] at bounds
  have bounded : (Int.land lhs rhs).natAbs ≤ 2 ^ (digits + 1) := by
    omega
  have multiple : 2 ^ (digits - 52) ∣ (Int.land lhs rhs).natAbs := by
    have whole : (2 : Int) ^ (digits - 52) ∣ lhs := by
      rw [← Int.natAbs_dvd_natAbs, Int.natAbs_pow]
      exact divides
    have conjoined := two_pow_dvd_land (digits - 52) rhs whole
    rwa [← Int.natAbs_dvd_natAbs, Int.natAbs_pow] at conjoined
  have conjoinedPlace := log2_le_of_le_two_pow bounded
  exact fitsFloat_of_dvd multiple
    (bounded.trans (Nat.pow_le_pow_right (by decide) (by omega))) (by omega)

theorem fitsFloat_land
    {lhs rhs : Int}
    (lhsFits : FitsFloat lhs.natAbs)
    (lhsSmall : lhs.natAbs < 2 ^ 63)
    (rhsFits : FitsFloat rhs.natAbs)
    (rhsSmall : rhs.natAbs < 2 ^ 63) :
    FitsFloat (Int.land lhs rhs).natAbs := by
  rcases Nat.le_total rhs.natAbs lhs.natAbs with shorter | longer
  · exact fitsFloat_land_of_le lhsFits lhsSmall shorter
  · rw [land_comm]
    exact fitsFloat_land_of_le rhsFits rhsSmall longer

/-! ## Words -/

/-- An integer that is a word is the value of its pattern. -/
theorem toInt_ofInt
    {whole : Int}
    (small : whole.natAbs < 2 ^ 63) :
    (BitVec.ofInt 64 whole).toInt = whole := by
  apply BitVec.toInt_ofInt_eq_self <;> omega

theorem natAbs_toInt_le
    (word : BitVec 64) :
    word.toInt.natAbs ≤ 2 ^ 63 := by
  have lower := BitVec.le_toInt word
  have upper := BitVec.toInt_lt (x := word)
  omega

namespace BitOperator

section Operands

variable {lhs rhs : Float} {first second : Int}

/-- Words are combined like integers with infinitely many bits. -/
theorem onWords_eq_onInts
    (op : BitOperator)
    (firstSmall : first.natAbs < 2 ^ 63)
    (secondSmall : second.natAbs < 2 ^ 63) :
    SymbolicAlgebra.onWords op.onWords first second = op.onInts first second := by
  have bounds :=
    @bitwise_bounds op.onBits 63 first second (by omega) (by omega) (by omega)
      (by omega)
  rw [SymbolicAlgebra.onWords, ← op.ofInt_onInts, op.onInts_eq_bitwise]
  apply BitVec.toInt_ofInt_eq_self <;> omega

/-- An evaluator combines the words that its operands equal. -/
theorem evaluate_eq_finite
    (op : BitOperator)
    (lhsWhole : integer? lhs = some first)
    (lhsSmall : first.natAbs < 2 ^ 63)
    (rhsWhole : integer? rhs = some second)
    (rhsSmall : second.natAbs < 2 ^ 63) :
    op.evaluator.evaluate lhs rhs =
      Evaluator.finite
        (floatOfInt (SymbolicAlgebra.onWords op.onWords first second)) := by
  have lhsWord := Evaluator.word_eq lhsWhole lhsSmall
  have rhsWord := Evaluator.word_eq rhsWhole rhsSmall
  cases op <;>
    simp only [evaluator, Evaluator.evaluate, Evaluator.bitwise, lhsWord, rhsWord] <;>
      rfl

end Operands

/-- An evaluator makes a literal of the exact result, rounded to 53 significant digits. -/
structure Evaluates
    (op : BitOperator)
    (lhs rhs value : Float)
    (exact result : Int) : Prop where
  succeeds :
    op.evaluator.evaluate lhs rhs = .ok (.number value)
  equals :
    integer? value = some result
  nearest :
    2 * (result - exact).natAbs ≤ 2 ^ (exact.natAbs.log2 - 52)
  isExact :
    FitsFloat exact.natAbs → result = exact
  accepted :
    result.natAbs ≠ 2 ^ 63 → word? value = some result

section Operands

variable {lhs rhs : Float} {first second : Int}

/-- The result of two words is rounded, and a word again unless it is rounded up too far. -/
theorem exists_evaluates
    (op : BitOperator)
    (lhsWhole : integer? lhs = some first)
    (lhsSmall : first.natAbs < 2 ^ 63)
    (rhsWhole : integer? rhs = some second)
    (rhsSmall : second.natAbs < 2 ^ 63) :
    ∃ value result,
      op.Evaluates lhs rhs value
        (SymbolicAlgebra.onWords op.onWords first second) result := by
  have evaluated := op.evaluate_eq_finite lhsWhole lhsSmall rhsWhole rhsSmall
  have magnitude :=
    natAbs_toInt_le (op.onWords (BitVec.ofInt 64 first) (BitVec.ofInt 64 second))
  change (SymbolicAlgebra.onWords op.onWords first second).natAbs ≤ 2 ^ 63 at magnitude
  generalize SymbolicAlgebra.onWords op.onWords first second = exact at *
  have place := log2_le_of_le_two_pow magnitude
  have fits : FitsFloat (roundedInt exact).natAbs := by
    rw [natAbs_roundedInt]
    exact fitsFloat_roundedNat (by omega)
  have bounded : (roundedInt exact).natAbs ≤ 2 ^ 63 := by
    rcases Nat.lt_or_eq_of_le magnitude with below | limit
    · rw [natAbs_roundedInt]
      exact roundedNat_le below
    · have power : FitsFloat (2 ^ 63) :=
        fitsFloat_of_dvd (Nat.dvd_refl (2 ^ 63)) (by decide) (by decide)
      rw [roundedInt_eq_self (limit ▸ power)]
      exact magnitude
  obtain ⟨succeeds, value, literal, equals⟩ := Evaluator.computes_finite fits
  rw [floatOfInt_roundedInt, ← evaluated, literal] at succeeds
  refine ⟨value, roundedInt exact, succeeds, equals, roundedInt_nearest exact,
    roundedInt_eq_self, fun below => ?_⟩
  rw [word?, equals]
  exact if_pos (Nat.lt_of_le_of_ne bounded below)

/-- Combining a result with the right operand exclusively once more restores the left operand. -/
theorem evaluate_exclusion_again
    {value : Float}
    (lhsWhole : integer? lhs = some first)
    (lhsSmall : first.natAbs < 2 ^ 63)
    (rhsWhole : integer? rhs = some second)
    (rhsSmall : second.natAbs < 2 ^ 63)
    (equals :
      integer? value =
        some (SymbolicAlgebra.onWords exclusion.onWords first second))
    (small :
      (SymbolicAlgebra.onWords exclusion.onWords first second).natAbs < 2 ^ 63) :
    exclusion.evaluator.evaluate value rhs = .ok (.ofFloat lhs) := by
  have restored :
      SymbolicAlgebra.onWords exclusion.onWords
          (SymbolicAlgebra.onWords exclusion.onWords first second) second =
        first := by
    rw [SymbolicAlgebra.onWords, SymbolicAlgebra.onWords, BitVec.ofInt_toInt]
    simp only [onWords, BitVec.xor_assoc, BitVec.xor_self, BitVec.xor_zero]
    exact toInt_ofInt lhsSmall
  rw [exclusion.evaluate_eq_finite equals small rhsWhole rhsSmall, restored,
    ofFloat_eq_ofInt lhsWhole]
  exact (Evaluator.computes_finite (fitsFloat_of_integer? lhsWhole)).succeeds

/-- The result of a conjunction, or of integers of 54 bits with a sign, fits. -/
theorem fitsFloat_onWords
    (op : BitOperator)
    (lhsWhole : integer? lhs = some first)
    (lhsSmall : first.natAbs < 2 ^ 63)
    (rhsWhole : integer? rhs = some second)
    (rhsSmall : second.natAbs < 2 ^ 63)
    (short :
      op = conjunction ∨
        (-2 ^ 53 ≤ first ∧ first < 2 ^ 53) ∧ -2 ^ 53 ≤ second ∧ second < 2 ^ 53) :
    FitsFloat (SymbolicAlgebra.onWords op.onWords first second).natAbs := by
  rw [op.onWords_eq_onInts lhsSmall rhsSmall]
  rcases short with rfl | ⟨⟨lhsLower, lhsUpper⟩, rhsLower, rhsUpper⟩
  · exact fitsFloat_land (fitsFloat_of_integer? lhsWhole) lhsSmall
      (fitsFloat_of_integer? rhsWhole) rhsSmall
  · exact fitsFloat_of_le
      (op.combine ⟨first, lhsLower, lhsUpper⟩ ⟨second, rhsLower, rhsUpper⟩).natAbs_le

/-- Bitwise evaluators round the two's-complement result of two words to a float.

The result is exact if it fits, as it does for every conjunction and for all operands from `-2 ^ 53` below
`2 ^ 53`.  A word that is combined exclusively with the same operand twice is restored if the first result
is exact and a word. -/
theorem evaluate_words
    (op : BitOperator)
    (lhsWhole : integer? lhs = some first)
    (lhsSmall : first.natAbs < 2 ^ 63)
    (rhsWhole : integer? rhs = some second)
    (rhsSmall : second.natAbs < 2 ^ 63) :
    ∃ value result,
      op.Evaluates lhs rhs value
          (SymbolicAlgebra.onWords op.onWords first second) result ∧
        (op = conjunction ∨
            (-2 ^ 53 ≤ first ∧ first < 2 ^ 53) ∧ -2 ^ 53 ≤ second ∧ second < 2 ^ 53 →
          result = SymbolicAlgebra.onWords op.onWords first second) ∧
        (op = exclusion →
          result = SymbolicAlgebra.onWords op.onWords first second →
          result.natAbs < 2 ^ 63 →
            op.evaluator.evaluate value rhs = .ok (.ofFloat lhs)) := by
  obtain ⟨value, result, evaluates⟩ :=
    op.exists_evaluates lhsWhole lhsSmall rhsWhole rhsSmall
  refine ⟨value, result, evaluates, fun short => ?_, ?_⟩
  · exact evaluates.isExact
      (op.fitsFloat_onWords lhsWhole lhsSmall rhsWhole rhsSmall short)
  · rintro rfl rfl small
    exact evaluate_exclusion_again lhsWhole lhsSmall rhsWhole rhsSmall
      evaluates.equals small

/-- An even integer of 54 bits, combined exclusively with a small one twice. -/
theorem evaluate_words_exclusion :
    ∃ value,
      exclusion.evaluator.evaluate 9007199254740994 6 = .ok (.number value) ∧
        integer? value = some 9007199254740996 ∧
        exclusion.evaluator.evaluate value 6 = .ok (.ofFloat 9007199254740994) := by
  have lhsWhole : integer? 9007199254740994 = some 9007199254740994 := by decide
  have rhsWhole : integer? 6 = some 6 := by decide
  have combined :
      SymbolicAlgebra.onWords exclusion.onWords 9007199254740994 6 =
        9007199254740996 := by
    decide
  obtain ⟨value, result, evaluates, -, restores⟩ :=
    exclusion.evaluate_words lhsWhole (by decide) rhsWhole (by decide)
  rw [combined] at evaluates restores
  obtain rfl : result = 9007199254740996 :=
    evaluates.isExact ⟨by decide, by decide⟩
  exact ⟨value, evaluates.succeeds, evaluates.equals, restores rfl rfl (by decide)⟩

/-- A result with 54 significant digits is rounded, and one that is rounded to `2 ^ 63` is no word. -/
theorem evaluate_exclusion_rounded :
    SymbolicAlgebra.onWords exclusion.onWords 9007199254740994 1 = 9007199254740995 ∧
      exclusion.evaluator.evaluate 9007199254740994 1 =
        .ok (.number 9007199254740996) ∧
      exclusion.evaluator.evaluate 9007199254740996 1 ≠
        .ok (.number 9007199254740994) ∧
      exclusion.evaluator.evaluate 9223372036854774784 1023 =
        .ok (.number 9223372036854775808) ∧
      exclusion.evaluator.evaluate 9223372036854775808 1023 =
        .error .notInteger := by
  decide +kernel

end Operands

end BitOperator

end SymbolicAlgebra
