import Mathlib.Data.Nat.Factorization.Basic
import Mathlib.Tactic.Ring
import SymbolicAlgebra.Proofs.Number.Arithmetic

/-!
# Powers of small integers are exact

Below `2 ^ 53` a natural power of the float of an integer is the float of the power.  The mantissa is odd once
its factors of two have gone to the exponent, and both parts are raised without loss.
-/

namespace SymbolicAlgebra

open Float.Model.UnpackedFloat

/-! ## Factors of two -/

/-- All factors of two leave the mantissa if there are enough steps. -/
theorem withoutTwos_eq
    {core twos steps : Nat}
    (odd : core % 2 = 1)
    (enough : twos ≤ steps)
    (exponent : Int) :
    withoutTwos (core * 2 ^ twos) exponent steps = (core, exponent + twos) := by
  induction twos generalizing exponent steps with
  | zero =>
      rw [Nat.pow_zero, Nat.mul_one, Nat.cast_zero, Int.add_zero]
      cases steps with
      | zero =>
          rfl
      | succ steps =>
          rw [withoutTwos, if_neg (by omega)]
  | succ twos inductionHypothesis =>
      obtain ⟨steps, rfl⟩ := Nat.exists_eq_add_of_le' enough
      have halves : core * 2 ^ (twos + 1) = core * 2 ^ twos * 2 := by
        rw [Nat.pow_succ, Nat.mul_assoc]
      rw [← Nat.add_assoc, withoutTwos, halves, if_pos (Nat.mul_mod_left _ 2),
        Nat.mul_div_cancel _ Nat.two_pos,
        inductionHypothesis (Nat.le_add_left _ _)]
      congr 1
      omega

theorem withoutTwos_zero
    (exponent : Int)
    (steps : Nat) :
    (withoutTwos 0 exponent steps).1 = 0 := by
  induction steps generalizing exponent with
  | zero =>
      rfl
  | succ steps inductionHypothesis =>
      exact inductionHypothesis _

/-- The exact parts of the float of a small integer. -/
theorem ofFloat?_floatOfInt
    (sign : Sign)
    {number : Nat}
    (positive : 0 < number)
    (small : number < 2 ^ 53) :
    Binary.ofFloat? (floatOfInt (sign.apply number)) =
      some ⟨sign == .negative, number * 2 ^ (52 - number.log2),
        number.log2 - 52⟩ := by
  have fits : FitsFloat number :=
    fitsFloat_of_le (Nat.le_of_lt small)
  obtain ⟨fraction, assembly, mantissa⟩ :=
    exists_floatOfInt_eq_assembled sign positive small
  obtain ⟨finite, normal⟩ := fieldOfPlace_ne fits.1
  have exponent :
      ((fieldOfPlace number.log2).toNat - 1075 : Int) = number.log2 - 52 := by
    rw [toNat_fieldOfPlace fits.1]
    omega
  rw [assembly, ofFloat?_assembled sign fraction finite normal, exponent,
    Nat.add_comm, mantissa]

/-- A power of two is a scale. -/
theorem scale_eq
    {places : Nat}
    (small : places ≤ 52) :
    scale places = floatOfInt (2 ^ places : Nat) := by
  have log : (2 ^ places).log2 = places :=
    Nat.log2_two_pow
  have whole : 2 ^ places * 2 ^ (52 - places) = 2 ^ 52 := by
    rw [← Nat.pow_add, Nat.add_sub_cancel' small]
  have field : ((places : Int) + 1023).toNat = places + 1023 := by
    omega
  have bits : (places + 1022) * 2 ^ 52 + 2 ^ 52 = (places + 1023) * 2 ^ 52 := by
    ring
  change _ = floatOfNat (2 ^ places)
  rw [scale, if_pos (by omega), floatOfNat, if_neg (Nat.ne_of_gt (Nat.two_pow_pos places))]
  simp only [log, small, if_true, whole, bits, field]
  rw [if_pos (by omega)]

/-- The sign of an exact value. -/
def signOf
    (negative : Bool) : Sign :=
  if negative then .negative else .positive

/-- A small integer that is a mantissa times a power of two is represented. -/
theorem exactFloat?_eq
    (negative : Bool)
    {mantissa places : Nat}
    (positive : 0 < mantissa)
    (small : mantissa * 2 ^ places < 2 ^ 53) :
    exactFloat? negative mantissa places =
      some (floatOfInt
        ((signOf negative).apply (mantissa * 2 ^ places : Nat))) := by
  have mantissaSmall :=
    Nat.lt_of_le_of_lt (Nat.le_mul_of_pos_right mantissa (Nat.two_pow_pos places)) small
  have scaleSmall :=
    Nat.lt_of_le_of_lt (Nat.le_mul_of_pos_left (2 ^ places) positive) small
  have short : places ≤ 52 := by
    by_contra long
    have large : 2 ^ 53 ≤ 2 ^ places :=
      Nat.pow_le_pow_right Nat.two_pos (by omega)
    omega
  have log := log2_le_of_lt_two_pow mantissaSmall
  have magnitude :
      floatOfNat mantissa * scale places =
        floatOfNat (mantissa * 2 ^ places) := by
    have product :=
      floatOfInt_mul (Int.natCast_ne_zero.mpr (Nat.ne_of_gt positive))
        (Int.natCast_ne_zero.mpr (Nat.ne_of_gt (Nat.two_pow_pos places)))
        (by rwa [← Nat.cast_mul, Int.natAbs_natCast])
    rw [scale_eq short]
    exact product
  have nonzero : mantissa * 2 ^ places ≠ 0 :=
    Nat.ne_of_gt (Nat.mul_pos positive (Nat.two_pow_pos places))
  rw [exactFloat?, if_pos (by omega), magnitude]
  dsimp only
  cases negative with
  | false =>
      rw [if_neg Bool.false_ne_true]
      rfl
  | true =>
      obtain ⟨before, same⟩ := Nat.exists_eq_succ_of_ne_zero nonzero
      rw [if_pos rfl, same]
      rfl

/-! ## Powers -/

/-- A power of an integer has the sign of the integer if the count is odd, and none if it is even. -/
theorem sign_apply_pow
    (sign : Sign)
    (number count : Nat) :
    sign.apply number ^ count =
      (signOf (sign == .negative && decide ((count : Int) % 2 = 1))).apply
        (number ^ count : Nat) := by
  cases sign with
  | positive =>
      exact (Nat.cast_pow number count).symm
  | negative =>
      change (-(number : Int)) ^ count = _
      by_cases odd : (count : Int) % 2 = 1
      · have isOdd : Odd count := Nat.odd_iff.mpr (by omega)
        rw [isOdd.neg_pow, decide_eq_true odd]
        exact congrArg (- ·) (Nat.cast_pow number count).symm
      · have isEven : Even count := Nat.even_iff.mpr (by omega)
        rw [isEven.neg_pow, decide_eq_false odd]
        exact (Nat.cast_pow number count).symm

/-- A power of a small integer other than zero is exact. -/
theorem exactPower?_floatOfInt
    {base : Int}
    {count : Nat}
    (nonzero : base ≠ 0)
    (counts : count ≠ 0)
    (small : (base ^ count).natAbs < 2 ^ 53) :
    exactPower? (floatOfInt base) count = some (floatOfInt (base ^ count)) := by
  obtain ⟨sign, number, positive, rfl⟩ := exists_sign_apply nonzero
  rw [Int.natAbs_pow, natAbs_sign_apply] at small
  have numberSmall := Nat.lt_of_le_of_lt (Nat.le_self_pow counts number) small
  obtain ⟨twos, core, odd, same⟩ :=
    Nat.exists_eq_two_pow_mul_odd (Nat.ne_of_gt positive)
  have corePositive : 0 < core := odd.pos
  rw [Nat.mul_comm] at same
  have log : number.log2 = core.log2 + twos := by
    rw [same, log2_mul_two_pow corePositive]
  have short := log2_le_of_lt_two_pow numberSmall
  have mantissa :
      number * 2 ^ (52 - number.log2) = core * 2 ^ (52 - core.log2) := by
    have places : twos + (52 - number.log2) = 52 - core.log2 := by
      omega
    rw [← places, Nat.pow_add, ← Nat.mul_assoc, ← same]
  have parts :
      withoutTwos (number * 2 ^ (52 - number.log2)) (number.log2 - 52) 53 =
        (core, (twos : Int)) := by
    have exponent :
        (number.log2 - 52 : Int) + (52 - core.log2 : Nat) = twos := by
      omega
    rw [mantissa, withoutTwos_eq (Nat.odd_iff.mp odd) (by omega), exponent]
  have powers : core ^ count * 2 ^ (twos * count) = number ^ count := by
    rw [same, Nat.mul_pow, ← Nat.pow_mul]
  have coreSmall : core ^ count < 2 ^ 53 := by
    rw [← powers] at small
    exact Nat.lt_of_le_of_lt
      (Nat.le_mul_of_pos_right _ (Nat.two_pow_pos _)) small
  have exact :
      exactFloat? (sign == .negative && decide ((count : Int) % 2 = 1))
          (core ^ count) (twos * count : Nat) =
        some (floatOfInt (sign.apply number ^ count)) := by
    rw [exactFloat?_eq _ (Nat.pow_pos corePositive) (by rwa [powers]), powers,
      sign_apply_pow]
  simp only [exactPower?, ofFloat?_floatOfInt sign positive numberSmall, parts]
  rw [if_neg (Nat.ne_of_gt corePositive)]
  split
  · rename_i one
    rw [one, Nat.one_pow] at exact
    exact exact
  · rename_i notOne
    have few : count < 53 := by
      by_contra many
      have large : 2 ^ 53 ≤ core ^ count :=
        Nat.le_trans (Nat.pow_le_pow_right Nat.two_pos (by omega))
          (Nat.pow_le_pow_left (by omega) count)
      omega
    rw [if_pos (by omega)]
    exact exact

theorem exactPower?_zero
    {count : Nat}
    (counts : count ≠ 0) :
    exactPower? (floatOfInt 0) count = some (floatOfInt 0) := by
  have parts : Binary.ofFloat? (floatOfInt 0) = some ⟨false, 0, -1074⟩ := by
    decide
  have positive : (0 : Int) < count := by
    omega
  have exact : exactFloat? false 0 0 = some (floatOfInt 0) := by
    decide
  simp only [exactPower?, parts, withoutTwos_zero, Bool.false_and, if_true,
    positive, exact]

/-- A natural power of the float of a small integer is the float of the power. -/
theorem power_floatOfInt
    {base : Int}
    {count : Nat}
    (baseSmall : base.natAbs < 2 ^ 53)
    (countSmall : count < 2 ^ 53)
    (small : (base ^ count).natAbs < 2 ^ 53) :
    power (floatOfInt base) (floatOfInt count) = floatOfInt (base ^ count) := by
  have countNatAbs : (count : Int).natAbs < 2 ^ 53 :=
    countSmall
  have integral : integer? (floatOfInt count) = some (count : Int) :=
    (floatOfInt_isExactly (fitsFloat_of_le (Nat.le_of_lt countNatAbs))).integer?_eq
  rw [power, floatOfInt_beq_zero countNatAbs, floatOfInt_beq_one baseSmall,
    floatOfInt_beq_one countNatAbs, integral]
  by_cases unit : count = 0 ∨ base = 1
  · have one : base ^ count = 1 := by
      rcases unit with rfl | rfl
      · exact pow_zero base
      · exact one_pow count
    rw [if_pos (by simpa using unit), one, floatOfInt_one]
  · obtain ⟨counts, notOne⟩ := not_or.mp unit
    rw [if_neg (by simpa using unit)]
    by_cases first : count = 1
    · rw [if_pos (by simpa using first), first, pow_one]
    · rw [if_neg (by simpa using first)]
      dsimp only
      by_cases zero : base = 0
      · subst zero
        rw [exactPower?_zero counts, Option.getD_some, zero_pow counts]
      · rw [exactPower?_floatOfInt zero counts small, Option.getD_some]

/-- The float of a natural number is not negative. -/
theorem floatOfInt_natCast_not_lt_zero
    {count : Nat}
    (small : count < 2 ^ 53) :
    ¬floatOfInt count < 0 := by
  intro negative
  have compared :
      ((floatOfInt count).toModel.unpack.compare (0 : Float).toModel.unpack) =
        some .lt :=
    eq_of_beq (of_decide_eq_true negative)
  have zeroUnpacked : (0 : Float).toModel.unpack = .zero .positive := by
    rw [← floatOfInt_zero]
    exact unpack_floatOfInt_zero
  rw [zeroUnpacked] at compared
  rcases Nat.eq_zero_or_pos count with rfl | positive
  · rw [Nat.cast_zero, unpack_floatOfInt_zero] at compared
    cases compared
  · have unpacked :
        (floatOfInt count).toModel.unpack =
          unpackedInt .positive count positive :=
      (floatOfInt_sign_apply .positive positive small).1
    rw [unpacked] at compared
    cases compared

/-- Raising the literal of a small integer to a natural power is exact. -/
theorem evaluate_pow
    {base : Int}
    {count : Nat}
    (baseSmall : base.natAbs < 2 ^ 53)
    (countSmall : count < 2 ^ 53)
    (small : (base ^ count).natAbs < 2 ^ 53) :
    Evaluator.pow.evaluate (floatOfInt base) (floatOfInt count) =
      .ok (.number (floatOfInt (base ^ count))) := by
  have notNegative : decide (floatOfInt count < 0) = false :=
    decide_eq_false (floatOfInt_natCast_not_lt_zero countSmall)
  rw [Evaluator.evaluate, notNegative, Bool.and_false, if_neg Bool.false_ne_true,
    power_floatOfInt baseSmall countSmall small]
  exact finite_floatOfInt small

end SymbolicAlgebra
