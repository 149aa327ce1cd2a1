import SymbolicAlgebra.Operator.Evaluator
import SymbolicAlgebra.Proofs.Number.Exact

/-!
# Arithmetic on small integers is exact

Below `2 ^ 53` the floats of two integers add, subtract and multiply to the float of the sum, the
difference and the product.  Such an integer has one unpacked form, whose mantissa has its leading one
at place 52, and rounding finds this form from every other one.
-/

namespace SymbolicAlgebra

open Float.Model (Format UnpackedFloat totalExponent)
open Float.Model.UnpackedFloat

/-! ## The unpacked form of an integer -/

/-- The unpacked form of a number below `2 ^ 53` with a sign. -/
def unpackedInt
    (sign : Sign)
    (number : Nat)
    (positive : 0 < number) : UnpackedFloat :=
  .finite sign (number * 2 ^ (52 - number.log2)) (number.log2 - 52)
    (Nat.mul_pos positive (Nat.two_pow_pos _))

theorem log2_mul_two_pow
    {number : Nat}
    (positive : 0 < number)
    (places : Nat) :
    (number * 2 ^ places).log2 = number.log2 + places := by
  have nonzero := Nat.ne_of_gt positive
  obtain ⟨lower, upper⟩ :=
    (Nat.log2_eq_iff nonzero).mp (rfl : number.log2 = number.log2)
  rw [Nat.log2_eq_iff (Nat.mul_ne_zero nonzero (Nat.ne_of_gt (Nat.two_pow_pos _)))]
  constructor
  · rw [Nat.pow_add]
    exact Nat.mul_le_mul_right _ lower
  · rw [Nat.add_right_comm, Nat.pow_add]
    exact Nat.mul_lt_mul_of_pos_right upper (Nat.two_pow_pos places)

/-- The sign and the magnitude of an integer that is not zero. -/
theorem exists_sign_apply
    {whole : Int}
    (nonzero : whole ≠ 0) :
    ∃ (sign : Sign) (number : Nat),
      0 < number ∧ whole = sign.apply number := by
  rcases Int.lt_or_gt_of_ne nonzero with negative | positive
  · refine ⟨.negative, whole.natAbs, by omega, ?_⟩
    change whole = -(whole.natAbs : Int)
    omega
  · refine ⟨.positive, whole.natAbs, by omega, ?_⟩
    change whole = (whole.natAbs : Int)
    omega

theorem natAbs_sign_apply
    (sign : Sign)
    (number : Nat) :
    (sign.apply number).natAbs = number := by
  cases sign <;> simp [Sign.apply]

/-- The float of a small integer is assembled from its sign, the place of its first digit and its later digits. -/
theorem exists_floatOfInt_eq_assembled
    (sign : Sign)
    {number : Nat}
    (positive : 0 < number)
    (small : number < 2 ^ 53) :
    ∃ fraction : BitVec 52,
      floatOfInt (sign.apply number) =
          assembled sign (fieldOfPlace number.log2) fraction ∧
        2 ^ 52 + fraction.toNat = number * 2 ^ (52 - number.log2) := by
  have fits : FitsFloat number :=
    fitsFloat_of_le (Nat.le_of_lt small)
  obtain ⟨fraction, same, value⟩ := floatOfNat_eq_assembled (Nat.ne_of_gt positive) fits
  refine ⟨fraction, ?_, ?_⟩
  · cases sign with
    | positive =>
        exact same
    | negative =>
        obtain ⟨before, rfl⟩ := Nat.exists_eq_succ_of_ne_zero (Nat.ne_of_gt positive)
        exact (congrArg (- ·) same).trans
          (neg_assembled .positive fraction (fieldOfPlace_ne fits.1).1)
  · rw [value, Nat.sub_eq_zero_of_le (log2_le_of_lt_two_pow small), Nat.pow_zero,
      Nat.mul_one]

/-- The float of a small integer is packed from its unpacked form and unpacks to it. -/
theorem floatOfInt_sign_apply
    (sign : Sign)
    {number : Nat}
    (positive : 0 < number)
    (small : number < 2 ^ 53) :
    (floatOfInt (sign.apply number)).toModel.unpack =
        unpackedInt sign number positive ∧
      Float.ofModel (.pack (unpackedInt sign number positive)) =
        floatOfInt (sign.apply number) := by
  have fits : FitsFloat number :=
    fitsFloat_of_le (Nat.le_of_lt small)
  obtain ⟨fraction, assembly, mantissa⟩ :=
    exists_floatOfInt_eq_assembled sign positive small
  obtain ⟨finite, normal⟩ := fieldOfPlace_ne fits.1
  have form :
      finiteValue sign (fieldOfPlace number.log2) fraction =
        unpackedInt sign number positive := by
    have exponent :
        ((fieldOfPlace number.log2).toNat - 1075 : Int) = number.log2 - 52 := by
      rw [toNat_fieldOfPlace fits.1]
      omega
    rw [finiteValue, if_neg normal]
    congr 1
  constructor
  · rw [assembly, unpack_assembled sign fraction finite, form]
  · rw [assembly, ← form]
    refine Eq.trans ?_ (congrArg (fun value => Float.ofModel (.pack value))
      (unpack_packComponents sign fraction finite)).symm
    rfl

theorem unpack_floatOfInt_zero :
    (floatOfInt 0).toModel.unpack = .zero .positive := by
  have positive : floatOfInt 0 = assembled .positive 0#11 0#52 := by
    decide
  rw [positive, unpack_assembled .positive 0#52 (by decide)]
  rfl

theorem pack_zero :
    Float.ofModel (.pack (.zero .positive)) = floatOfInt 0 := by
  decide

/-! ## Rounding -/

/-- A mantissa with trailing zeros loses nothing else when these are shifted out. -/
theorem repeat_shiftRightOne
    (mantissa places : Nat) :
    places.repeat ExtendedMantissa.shiftRightOne
        ⟨mantissa * 2 ^ places, false, false⟩ =
      ⟨mantissa, false, false⟩ := by
  induction places generalizing mantissa with
  | zero =>
      simp [Nat.repeat]
  | succ places inductionHypothesis =>
      have again :
          mantissa * 2 ^ (places + 1) = mantissa * 2 * 2 ^ places := by
        rw [Nat.pow_succ', Nat.mul_assoc]
      rw [Nat.repeat, again, inductionHypothesis (mantissa * 2)]
      simp [ExtendedMantissa.shiftRightOne]

theorem targetExponent_eq
    {mantissa : Nat}
    {exponent target : Int}
    (total : mantissa.log2 + exponent = target + 52)
    (least : -1074 ≤ target) :
    Format.binary64.targetExponent (totalExponent mantissa exponent) =
      target := by
  have significant : Format.binary64.mantissaBits = 53 := by
    decide
  have lowest : Format.binary64.minExponent = -1074 := by
    decide
  rw [Format.targetExponent, significant, lowest, totalExponent]
  omega

/-- Rounding shifts a number back whose leading one stands too high. -/
theorem roundWithAccuracy_shifted
    (sign : Sign)
    {mantissa places : Nat}
    {exponent : Int}
    (positive : 0 < mantissa)
    (target :
      Format.binary64.targetExponent (totalExponent mantissa exponent) =
        exponent) :
    roundWithAccuracy Format.binary64 sign (mantissa * 2 ^ places)
        (exponent - places) .exact =
      .finite sign mantissa exponent positive := by
  have sameTotal :
      totalExponent (mantissa * 2 ^ places) (exponent - places) =
        totalExponent mantissa exponent := by
    rw [totalExponent, totalExponent, log2_mul_two_pow positive]
    omega
  have first :
      shiftToTargetExponent Format.binary64 (mantissa * 2 ^ places)
          (exponent - places) .exact =
        (⟨mantissa, false, false⟩, exponent) := by
    have amount : (exponent - (exponent - places)).toNat = places := by
      omega
    simp only [shiftToTargetExponent, sameTotal, target, shiftToExponent,
      amount]
    exact Prod.ext (repeat_shiftRightOne mantissa places)
      (by simp only; omega)
  have second :
      shiftToTargetExponent Format.binary64 mantissa exponent .exact =
        (⟨mantissa, false, false⟩, exponent) := by
    have amount : (exponent - exponent).toNat = 0 := by
      omega
    simp only [shiftToTargetExponent, target, shiftToExponent, amount]
    exact Prod.ext rfl (by simp only; omega)
  have rounded :
      (⟨mantissa, false, false⟩ : ExtendedMantissa).roundedMantissa =
        mantissa :=
    rfl
  unfold roundWithAccuracy
  rw [first]
  dsimp only
  rw [rounded, second]
  exact dif_neg (Nat.ne_of_gt positive)

theorem log2_mantissa
    {number : Nat}
    (positive : 0 < number)
    (small : number < 2 ^ 53) :
    (number * 2 ^ (52 - number.log2)).log2 = 52 := by
  have := log2_le_of_lt_two_pow small
  rw [log2_mul_two_pow positive]
  omega

/-- Rounding a small number with enough trailing zeros gives its unpacked form. -/
theorem roundWithAccuracy_of_small
    (sign : Sign)
    {number places : Nat}
    (positive : 0 < number)
    (small : number < 2 ^ 53)
    (enough : 52 ≤ number.log2 + places) :
    roundWithAccuracy Format.binary64 sign (number * 2 ^ places) (-places)
        .exact =
      unpackedInt sign number positive := by
  have short := log2_le_of_lt_two_pow small
  obtain ⟨extra, rfl⟩ :=
    Nat.exists_eq_add_of_le (Nat.sub_le_iff_le_add'.mpr enough)
  have exponent :
      (-(52 - number.log2 + extra : Nat) : Int) =
        (number.log2 - 52 : Int) - extra := by
    omega
  rw [exponent, Nat.pow_add, ← Nat.mul_assoc]
  exact roundWithAccuracy_shifted sign _
    (targetExponent_eq (by rw [log2_mantissa positive small]; omega) (by omega))

/-- Rounding a small number with any trailing zeros gives its unpacked form. -/
theorem round_of_small
    (sign : Sign)
    {number places : Nat}
    (positive : 0 < number)
    (small : number < 2 ^ 53) :
    round Format.binary64 sign (number * 2 ^ places) (-places) =
      unpackedInt sign number positive := by
  have short := log2_le_of_lt_two_pow small
  have target :
      Format.binary64.targetExponent
          (totalExponent (number * 2 ^ places) (-places)) =
        number.log2 - 52 :=
    targetExponent_eq (by rw [log2_mul_two_pow positive]; omega) (by omega)
  have amount :
      (-(places : Int) - (number.log2 - 52)).toNat =
        52 - number.log2 - places := by
    omega
  have exponent :
      -(places : Int) - (52 - number.log2 - places : Nat) =
        -(places + (52 - number.log2 - places) : Nat) := by
    omega
  have decreased :
      decreaseExponent (number * 2 ^ places) (-places) (number.log2 - 52) =
        (number * 2 ^ (places + (52 - number.log2 - places)),
          -((places + (52 - number.log2 - places) : Nat) : Int)) := by
    simp only [decreaseExponent, amount, exponent, Nat.shiftLeft_eq,
      Nat.mul_assoc, Nat.pow_add]
  simp only [UnpackedFloat.round, target, decreased]
  exact roundWithAccuracy_of_small sign positive small (by omega)

/-- Normalizing a small integer with any trailing zeros gives its float. -/
theorem pack_normalize
    {whole : Int}
    (small : whole.natAbs < 2 ^ 53)
    (places : Nat) :
    Float.ofModel (.pack (UnpackedFloat.normalize Format.binary64
        (whole * 2 ^ places) (-places) .positive)) =
      floatOfInt whole := by
  by_cases zero : whole = 0
  · subst zero
    rw [Int.zero_mul]
    exact pack_zero
  · obtain ⟨sign, number, positive, rfl⟩ := exists_sign_apply zero
    rw [natAbs_sign_apply] at small
    have shifted : (0 : Int) < number * 2 ^ places :=
      Int.mul_pos (by omega) (Int.pow_pos (by omega))
    have rounded :
        UnpackedFloat.normalize Format.binary64
            (sign.apply number * 2 ^ places) (-places) .positive =
          unpackedInt sign number positive := by
      rw [← round_of_small sign positive small]
      cases sign with
      | positive =>
          rw [Sign.apply, UnpackedFloat.normalize, Int.compare_eq_gt.mpr shifted]
          congr 1
      | negative =>
          rw [Sign.apply, UnpackedFloat.normalize, Int.neg_mul,
            Int.compare_eq_lt.mpr (by omega), Int.neg_neg]
          congr 1
    rw [rounded]
    exact (floatOfInt_sign_apply sign positive small).2

/-! ## Sums and differences -/

theorem decreaseExponent_of_small
    {number places : Nat}
    (short : number.log2 ≤ 52)
    (enough : 52 ≤ number.log2 + places) :
    (decreaseExponent (number * 2 ^ (52 - number.log2)) (number.log2 - 52)
      (-places)).1 = number * 2 ^ places := by
  have amount :
      ((number.log2 - 52 : Int) - -places).toNat =
        places - (52 - number.log2) := by
    omega
  rw [decreaseExponent, amount, Nat.shiftLeft_eq, Nat.mul_assoc, ← Nat.pow_add,
    Nat.add_sub_cancel' (by omega)]

theorem sign_apply_shifted
    (sign : Sign)
    (number places : Nat) :
    sign.apply (number * 2 ^ places : Nat) = sign.apply number * 2 ^ places := by
  rw [Int.natCast_mul, Int.natCast_pow]
  cases sign with
  | positive =>
      rfl
  | negative =>
      exact (Int.neg_mul ..).symm

section Finite

variable {first second : Nat} (firstPositive : 0 < first)
  (secondPositive : 0 < second) (firstSign secondSign : Sign)

/-- Unpacked numbers are added as integers with a common number of trailing zeros. -/
theorem exists_add_unpackedInt
    (firstSmall : first < 2 ^ 53)
    (secondSmall : second < 2 ^ 53) :
    ∃ places : Nat,
      (unpackedInt firstSign first firstPositive).add Format.binary64
          (unpackedInt secondSign second secondPositive) =
        UnpackedFloat.normalize Format.binary64
          ((firstSign.apply first + secondSign.apply second) * 2 ^ places)
          (-places) .positive := by
  have firstShort := log2_le_of_lt_two_pow firstSmall
  have secondShort := log2_le_of_lt_two_pow secondSmall
  have common :
      min (first.log2 - 52 : Int) (second.log2 - 52) =
        -(52 - min first.log2 second.log2 : Nat) := by
    omega
  refine ⟨52 - min first.log2 second.log2, ?_⟩
  unfold unpackedInt UnpackedFloat.add
  dsimp only
  rw [common,
    decreaseExponent_of_small firstShort
      (by omega : 52 ≤ first.log2 + (52 - min first.log2 second.log2)),
    decreaseExponent_of_small secondShort
      (by omega : 52 ≤ second.log2 + (52 - min first.log2 second.log2)),
    sign_apply_shifted, sign_apply_shifted, Int.add_mul]

/-- The product of unpacked numbers is their product as integers if it is small. -/
theorem mul_unpackedInt
    (small : first * second < 2 ^ 53) :
    (unpackedInt firstSign first firstPositive).mul Format.binary64
        (unpackedInt secondSign second secondPositive) =
      unpackedInt (firstSign * secondSign) (first * second)
        (Nat.mul_pos firstPositive secondPositive) := by
  have firstShort :=
    log2_le_of_lt_two_pow
      (Nat.lt_of_le_of_lt (Nat.le_mul_of_pos_right first secondPositive) small)
  have secondShort :=
    log2_le_of_lt_two_pow
      (Nat.lt_of_le_of_lt (Nat.le_mul_of_pos_left second firstPositive) small)
  have leading : first.log2 + second.log2 ≤ (first * second).log2 := by
    rw [Nat.le_log2 (Nat.ne_of_gt (Nat.mul_pos firstPositive secondPositive)),
      Nat.pow_add]
    exact Nat.mul_le_mul (Nat.log2_self_le (Nat.ne_of_gt firstPositive))
      (Nat.log2_self_le (Nat.ne_of_gt secondPositive))
  have mantissa :
      first * 2 ^ (52 - first.log2) * (second * 2 ^ (52 - second.log2)) =
        first * second * 2 ^ (52 - first.log2 + (52 - second.log2)) := by
    rw [Nat.pow_add, Nat.mul_mul_mul_comm]
  have exponent :
      (first.log2 - 52 : Int) + (second.log2 - 52) =
        -(52 - first.log2 + (52 - second.log2) : Nat) := by
    omega
  unfold unpackedInt UnpackedFloat.mul
  dsimp only
  rw [mantissa, exponent]
  exact roundWithAccuracy_of_small _
    (Nat.mul_pos firstPositive secondPositive) small (by omega)

end Finite

variable {first second : Int}

/-- Adding the floats of small integers with a small sum is exact. -/
theorem floatOfInt_add
    (firstSmall : first.natAbs < 2 ^ 53)
    (secondSmall : second.natAbs < 2 ^ 53)
    (small : (first + second).natAbs < 2 ^ 53) :
    floatOfInt first + floatOfInt second = floatOfInt (first + second) := by
  change Float.ofModel (.pack ((floatOfInt first).toModel.unpack.add
    Format.binary64 (floatOfInt second).toModel.unpack)) = _
  by_cases firstZero : first = 0
  · subst firstZero
    rw [unpack_floatOfInt_zero, Int.zero_add]
    by_cases secondZero : second = 0
    · subst secondZero
      rw [unpack_floatOfInt_zero]
      exact pack_zero
    · obtain ⟨sign, number, positive, rfl⟩ := exists_sign_apply secondZero
      rw [natAbs_sign_apply] at secondSmall
      obtain ⟨unpacked, packed⟩ := floatOfInt_sign_apply sign positive secondSmall
      rw [unpacked]
      exact packed
  · obtain ⟨sign, number, positive, rfl⟩ := exists_sign_apply firstZero
    rw [natAbs_sign_apply] at firstSmall
    obtain ⟨unpacked, packed⟩ := floatOfInt_sign_apply sign positive firstSmall
    rw [unpacked]
    by_cases secondZero : second = 0
    · subst secondZero
      rw [unpack_floatOfInt_zero, Int.add_zero]
      exact packed
    · obtain ⟨sign', number', positive', rfl⟩ := exists_sign_apply secondZero
      rw [natAbs_sign_apply] at secondSmall
      obtain ⟨unpacked', -⟩ := floatOfInt_sign_apply sign' positive' secondSmall
      obtain ⟨places, sum⟩ :=
        exists_add_unpackedInt positive positive' sign sign' firstSmall
          secondSmall
      rw [unpacked', sum]
      exact pack_normalize small places

/-- Subtracting is adding the negative. -/
theorem sub_eq_add_neg_unpacked
    (spec : Format)
    (first second : UnpackedFloat) :
    first.sub spec second = first.add spec second.neg := by
  cases first <;> cases second <;> try rfl
  case finite.finite sign mantissa exponent positive sign' mantissa' exponent'
      positive' =>
    have negated (magnitude : Nat) :
        (-sign').apply magnitude = -sign'.apply magnitude := by
      cases sign'
      · exact (Int.neg_neg _).symm
      · rfl
    unfold UnpackedFloat.sub UnpackedFloat.add UnpackedFloat.neg
    dsimp only
    rw [negated, Int.sub_eq_add_neg]

/-- Subtracting the floats of small integers with a small difference is exact. -/
theorem floatOfInt_sub
    (firstSmall : first.natAbs < 2 ^ 53)
    (secondSmall : second.natAbs < 2 ^ 53)
    (small : (first - second).natAbs < 2 ^ 53) :
    floatOfInt first - floatOfInt second = floatOfInt (first - second) := by
  change Float.ofModel (.pack ((floatOfInt first).toModel.unpack.sub
    Format.binary64 (floatOfInt second).toModel.unpack)) = _
  rw [sub_eq_add_neg_unpacked]
  by_cases secondZero : second = 0
  · subst secondZero
    rw [unpack_floatOfInt_zero, Int.sub_zero]
    by_cases firstZero : first = 0
    · subst firstZero
      rw [unpack_floatOfInt_zero]
      exact pack_zero
    · obtain ⟨sign, number, positive, rfl⟩ := exists_sign_apply firstZero
      rw [natAbs_sign_apply] at firstSmall
      obtain ⟨unpacked, packed⟩ := floatOfInt_sign_apply sign positive firstSmall
      rw [unpacked]
      exact packed
  · -- The negative of a number that is not zero is the float of the negative integer.
    have negated :
        (floatOfInt second).toModel.unpack.neg =
          (floatOfInt (-second)).toModel.unpack := by
      obtain ⟨sign, number, positive, rfl⟩ := exists_sign_apply secondZero
      rw [natAbs_sign_apply] at secondSmall
      have flipped : -sign.apply number = (-sign).apply number := by
        cases sign
        · exact Int.neg_neg _
        · rfl
      rw [flipped, (floatOfInt_sign_apply sign positive secondSmall).1,
        (floatOfInt_sign_apply (-sign) positive secondSmall).1]
      rfl
    rw [negated]
    exact floatOfInt_add firstSmall (by omega) small

/-! ## Products -/

theorem unpack_mul
    (first second : Float) :
    first * second =
      Float.ofModel (.pack (first.toModel.unpack.mul Format.binary64
        second.toModel.unpack)) :=
  rfl

theorem mul_comm_unpacked
    (spec : Format)
    (first second : UnpackedFloat) :
    first.mul spec second = second.mul spec first := by
  have signs (sign sign' : Sign) : sign * sign' = sign' * sign := by
    cases sign <;> cases sign' <;> rfl
  cases first <;> cases second <;> unfold UnpackedFloat.mul <;> dsimp only
  case finite.finite sign mantissa exponent positive sign' mantissa' exponent'
      positive' =>
    rw [signs, Nat.mul_comm, Int.add_comm]
  all_goals
    rw [signs]

/-- Zero times anything is a zero or no number. -/
theorem zero_mul_unpacked
    (value : UnpackedFloat) :
    (∃ sign, (UnpackedFloat.zero .positive).mul Format.binary64 value =
        .zero sign) ∨
      (UnpackedFloat.zero .positive).mul Format.binary64 value =
        .notANumber := by
  cases value with
  | infinity sign =>
      exact .inr rfl
  | notANumber =>
      exact .inr rfl
  | zero sign =>
      exact .inl ⟨_, rfl⟩
  | finite sign mantissa exponent positive =>
      exact .inl ⟨_, rfl⟩

/-- A literal zero that was computed has no sign. -/
theorem finite_zero
    (sign : Sign) :
    Evaluator.finite (Float.ofModel (.pack (.zero sign))) =
      .ok (.number (floatOfInt 0)) := by
  have isFinite : (Float.ofModel (.pack (.zero sign))).isFinite = true := by
    cases sign <;> decide
  rw [Evaluator.finite, if_pos isFinite]
  refine congrArg (fun value => Except.ok (Expr.number value)) ?_
  cases sign <;> decide

/-- Zero times a literal is zero if it is anything. -/
theorem evaluate_zero_mul
    {value : Float}
    {result : Expr}
    (evaluated :
      Evaluator.mul.evaluate (floatOfInt 0) value = .ok result) :
    result = .number (floatOfInt 0) := by
  rw [Evaluator.evaluate, unpack_mul, unpack_floatOfInt_zero] at evaluated
  rcases zero_mul_unpacked value.toModel.unpack with ⟨sign, same⟩ | same
  · rw [same, finite_zero] at evaluated
    exact (Except.ok.inj evaluated).symm
  · have infinite :
        (Float.ofModel (.pack .notANumber)).isFinite = false := by
      decide
    rw [same, Evaluator.finite, if_neg (Bool.eq_false_iff.mp infinite)]
      at evaluated
    cases evaluated

/-- A literal times zero is zero if it is anything. -/
theorem evaluate_mul_zero
    {value : Float}
    {result : Expr}
    (evaluated :
      Evaluator.mul.evaluate value (floatOfInt 0) = .ok result) :
    result = .number (floatOfInt 0) := by
  rw [Evaluator.evaluate, unpack_mul, mul_comm_unpacked, ← unpack_mul]
    at evaluated
  exact evaluate_zero_mul evaluated

/-- Multiplying the floats of integers other than zero with a small product is exact. -/
theorem floatOfInt_mul
    (firstNonzero : first ≠ 0)
    (secondNonzero : second ≠ 0)
    (small : (first * second).natAbs < 2 ^ 53) :
    floatOfInt first * floatOfInt second = floatOfInt (first * second) := by
  obtain ⟨sign, number, positive, rfl⟩ := exists_sign_apply firstNonzero
  obtain ⟨sign', number', positive', rfl⟩ := exists_sign_apply secondNonzero
  rw [Int.natAbs_mul, natAbs_sign_apply, natAbs_sign_apply] at small
  have firstSmall :=
    Nat.lt_of_le_of_lt (Nat.le_mul_of_pos_right number positive') small
  have secondSmall :=
    Nat.lt_of_le_of_lt (Nat.le_mul_of_pos_left number' positive) small
  have product :
      sign.apply number * sign'.apply number' =
        (sign * sign').apply (number * number' : Nat) := by
    cases sign <;> cases sign'
    · exact Int.neg_mul_neg _ _
    · exact Int.neg_mul _ _
    · exact Int.mul_neg _ _
    · rfl
  rw [unpack_mul, (floatOfInt_sign_apply sign positive firstSmall).1,
    (floatOfInt_sign_apply sign' positive' secondSmall).1,
    mul_unpackedInt positive positive' sign sign' small, product]
  exact (floatOfInt_sign_apply (sign * sign') _ small).2

/-! ## Literals -/

/-- The literal of a small integer is made without loss. -/
theorem finite_floatOfInt
    {whole : Int}
    (small : whole.natAbs < 2 ^ 53) :
    Evaluator.finite (floatOfInt whole) = .ok (.number (floatOfInt whole)) := by
  have fits : FitsFloat whole.natAbs :=
    fitsFloat_of_le (Nat.le_of_lt small)
  rw [Evaluator.finite, if_pos (floatOfInt_isExactly fits).isFinite]
  exact congrArg Except.ok (Expr.ofInt_eq_number fits)

theorem evaluate_add
    (firstSmall : first.natAbs < 2 ^ 53)
    (secondSmall : second.natAbs < 2 ^ 53)
    (small : (first + second).natAbs < 2 ^ 53) :
    Evaluator.add.evaluate (floatOfInt first) (floatOfInt second) =
      .ok (.number (floatOfInt (first + second))) := by
  rw [Evaluator.evaluate, floatOfInt_add firstSmall secondSmall small]
  exact finite_floatOfInt small

theorem evaluate_sub
    (firstSmall : first.natAbs < 2 ^ 53)
    (secondSmall : second.natAbs < 2 ^ 53)
    (small : (first - second).natAbs < 2 ^ 53) :
    Evaluator.sub.evaluate (floatOfInt first) (floatOfInt second) =
      .ok (.number (floatOfInt (first - second))) := by
  rw [Evaluator.evaluate, floatOfInt_sub firstSmall secondSmall small]
  exact finite_floatOfInt small

/-- Zero times the float of a small integer is zero. -/
theorem finite_zero_mul
    {whole : Int}
    (small : whole.natAbs < 2 ^ 53) :
    Evaluator.finite (floatOfInt 0 * floatOfInt whole) =
      .ok (.number (floatOfInt 0)) := by
  rw [unpack_mul, unpack_floatOfInt_zero]
  by_cases zero : whole = 0
  · subst zero
    rw [unpack_floatOfInt_zero]
    exact finite_zero _
  · obtain ⟨sign, number, positive, rfl⟩ := exists_sign_apply zero
    rw [natAbs_sign_apply] at small
    rw [(floatOfInt_sign_apply sign positive small).1]
    exact finite_zero _

theorem evaluate_mul
    (firstSmall : first.natAbs < 2 ^ 53)
    (secondSmall : second.natAbs < 2 ^ 53)
    (small : (first * second).natAbs < 2 ^ 53) :
    Evaluator.mul.evaluate (floatOfInt first) (floatOfInt second) =
      .ok (.number (floatOfInt (first * second))) := by
  rw [Evaluator.evaluate]
  by_cases firstZero : first = 0
  · subst firstZero
    rw [Int.zero_mul]
    exact finite_zero_mul secondSmall
  · by_cases secondZero : second = 0
    · subst secondZero
      rw [Int.mul_zero, unpack_mul, mul_comm_unpacked, ← unpack_mul]
      exact finite_zero_mul firstSmall
    · rw [floatOfInt_mul firstZero secondZero small]
      exact finite_floatOfInt small

/-! ## Zero, one and minus one -/

@[simp]
theorem floatOfInt_zero :
    floatOfInt 0 = 0 := by
  decide

@[simp]
theorem floatOfInt_one :
    floatOfInt 1 = 1 := by
  decide

@[simp]
theorem floatOfInt_neg_one :
    floatOfInt (-1) = -1 := by
  decide

@[simp]
theorem one_isFinite :
    (1 : Float).isFinite = true := by
  decide

@[simp]
theorem one_beq_zero :
    ((1 : Float) == 0) = false := by
  decide

@[simp]
theorem one_beq_one :
    ((1 : Float) == 1) = true := by
  decide

/-- Different small integers have different floats. -/
theorem floatOfInt_injective
    (firstSmall : first.natAbs < 2 ^ 53)
    (secondSmall : second.natAbs < 2 ^ 53)
    (same : floatOfInt first = floatOfInt second) :
    first = second := by
  have firstWhole :=
    (floatOfInt_isExactly (fitsFloat_of_le (Nat.le_of_lt firstSmall))).integer?_eq
  have secondWhole :=
    (floatOfInt_isExactly (fitsFloat_of_le (Nat.le_of_lt secondSmall))).integer?_eq
  rw [same, secondWhole] at firstWhole
  exact (Option.some.inj firstWhole).symm

theorem floatOfInt_beq_zero
    {whole : Int}
    (small : whole.natAbs < 2 ^ 53) :
    (floatOfInt whole == 0) = decide (whole = 0) :=
  (floatOfInt_isExactly (fitsFloat_of_le (Nat.le_of_lt small))).beq_zero

theorem floatOfInt_isFinite
    {whole : Int}
    (small : whole.natAbs < 2 ^ 53) :
    (floatOfInt whole).isFinite = true :=
  (floatOfInt_isExactly (fitsFloat_of_le (Nat.le_of_lt small))).isFinite

/-- Finite numbers that compare as equal are the same. -/
theorem eq_of_beq_finite
    {sign sign' : Sign}
    {mantissa mantissa' : Nat}
    {exponent exponent' : Int}
    {positive : 0 < mantissa}
    {positive' : 0 < mantissa'}
    (same :
      (UnpackedFloat.finite sign mantissa exponent positive).beq
        (.finite sign' mantissa' exponent' positive') = true) :
    UnpackedFloat.finite sign mantissa exponent positive =
      .finite sign' mantissa' exponent' positive' := by
  have compared :
      UnpackedFloat.compare (.finite sign mantissa exponent positive)
          (.finite sign' mantissa' exponent' positive') = some .eq :=
    eq_of_beq same
  obtain rfl : sign = sign' := by
    cases sign <;> cases sign' <;> first | rfl | cases compared
  have agree :
      (compare exponent exponent').then (compare mantissa mantissa') = .eq := by
    cases sign with
    | negative =>
        exact Ordering.swap_eq_eq.mp (Option.some.inj compared)
    | positive =>
        exact Option.some.inj compared
  rw [Ordering.then_eq_eq, Int.compare_eq_eq, Nat.compare_eq_eq] at agree
  obtain ⟨rfl, rfl⟩ := agree
  rfl

/-- The float of a small integer equals one only if the integer does. -/
theorem floatOfInt_beq_one
    {whole : Int}
    (small : whole.natAbs < 2 ^ 53) :
    (floatOfInt whole == 1) = decide (whole = 1) := by
  by_cases one : whole = 1
  · subst one
    decide
  · rw [decide_eq_false one, Bool.eq_false_iff]
    intro same
    change (floatOfInt whole).toModel.unpack.beq (1 : Float).toModel.unpack =
      true at same
    obtain ⟨unpackedOne, packedOne⟩ :=
      floatOfInt_sign_apply .positive Nat.one_pos (by decide)
    have oneUnpacked :
        (1 : Float).toModel.unpack = unpackedInt .positive 1 Nat.one_pos := by
      rw [← floatOfInt_one]
      exact unpackedOne
    rw [oneUnpacked] at same
    by_cases zero : whole = 0
    · subst zero
      rw [unpack_floatOfInt_zero] at same
      cases same
    · obtain ⟨sign, number, positive, rfl⟩ := exists_sign_apply zero
      rw [natAbs_sign_apply] at small
      obtain ⟨unpacked, packed⟩ := floatOfInt_sign_apply sign positive small
      rw [unpacked] at same
      have samePacked :
          floatOfInt (sign.apply number) = floatOfInt 1 := by
        rw [← packed, unpackedInt, eq_of_beq_finite same]
        exact packedOne
      exact one (floatOfInt_injective (by rwa [natAbs_sign_apply]) (by decide)
        samePacked)

end SymbolicAlgebra
