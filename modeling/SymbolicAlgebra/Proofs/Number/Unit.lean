import SymbolicAlgebra.Number.Power
import SymbolicAlgebra.Proofs.Number.Arithmetic
import SymbolicAlgebra.Proofs.Number.Rational

/-!
# Multiplying by one

Multiplying a finite float by one gives the float back, bit by bit, and so does its first power.
-/

namespace SymbolicAlgebra

open Float.Model (Format totalExponent)
open Float.Model.UnpackedFloat

/-- Nothing of a float is lost when it is unpacked. -/
theorem ofModel_pack_unpack
    (value : Float) :
    Float.ofModel (.pack value.toModel.unpack) = value := by
  rw [← Float.toBits_inj, ← UInt64.toBitVec_inj]
  exact pack_unpack_of_valid value.toModel.valid (by decide)

/-- A finite float has a sign, an exponent field that is not all ones, and a fraction. -/
theorem exists_unpack_eq_finiteValue
    {value : Float}
    (isFinite : value.isFinite = true) :
    ∃ sign field fraction,
      field ≠ -1#11 ∧ value.toModel.unpack = finiteValue sign field fraction := by
  let bits : BitVec Format.binary64.numBits := value.toModel.toBits.toBitVec
  have finite : unpackExponent bits ≠ -1#11 := by
    intro allOnes
    change (unpack Format.binary64 bits).isFinite = true at isFinite
    unfold unpack at isFinite
    rw [if_pos allOnes] at isFinite
    split at isFinite <;> cases isFinite
  exact ⟨_, _, _, finite, unpack_eq_finiteValue rfl rfl rfl finite⟩

/-- The exponent of such a value is the one that its mantissa is rounded to. -/
theorem targetExponent_of_finiteValue
    {sign sign' : Sign}
    {field : BitVec 11}
    {fraction : BitVec 52}
    {mantissa : Nat}
    {exponent : Int}
    {positive : 0 < mantissa}
    (same :
      finiteValue sign field fraction =
        .finite sign' mantissa exponent positive) :
    Format.binary64.targetExponent (totalExponent mantissa exponent) =
      exponent := by
  have fractionBound := fraction.isLt
  unfold finiteValue at same
  split at same
  · split at same
    · cases same
    · cases same
      have short := Nat.log2_lt (Nat.ne_of_gt positive) |>.mpr fractionBound
      have significant : Format.binary64.mantissaBits = 53 := by
        decide
      have lowest : Format.binary64.minExponent = -1074 := by
        decide
      rw [Format.targetExponent, significant, lowest, totalExponent]
      omega
  · rename_i normal
    cases same
    have leading : (2 ^ 52 + fraction.toNat).log2 = 52 := by
      rw [Nat.log2_eq_iff (by omega)]
      omega
    have notFirst : field.toNat ≠ 0 :=
      BitVec.toNat_ne.mp normal
    exact targetExponent_eq (by rw [leading]; omega) (by omega)

/-- One is neutral among the unpacked forms of finite floats. -/
theorem unpackedInt_one_mul
    (sign : Sign)
    (field : BitVec 11)
    (fraction : BitVec 52) :
    (unpackedInt .positive 1 Nat.one_pos).mul Format.binary64
        (finiteValue sign field fraction) =
      finiteValue sign field fraction := by
  have sameSign : Sign.positive * sign = sign := by
    cases sign <;> rfl
  rcases finiteValue_cases field fraction with zero | ⟨mantissa, exponent, positive, same⟩
  · rw [zero]
    exact congrArg _ sameSign
  · rw [same]
    change roundWithAccuracy Format.binary64 (Sign.positive * sign)
      (1 * 2 ^ 52 * mantissa) (-52 + exponent) .exact = _
    have rounded :=
      @roundWithAccuracy_shifted sign mantissa 52 exponent positive
        (targetExponent_of_finiteValue (same sign))
    rw [sameSign, Nat.one_mul, Nat.mul_comm, Int.add_comm]
    exact rounded

/-- Multiplying a finite float by one changes no bit of it. -/
theorem one_mul_of_isFinite
    {value : Float}
    (isFinite : value.isFinite = true) :
    1 * value = value := by
  obtain ⟨sign, field, fraction, -, unpacked⟩ :=
    exists_unpack_eq_finiteValue isFinite
  have one : (1 : Float).toModel.unpack = unpackedInt .positive 1 Nat.one_pos := by
    rw [← floatOfInt_one]
    exact (floatOfInt_sign_apply .positive Nat.one_pos (by decide)).1
  change Float.ofModel (.pack ((1 : Float).toModel.unpack.mul Format.binary64
    value.toModel.unpack)) = value
  rw [one, unpacked, unpackedInt_one_mul, ← unpacked, ofModel_pack_unpack]

/-- First powers are exact. -/
theorem power_one_eq
    (value : Float) :
    power value 1 = value := by
  unfold power
  split
  · rename_i trivial
    rw [one_beq_zero, Bool.false_or] at trivial
    exact (eq_one_of_beq trivial).symm
  · rfl

end SymbolicAlgebra
