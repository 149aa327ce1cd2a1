import SymbolicAlgebra.Number.Binary

/-!
# Floats from their parts

A float that is neither infinite nor NaN is put together from a sign, an exponent field that is not
all ones, and a fraction.  Taking it apart and packing it again loses nothing, so its bits, its
negative and its exact value can be read off these parts.
-/

namespace SymbolicAlgebra

open Float.Model (Format UnpackedFloat)
open Float.Model.UnpackedFloat

/-- The value of a sign, an exponent field that is not all ones, and a fraction. -/
def finiteValue
    (sign : Sign)
    (field : BitVec 11)
    (fraction : BitVec 52) : UnpackedFloat :=
  if field = 0#11 then
    if zero : fraction = 0#52 then
      .zero sign
    else
      .finite sign fraction.toNat (-1074) (by simpa [BitVec.toNat_pos, BitVec.pos_iff_ne_zero])
  else
    .finite sign (2 ^ 52 + fraction.toNat) (field.toNat - 1075) (by omega)

/-- Whatever its sign, such a value is zero, or it has a significand and an exponent. -/
theorem finiteValue_cases
    (field : BitVec 11)
    (fraction : BitVec 52) :
    (∀ sign, finiteValue sign field fraction = .zero sign) ∨
      ∃ mantissa exponent positive,
        ∀ sign,
          finiteValue sign field fraction =
            .finite sign mantissa exponent positive := by
  unfold finiteValue
  by_cases subnormal : field = 0#11
  · by_cases zero : fraction = 0#52
    · refine .inl fun sign => ?_
      rw [if_pos subnormal, dif_pos zero]
    · have positive : 0 < fraction.toNat :=
        Nat.pos_of_ne_zero (BitVec.toNat_ne.mp zero)
      refine .inr ⟨fraction.toNat, -1074, positive, fun sign => ?_⟩
      rw [if_pos subnormal, dif_neg zero]
  · refine .inr ⟨2 ^ 52 + fraction.toNat, field.toNat - 1075, by omega, fun sign => ?_⟩
    rw [if_neg subnormal]

theorem unpackSign_packComponents
    (sign : Sign)
    (field : BitVec 11)
    (fraction : BitVec 52) :
    unpackSign (packComponents Format.binary64 sign field fraction) =
      sign.toBitVec := by
  change (sign.toBitVec ++ field ++ fraction).extractLsb' 63 1 = _
  rw [BitVec.extractLsb'_append_eq_of_le (by decide),
    BitVec.extractLsb'_append_eq_of_le (by decide)]
  exact BitVec.extractLsb'_eq_self

theorem toNat_significand
    (fraction : BitVec 52) :
    (1#1 ++ fraction).toNat = 2 ^ 52 + fraction.toNat := by
  rw [BitVec.toNat_append, ← Nat.shiftLeft_add_eq_or_of_lt fraction.isLt]
  simp [Nat.shiftLeft_eq]

/-- Finite values are the same if their significands and exponents are. -/
theorem finite_congr
    {sign : Sign}
    {mantissa mantissa' : Nat}
    {exponent exponent' : Int}
    {positive : 0 < mantissa}
    {positive' : 0 < mantissa'}
    (sameMantissa : mantissa = mantissa')
    (sameExponent : exponent = exponent') :
    UnpackedFloat.finite sign mantissa exponent positive =
      .finite sign mantissa' exponent' positive' := by
  subst sameMantissa sameExponent
  rfl

/-- The unpacked value depends on the three parts of the packed one only. -/
theorem unpack_eq_finiteValue
    {bits : BitVec Format.binary64.numBits}
    {sign : Sign}
    {field : BitVec 11}
    {fraction : BitVec 52}
    (signPart : Sign.ofBitVec (unpackSign bits) = sign)
    (fieldPart : unpackExponent bits = field)
    (fractionPart : unpackMantissa bits = fraction)
    (finite : field ≠ -1#11) :
    unpack Format.binary64 bits = finiteValue sign field fraction := by
  subst signPart fieldPart fractionPart
  unfold unpack finiteValue
  rw [if_neg finite]
  by_cases subnormal : unpackExponent bits = 0#11
  · rw [if_pos subnormal, if_pos subnormal]
    by_cases zero : unpackMantissa bits = 0#52
    · rw [dif_pos zero, dif_pos zero]
    · rw [dif_neg zero, dif_neg zero]
      refine finite_congr rfl ?_
      rw [subnormal]
      rfl
  · rw [if_neg subnormal, if_neg subnormal]
    exact finite_congr (toNat_significand (unpackMantissa bits)) rfl

theorem unpack_packComponents
    (sign : Sign)
    {field : BitVec 11}
    (fraction : BitVec 52)
    (finite : field ≠ -1#11) :
    unpack Format.binary64
        (packComponents Format.binary64 sign field fraction) =
      finiteValue sign field fraction := by
  have restored : Sign.ofBitVec sign.toBitVec = sign := by
    cases sign <;> rfl
  exact unpack_eq_finiteValue
    (by rw [unpackSign_packComponents, restored]) unpackExponent_packComponents
    unpackMantissa_packComponents finite

/-- How a finite value is packed, with the numbers of the 64-bit format put in. -/
theorem pack_finite
    (sign : Sign)
    (mantissa : Nat)
    (exponent : Int)
    (positive : 0 < mantissa) :
    pack Format.binary64 (.finite sign mantissa exponent positive) =
      let biased := (exponent + 1023 + 52).toNat
      if 2 ^ 11 ≤ biased + 1 then
        packedInfinity Format.binary64 sign
      else if mantissa.log2 + 1 = 53 then
        packComponents Format.binary64 sign (BitVec.ofNat 11 biased)
          (BitVec.ofNat 52 mantissa)
      else
        packComponents Format.binary64 sign 0#11 (BitVec.ofNat 52 mantissa) :=
  rfl

theorem pack_finiteValue
    (sign : Sign)
    {field : BitVec 11}
    (fraction : BitVec 52)
    (finite : field ≠ -1#11) :
    pack Format.binary64 (finiteValue sign field fraction) =
      packComponents Format.binary64 sign field fraction := by
  have fractionBound := fraction.isLt
  unfold finiteValue
  by_cases subnormal : field = 0#11
  · subst subnormal
    rw [if_pos rfl]
    by_cases zero : fraction = 0#52
    · subst zero
      rfl
    · rw [dif_neg zero]
      -- A fraction alone is too short to be taken for a significand with its leading one.
      have short : fraction.toNat.log2 + 1 ≠ 53 := by
        have := Nat.log2_lt (BitVec.toNat_ne.mp zero) |>.mpr fractionBound
        omega
      rw [pack_finite]
      simp [short]
  · rw [if_neg subnormal]
    have fieldBound : field.toNat < 2047 := by
      have := field.isLt
      have := BitVec.toNat_ne.mp finite
      simp at this
      omega
    have long : (2 ^ 52 + fraction.toNat).log2 = 52 := by
      rw [Nat.log2_eq_iff (by omega)]
      omega
    have biased :
        ((field.toNat - 1075 : Int) + 1023 + 52).toNat = field.toNat := by
      omega
    have low : BitVec.ofNat 52 (2 ^ 52 + fraction.toNat) = fraction := by
      apply BitVec.eq_of_toNat_eq
      simp [Nat.mod_eq_of_lt fractionBound]
    rw [pack_finite, biased, long, low]
    rw [if_neg (by omega), if_pos rfl]
    simp

theorem toNat_packComponents
    (sign : Sign)
    (field : BitVec 11)
    (fraction : BitVec 52) :
    (packComponents Format.binary64 sign field fraction).toNat =
      (sign.toBitVec.toNat * 2 ^ 11 + field.toNat) * 2 ^ 52 + fraction.toNat := by
  change (sign.toBitVec ++ field ++ fraction).toNat = _
  rw [BitVec.toNat_append, BitVec.toNat_append,
    ← Nat.shiftLeft_add_eq_or_of_lt fraction.isLt,
    ← Nat.shiftLeft_add_eq_or_of_lt field.isLt,
    Nat.shiftLeft_eq, Nat.shiftLeft_eq]

/-- The float with the given sign, exponent field and fraction. -/
def assembled
    (sign : Sign)
    (field : BitVec 11)
    (fraction : BitVec 52) : Float :=
  Float.ofBits
    (UInt64.ofBitVec (packComponents Format.binary64 sign field fraction))

theorem unpack_assembled
    (sign : Sign)
    {field : BitVec 11}
    (fraction : BitVec 52)
    (finite : field ≠ -1#11) :
    (assembled sign field fraction).toModel.unpack =
      finiteValue sign field fraction := by
  change unpack Format.binary64 (pack Format.binary64 (unpack Format.binary64
    (packComponents Format.binary64 sign field fraction))) = _
  rw [unpack_packComponents sign fraction finite,
    pack_finiteValue sign fraction finite,
    unpack_packComponents sign fraction finite]

theorem toBits_assembled
    (sign : Sign)
    {field : BitVec 11}
    (fraction : BitVec 52)
    (finite : field ≠ -1#11) :
    (assembled sign field fraction).toBits.toNat =
      (sign.toBitVec.toNat * 2 ^ 11 + field.toNat) * 2 ^ 52 + fraction.toNat := by
  change (pack Format.binary64 (unpack Format.binary64
    (packComponents Format.binary64 sign field fraction))).toNat = _
  rw [unpack_packComponents sign fraction finite,
    pack_finiteValue sign fraction finite, toNat_packComponents]

/-- Negating a float changes its sign and nothing else. -/
theorem neg_assembled
    (sign : Sign)
    {field : BitVec 11}
    (fraction : BitVec 52)
    (finite : field ≠ -1#11) :
    -assembled sign field fraction = assembled (-sign) field fraction := by
  have flipped :
      (finiteValue sign field fraction).neg =
        finiteValue (-sign) field fraction := by
    rcases finiteValue_cases field fraction with zero | ⟨_, _, _, same⟩
    · rw [zero, zero]
      rfl
    · rw [same, same]
      rfl
  have both :
      (assembled sign field fraction).toModel.unpack.neg =
        unpack Format.binary64
          (packComponents Format.binary64 (-sign) field fraction) := by
    rw [unpack_assembled sign fraction finite, flipped,
      unpack_packComponents (-sign) fraction finite]
  exact congrArg (fun value => Float.ofModel (Float.Model.pack value)) both

theorem isFinite_assembled
    (sign : Sign)
    {field : BitVec 11}
    (fraction : BitVec 52)
    (finite : field ≠ -1#11) :
    (assembled sign field fraction).isFinite = true := by
  change (assembled sign field fraction).toModel.unpack.isFinite = true
  rw [unpack_assembled sign fraction finite]
  rcases finiteValue_cases field fraction with zero | ⟨_, _, _, same⟩
  · rw [zero]
    rfl
  · rw [same]
    rfl

theorem beq_zero_assembled
    (sign : Sign)
    {field : BitVec 11}
    (fraction : BitVec 52)
    (finite : field ≠ -1#11)
    (normal : field ≠ 0#11) :
    (assembled sign field fraction == 0) = false := by
  change (assembled sign field fraction).toModel.unpack.beq (0 : Float).toModel.unpack = false
  have zero : (0 : Float).toModel.unpack = .zero .positive := by
    have positive : (0 : Float) = assembled .positive 0#11 0#52 := by
      decide
    rw [positive, unpack_assembled .positive 0#52 (by decide)]
    rfl
  rw [unpack_assembled sign fraction finite, zero, finiteValue, if_neg normal]
  cases sign <;> rfl

/-- The exact value of a float with its leading one in place. -/
theorem ofFloat?_assembled
    (sign : Sign)
    {field : BitVec 11}
    (fraction : BitVec 52)
    (finite : field ≠ -1#11)
    (normal : field ≠ 0#11) :
    Binary.ofFloat? (assembled sign field fraction) =
      some ⟨sign == .negative, fraction.toNat + 2 ^ 52, field.toNat - 1075⟩ := by
  have fractionBound := fraction.isLt
  have fieldBound := field.isLt
  have notLast : field.toNat ≠ 2047 :=
    BitVec.toNat_ne.mp finite
  have notFirst : field.toNat ≠ 0 :=
    BitVec.toNat_ne.mp normal
  have negative :
      Binary.signOf (assembled sign field fraction) = (sign == .negative) := by
    unfold Binary.signOf
    rw [toBits_assembled sign fraction finite]
    cases sign with
    | negative =>
        apply decide_eq_true
        simp [Sign.toBitVec]
        omega
    | positive =>
        apply decide_eq_false
        simp [Sign.toBitVec]
        omega
  have quotient :
      (assembled sign field fraction).toBits.toNat / 2 ^ 52 % 2 ^ 11 = field.toNat := by
    rw [toBits_assembled sign fraction finite]
    omega
  have remainder :
      (assembled sign field fraction).toBits.toNat % 2 ^ 52 = fraction.toNat := by
    rw [toBits_assembled sign fraction finite]
    omega
  simp only [Binary.ofFloat?, quotient, remainder, notLast, notFirst, negative, if_false]
  rfl

end SymbolicAlgebra
