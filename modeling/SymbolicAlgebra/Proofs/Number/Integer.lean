import SymbolicAlgebra.Proofs.Number.Arithmetic
import SymbolicAlgebra.Proofs.Number.Rational

/-!
# Integral literals

A float that equals an integer is the float nearest to that integer, zero aside, which has two signs.  So
the integer fits, and the literals of a float and of the integer that it equals are the same.  Integers
that fit still fit when they are shifted to the right, and when they are shifted to the left unless the
result is infinite.
-/

namespace SymbolicAlgebra

/-! ## Bits of integral floats -/

/-- The exponent field of the floats whose significand is a whole number. -/
def wholeField : Nat :=
  1075

/-- The bits of a float that equals an integer other than zero, and how they make up the integer. -/
structure IntegralBits
    (value : Float)
    (whole : Int)
    (field fraction : Nat) : Prop where
  field_lt :
    field < 2047
  fraction_lt :
    fraction < 2 ^ 52
  toBits_eq :
    value.toBits.toNat =
      (if whole < 0 then 2 ^ 63 else 0) + field * 2 ^ 52 + fraction
  magnitude :
    whole.natAbs * 2 ^ wholeField = (fraction + 2 ^ 52) * 2 ^ field

/-- A mantissa that is integral when shifted by an exponent field makes up its whole part. -/
theorem Binary.wholePart_mul_two_pow
    {binary : Binary}
    {field : Nat}
    (shift : binary.exponent = Int.ofNat field - 1075)
    (integral : binary.isIntegral = true) :
    binary.wholePart * 2 ^ wholeField = binary.mantissa * 2 ^ field := by
  unfold wholePart
  split
  · rename_i forward
    have places : field = binary.exponent.toNat + wholeField := by
      simp only [Int.ofNat_eq_natCast] at shift
      unfold wholeField
      omega
    rw [places, Nat.pow_add, Nat.mul_assoc]
  · rename_i backward
    have places : field + (-binary.exponent).toNat = wholeField := by
      simp only [Int.ofNat_eq_natCast] at shift
      unfold wholeField
      omega
    have divisible : 2 ^ (-binary.exponent).toNat ∣ binary.mantissa := by
      simp only [isIntegral, backward, decide_false, Bool.false_or, beq_iff_eq]
        at integral
      exact Nat.dvd_of_mod_eq_zero integral
    rw [← places, Nat.pow_add, Nat.mul_comm (2 ^ field), ← Nat.mul_assoc,
      Nat.div_mul_cancel divisible]

theorem Binary.natAbs_truncate
    (binary : Binary) :
    binary.truncate.natAbs = binary.wholePart := by
  unfold truncate
  split <;> omega

/-- The binary form of a float that equals an integer. -/
theorem exists_binary_of_integer?
    {value : Float}
    {whole : Int}
    (integral : integer? value = some whole) :
    ∃ binary,
      Binary.ofFloat? value = some binary ∧ binary.isIntegral = true ∧
        binary.truncate = whole := by
  unfold integer? at integral
  split at integral
  · rename_i binary found
    split at integral
    · rename_i isIntegral
      exact ⟨binary, found, isIntegral, Option.some.inj integral⟩
    · cases integral
  · cases integral

/-- A float of which all bits but the sign are clear equals zero. -/
theorem beq_zero_of_toBits
    {value : Float}
    (clear : value.toBits.toNat % 2 ^ 63 = 0) :
    (value == 0) = true := by
  have below : value.toBits.toNat < 2 ^ 64 := value.toBits.toNat_lt
  have zeroBits : (0 : Float).toBits.toNat = 0 := by decide
  have negZeroBits : (-0 : Float).toBits.toNat = 2 ^ 63 := by decide
  rcases Nat.lt_or_ge value.toBits.toNat (2 ^ 63) with positive | negative
  · obtain rfl : value = 0 :=
      Float.toBits_inj.mp (UInt64.toNat_inj.mp (by omega))
    decide
  · obtain rfl : value = -0 :=
      Float.toBits_inj.mp (UInt64.toNat_inj.mp (by omega))
    decide

/-- A number below `2 ^ 52` is no multiple of the integer one in the smallest exponent. -/
theorem wholePart_eq_zero_of_subnormal
    {whole fraction : Nat}
    (below : fraction < 2 ^ 52)
    (shifted : whole * 2 ^ wholeField = fraction * 2 ^ 1) :
    whole = 0 := by
  by_contra nonzero
  have large : 2 ^ 53 ≤ fraction * 2 ^ 1 := by
    rw [← shifted]
    exact (Nat.pow_le_pow_right (by decide) (by decide)).trans
      (Nat.le_mul_of_pos_left _ (Nat.pos_of_ne_zero nonzero))
  clear shifted
  omega

/-- The bits of a normal float that equals an integer. -/
theorem exists_integralBits_of_normal
    {value : Float}
    {binary : Binary}
    (notSpecial : value.toBits.toNat / 2 ^ 52 % 2 ^ 11 ≠ 2047)
    (negative : binary.negative = Binary.signOf value)
    (mantissa : binary.mantissa = value.toBits.toNat % 2 ^ 52 + 2 ^ 52)
    (exponent :
      binary.exponent = Int.ofNat (value.toBits.toNat / 2 ^ 52 % 2 ^ 11) - 1075)
    (integral : binary.isIntegral = true) :
    binary.truncate ≠ 0 ∧
      ∃ field fraction, IntegralBits value binary.truncate field fraction := by
  have below : value.toBits.toNat < 2 ^ 64 := value.toBits.toNat_lt
  have shifted := Binary.wholePart_mul_two_pow exponent integral
  have magnitude := binary.natAbs_truncate
  rw [mantissa] at shifted
  have nonzero : binary.wholePart ≠ 0 := by
    intro zero
    rw [zero, Nat.zero_mul] at shifted
    exact Nat.ne_of_lt
      (Nat.mul_pos (Nat.add_pos_right _ (Nat.two_pow_pos 52)) (Nat.two_pow_pos _))
      shifted
  have signed : binary.truncate < 0 ↔ 2 ^ 63 ≤ value.toBits.toNat := by
    rw [Binary.truncate, negative, Binary.signOf]
    split <;> simp_all <;> omega
  refine ⟨by omega, value.toBits.toNat / 2 ^ 52 % 2 ^ 11,
    value.toBits.toNat % 2 ^ 52, by omega, by omega, ?_, by rw [magnitude, shifted]⟩
  clear shifted
  split <;> omega

/-- A float that equals an integer is zero, or has bits that make up the integer. -/
theorem beq_zero_or_exists_integralBits
    {value : Float}
    {whole : Int}
    (integral : integer? value = some whole) :
    whole = 0 ∧ (value == 0) = true ∨
      whole ≠ 0 ∧ ∃ field fraction, IntegralBits value whole field fraction := by
  obtain ⟨binary, found, isIntegral, rfl⟩ := exists_binary_of_integer? integral
  have magnitude := binary.natAbs_truncate
  have fractionBelow := Nat.mod_lt value.toBits.toNat (Nat.two_pow_pos 52)
  unfold Binary.ofFloat? at found
  dsimp only at found
  split at found
  · cases found
  · rename_i notSpecial
    split at found
    · rename_i subnormal
      cases found
      have shifted :=
        Binary.wholePart_mul_two_pow
          (show (-1074 : Int) = Int.ofNat 1 - 1075 from rfl) isIntegral
      have wholeZero := wholePart_eq_zero_of_subnormal fractionBelow shifted
      rw [wholeZero] at magnitude
      rw [wholeZero, Nat.zero_mul] at shifted
      have clear : value.toBits.toNat % 2 ^ 52 * 2 ^ 1 = 0 := shifted.symm
      exact .inl ⟨Int.natAbs_eq_zero.mp magnitude,
        beq_zero_of_toBits (by omega)⟩
    · rename_i normal
      cases found
      exact .inr (exists_integralBits_of_normal notSpecial rfl rfl rfl isIntegral)

/-! ## Numbers that fit -/

/-- A short significand fits, shifted to the left by any places that do not make it too large. -/
theorem fitsFloat_mul_two_pow
    {significand places : Nat}
    (short : significand < 2 ^ 53)
    (small : (significand * 2 ^ places).log2 < 1024) :
    FitsFloat (significand * 2 ^ places) := by
  refine ⟨small, ?_⟩
  by_cases zero : significand = 0
  · rw [zero, Nat.zero_mul]
    exact Nat.dvd_zero _
  · have digits := log2_le_of_lt_two_pow short
    rw [log2_mul_two_pow (Nat.pos_of_ne_zero zero)]
    exact (Nat.pow_dvd_pow 2 (by omega)).trans (Nat.dvd_mul_left _ _)

/-- A number that fits is a short significand, shifted to the left. -/
theorem FitsFloat.exists_significand
    {number : Nat}
    (fits : FitsFloat number) :
    ∃ significand places,
      significand < 2 ^ 53 ∧ number = significand * 2 ^ places := by
  obtain ⟨-, significand, same⟩ := fits
  refine ⟨significand, number.log2 - 52, ?_, by rw [Nat.mul_comm, ← same]⟩
  have upper : number < 2 ^ (number.log2 + 1) := Nat.lt_log2_self
  rcases Nat.le_total number.log2 52 with below | above
  · rw [Nat.sub_eq_zero_of_le below, Nat.pow_zero, Nat.one_mul] at same
    exact same ▸ upper.trans_le (Nat.pow_le_pow_right (by decide) (by omega))
  · have split : number.log2 + 1 = (number.log2 - 52) + 53 := by
      omega
    rw [split, Nat.pow_add] at upper
    refine Nat.lt_of_mul_lt_mul_left (lt_of_eq_of_lt same.symm upper)

/-! ## Round trips -/

theorem log2_significand
    {fraction : Nat}
    (below : fraction < 2 ^ 52) :
    (fraction + 2 ^ 52).log2 = 52 := by
  rw [Nat.log2_eq_iff (by omega)]
  omega

/-- A significand and an exponent field are determined by the number that they make up. -/
theorem significand_unique
    {fraction fraction' field field' : Nat}
    (below : fraction < 2 ^ 52)
    (below' : fraction' < 2 ^ 52)
    (same :
      (fraction + 2 ^ 52) * 2 ^ field = (fraction' + 2 ^ 52) * 2 ^ field') :
    field = field' ∧ fraction = fraction' := by
  have places := congrArg Nat.log2 same
  rw [log2_mul_two_pow (by omega), log2_mul_two_pow (by omega), log2_significand below,
    log2_significand below'] at places
  obtain rfl : field = field' := Nat.add_left_cancel places
  have fractions := Nat.eq_of_mul_eq_mul_right (Nat.two_pow_pos field) same
  exact ⟨rfl, Nat.add_right_cancel fractions⟩

/-- An integer that a float equals fits. -/
theorem IntegralBits.fitsFloat
    {value : Float}
    {whole : Int}
    {field fraction : Nat}
    (bits : IntegralBits value whole field fraction) :
    FitsFloat whole.natAbs := by
  have fieldBelow := bits.field_lt
  have fractionBelow := bits.fraction_lt
  have magnitude := bits.magnitude
  rcases Nat.le_total wholeField field with forward | backward
  · obtain ⟨places, rfl⟩ := Nat.exists_eq_add_of_le forward
    rw [Nat.add_comm wholeField, Nat.pow_add, ← Nat.mul_assoc] at magnitude
    rw [Nat.eq_of_mul_eq_mul_right (Nat.two_pow_pos _) magnitude]
    refine fitsFloat_mul_two_pow (by omega) ?_
    rw [log2_mul_two_pow (by omega), log2_significand fractionBelow]
    unfold wholeField at fieldBelow
    omega
  · obtain ⟨places, same⟩ := Nat.exists_eq_add_of_le backward
    rw [same, Nat.add_comm field, Nat.pow_add, ← Nat.mul_assoc] at magnitude
    have mantissa := Nat.eq_of_mul_eq_mul_right (Nat.two_pow_pos _) magnitude
    have smaller := Nat.le_mul_of_pos_right whole.natAbs (Nat.two_pow_pos places)
    exact fitsFloat_of_le (by omega)

theorem fitsFloat_of_integer?
    {value : Float}
    {whole : Int}
    (integral : integer? value = some whole) :
    FitsFloat whole.natAbs := by
  rcases beq_zero_or_exists_integralBits integral with
    ⟨rfl, -⟩ | ⟨-, field, fraction, bits⟩
  · exact fitsFloat_of_le (by decide)
  · exact bits.fitsFloat

/-- The literal of a float that equals an integer is the literal of the integer. -/
theorem ofFloat_eq_ofInt
    {value : Float}
    {whole : Int}
    (integral : integer? value = some whole) :
    Expr.ofFloat value = Expr.ofInt whole := by
  rcases beq_zero_or_exists_integralBits integral with
    ⟨rfl, isZero⟩ | ⟨nonzero, field, fraction, bits⟩
  · rw [Expr.ofFloat, if_pos isZero]
    decide
  · have readBack := (floatOfInt_isExactly bits.fitsFloat).integer?_eq
    rcases beq_zero_or_exists_integralBits readBack with
      ⟨zero, -⟩ | ⟨-, field', fraction', bits'⟩
    · exact (nonzero zero).elim
    · obtain ⟨rfl, rfl⟩ :=
        significand_unique bits.fraction_lt bits'.fraction_lt
          (bits.magnitude.symm.trans bits'.magnitude)
      rw [Expr.ofInt, Float.toBits_inj.mp (UInt64.toNat_inj.mp
        (bits.toBits_eq.trans bits'.toBits_eq.symm))]

/-- Different integers that fit have different literals. -/
theorem Expr.ofInt_inj
    {first second : Int}
    (fits : FitsFloat first.natAbs)
    (fits' : FitsFloat second.natAbs) :
    ofInt first = ofInt second ↔ first = second := by
  refine ⟨fun same => ?_, congrArg ofInt⟩
  rw [ofInt_eq_number fits, ofInt_eq_number fits'] at same
  have readBack := (floatOfInt_isExactly fits).integer?_eq
  rw [number.inj same, (floatOfInt_isExactly fits').integer?_eq] at readBack
  exact (Option.some.inj readBack).symm

/-! ## Shifts -/

/-- Shifting an integer that fits to the left leaves an integer that fits, unless it is too large. -/
theorem FitsFloat.shiftLeft
    {whole : Int}
    (fits : FitsFloat whole.natAbs)
    {places : Nat}
    (small : (whole * 2 ^ places).natAbs.log2 < 1024) :
    FitsFloat (whole * 2 ^ places).natAbs := by
  obtain ⟨significand, places', short, same⟩ := fits.exists_significand
  have shape :
      (whole * 2 ^ places).natAbs = significand * 2 ^ (places' + places) := by
    rw [Int.natAbs_mul, same, Int.natAbs_pow, Nat.pow_add, Nat.mul_assoc]
    rfl
  rw [shape] at small ⊢
  exact fitsFloat_mul_two_pow short small

/-- Shifting an integer that fits to the right leaves an integer that fits. -/
theorem FitsFloat.shiftRight
    {whole : Int}
    (fits : FitsFloat whole.natAbs)
    (places : Nat) :
    FitsFloat (whole >>> places).natAbs := by
  obtain ⟨significand, shifted, short, same⟩ := fits.exists_significand
  have divisible : (2 : Int) ^ shifted ∣ whole := by
    rw [← Int.natAbs_dvd_natAbs, Int.natAbs_pow, same]
    exact Nat.dvd_mul_left _ _
  obtain ⟨signed, rfl⟩ := divisible
  have magnitude : signed.natAbs = significand := by
    rw [Int.natAbs_mul, Int.natAbs_pow, Nat.mul_comm] at same
    exact Nat.eq_of_mul_eq_mul_right (Nat.two_pow_pos shifted) same
  rw [Int.shiftRight_eq_div_pow, Int.natCast_pow]
  rcases Nat.le_total places shifted with fewer | more
  · obtain ⟨kept, rfl⟩ := Nat.exists_eq_add_of_le fewer
    have exact :
        (2 : Int) ^ (places + kept) * signed / 2 ^ places = signed * 2 ^ kept := by
      rw [Int.pow_add, Int.mul_assoc,
        Int.mul_ediv_cancel_left _ (Int.pow_ne_zero (by decide)), Int.mul_comm]
    have shape : (signed * 2 ^ kept).natAbs = significand * 2 ^ kept := by
      rw [Int.natAbs_mul, Int.natAbs_pow, magnitude]
      rfl
    have smaller : significand * 2 ^ kept ≤ significand * 2 ^ (places + kept) :=
      Nat.mul_le_mul_left _ (Nat.pow_le_pow_right (by decide) (by omega))
    have small := fits.1
    rw [same] at small
    rw [Nat.cast_ofNat, exact, shape]
    refine fitsFloat_mul_two_pow short (lt_of_le_of_lt ?_ small)
    rw [Nat.log2_eq_log_two, Nat.log2_eq_log_two]
    exact Nat.log_mono_right smaller
  · obtain ⟨lost, rfl⟩ := Nat.exists_eq_add_of_le more
    have rounded :
        (2 : Int) ^ shifted * signed / 2 ^ (shifted + lost) = signed / 2 ^ lost := by
      rw [Int.pow_add, Int.mul_ediv_mul_of_pos _ _ (Int.pow_pos (by decide))]
    have smaller := Int.natAbs_ediv_le_natAbs signed (2 ^ lost)
    rw [Nat.cast_ofNat, rounded]
    exact fitsFloat_of_le (by omega)

/-! ## Numbers that are too large -/

theorem ne_zero_of_lt_log2
    {number places : Nat}
    (long : places < number.log2) :
    number ≠ 0 := by
  rintro rfl
  rw [Nat.log2_zero] at long
  exact Nat.not_lt_zero places long

theorem div_le_roundedShift
    (number places : Nat) :
    number / 2 ^ places ≤ roundedShift number places := by
  unfold roundedShift
  dsimp only
  split <;> omega

/-- The leading digits of a long number make up a significand of 53 bits, at least. -/
theorem two_pow_le_roundedShift
    {number : Nat}
    (long : 52 ≤ number.log2) :
    2 ^ 52 ≤ roundedShift number (number.log2 - 52) := by
  refine le_trans ?_ (div_le_roundedShift number (number.log2 - 52))
  rw [Nat.le_div_iff_mul_le (Nat.two_pow_pos _), ← Nat.pow_add, Nat.add_sub_cancel' long]
  exact Nat.log2_self_le (ne_zero_of_lt_log2 long)

/-- The float of a number that is too large is infinite. -/
theorem floatOfNat_eq_infinity
    {number : Nat}
    (large : 1024 ≤ number.log2) :
    floatOfNat number = infinity := by
  have significand := two_pow_le_roundedShift (show 52 ≤ number.log2 by omega)
  unfold floatOfNat
  rw [if_neg (ne_zero_of_lt_log2 large)]
  simp only [if_neg (show ¬number.log2 ≤ 52 by omega)]
  exact if_neg (by omega)

/-- An integer with a finite float is not too large. -/
theorem log2_lt_of_isFinite
    {whole : Int}
    (isFinite : (floatOfInt whole).isFinite = true) :
    whole.natAbs.log2 < 1024 := by
  by_contra large
  have infinite : floatOfNat whole.natAbs = infinity :=
    floatOfNat_eq_infinity (not_lt.mp large)
  cases whole with
  | ofNat number =>
      rw [floatOfInt, show floatOfNat number = infinity from infinite] at isFinite
      exact absurd isFinite (by decide)
  | negSucc number =>
      rw [floatOfInt, show floatOfNat (number + 1) = infinity from infinite]
        at isFinite
      exact absurd isFinite (by decide)

/-! ## Words -/

theorem log2_lt_of_lt_wordLimit
    {number : Nat}
    (small : number < wordLimit) :
    number.log2 < 1024 :=
  (log2_lt_of_lt_two_pow (by decide) small).trans (by decide)

theorem Binary.mantissa_lt_of_ofFloat?
    {value : Float}
    {binary : Binary}
    (found : ofFloat? value = some binary) :
    binary.mantissa < 2 ^ 53 := by
  have below := Nat.mod_lt value.toBits.toNat (Nat.two_pow_pos 52)
  unfold ofFloat? at found
  dsimp only at found
  split at found
  · cases found
  · split at found
    · cases found
      dsimp only
      omega
    · cases found
      dsimp only
      omega

/-- A number that is rounded to a word is rounded to an integer that fits. -/
theorem of_truncatedWord?
    {value : Float}
    {whole : Int}
    (rounded : truncatedWord? value = some whole) :
    whole.natAbs < wordLimit ∧ FitsFloat whole.natAbs := by
  unfold truncatedWord? at rounded
  split at rounded
  · rename_i binary found
    split at rounded
    · rename_i small
      cases rounded
      rw [binary.natAbs_truncate]
      refine ⟨small, ?_⟩
      have short := Binary.mantissa_lt_of_ofFloat? found
      unfold Binary.wholePart at small ⊢
      split at small
      · rename_i forward
        rw [if_pos forward]
        exact fitsFloat_mul_two_pow short (log2_lt_of_lt_wordLimit small)
      · rename_i backward
        rw [if_neg backward]
        exact fitsFloat_of_le
          ((Nat.div_le_self _ _).trans (Nat.le_of_lt short))
    · cases rounded
  · cases rounded

/-- An integer that is represented exactly is rounded to itself. -/
theorem IsExactly.eq_of_truncatedWord?
    {value : Float}
    {whole word : Int}
    (exact : IsExactly value whole)
    (rounded : truncatedWord? value = some word) :
    word = whole := by
  obtain ⟨binary, found, -, -, truncated⟩ := exact.binary
  unfold truncatedWord? at rounded
  rw [found] at rounded
  dsimp only at rounded
  split at rounded
  · cases rounded
    exact truncated
  · cases rounded

end SymbolicAlgebra
