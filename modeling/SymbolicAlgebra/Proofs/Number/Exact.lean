import SymbolicAlgebra.Expr.Basic
import SymbolicAlgebra.Number.Integral
import SymbolicAlgebra.Proofs.Number.Packing

/-!
# Integers as floats

A float represents an integer exactly if the integer has at most 53 significant binary digits and is
not too large.  Such an integer is read back from its float by every function that asks for one.
-/

namespace SymbolicAlgebra

open Float.Model (Format)
open Float.Model.UnpackedFloat

theorem log2_lt_of_lt_two_pow
    {number places : Nat}
    (positive : 0 < places)
    (small : number < 2 ^ places) :
    number.log2 < places := by
  by_cases zero : number = 0
  · rwa [zero, Nat.log2_zero]
  · exact (Nat.log2_lt zero).mpr small

theorem log2_le_of_lt_two_pow
    {number places : Nat}
    (small : number < 2 ^ (places + 1)) :
    number.log2 ≤ places :=
  Nat.le_of_lt_succ (log2_lt_of_lt_two_pow (Nat.succ_pos places) small)

/-- A number has no more binary digits than fit, trailing zeros aside. -/
def FitsFloat
    (number : Nat) : Prop :=
  number.log2 < 1024 ∧ 2 ^ (number.log2 - 52) ∣ number

theorem roundedShift_of_dvd
    {number places : Nat}
    (exact : 2 ^ places ∣ number) :
    roundedShift number places = number / 2 ^ places := by
  have positive := Nat.two_pow_pos places
  unfold roundedShift
  rw [Nat.mod_eq_zero_of_dvd exact]
  rw [if_neg (by omega)]

/-- Shifting a number that fits until its first digit has place 52 loses no digit. -/
theorem exists_significand
    {number : Nat}
    (nonzero : number ≠ 0)
    (fits : FitsFloat number) :
    ∃ fraction < 2 ^ 52,
      (if number.log2 ≤ 52 then
          number * 2 ^ (52 - number.log2)
        else
          roundedShift number (number.log2 - 52)) = 2 ^ 52 + fraction ∧
        number * 2 ^ (52 - number.log2) =
          (2 ^ 52 + fraction) * 2 ^ (number.log2 - 52) := by
  obtain ⟨lower, upper⟩ :=
    (Nat.log2_eq_iff nonzero).mp (rfl : number.log2 = number.log2)
  obtain ⟨-, multiple⟩ := fits
  generalize number.log2 = place at *
  rcases Nat.le_total place 52 with short | long
  · have whole : 2 ^ place * 2 ^ (52 - place) = 2 ^ 52 := by
      rw [← Nat.pow_add, Nat.add_sub_cancel' short]
    have shiftedLower :=
      Nat.mul_le_mul_right (2 ^ (52 - place)) lower
    have shiftedUpper :=
      Nat.mul_lt_mul_of_pos_right upper (Nat.two_pow_pos (52 - place))
    rw [Nat.pow_succ, Nat.mul_right_comm, whole] at shiftedUpper
    rw [whole] at shiftedLower
    refine ⟨number * 2 ^ (52 - place) - 2 ^ 52, by omega, ?_, ?_⟩
    · rw [if_pos short]
      omega
    · rw [Nat.sub_eq_zero_of_le short, Nat.pow_zero, Nat.mul_one]
      omega
  · obtain ⟨quotient, rfl⟩ := multiple
    have positive := Nat.two_pow_pos (place - 52)
    have whole : 2 ^ place = 2 ^ (place - 52) * 2 ^ 52 := by
      rw [← Nat.pow_add, Nat.sub_add_cancel long]
    rw [whole] at lower
    rw [Nat.pow_succ, whole, Nat.mul_assoc] at upper
    have quotientLower := Nat.le_of_mul_le_mul_left lower positive
    have quotientUpper := Nat.lt_of_mul_lt_mul_left upper
    refine ⟨quotient - 2 ^ 52, by omega, ?_, ?_⟩
    · split
      · rename_i short
        obtain rfl : place = 52 := by omega
        rw [Nat.sub_self, Nat.pow_zero]
        omega
      · rw [roundedShift_of_dvd (Nat.dvd_mul_right _ _),
          Nat.mul_div_cancel_left _ positive]
        omega
    · rw [Nat.sub_eq_zero_of_le long, Nat.pow_zero, Nat.mul_one, Nat.mul_comm,
        Nat.add_sub_cancel' quotientLower]

/-- A mantissa whose digits start at place 52 stands for the number they are shifted back to. -/
theorem Binary.exact_of_shifted
    (binary : Binary)
    {number place : Nat}
    (shift : binary.exponent = place - 52)
    (value :
      number * 2 ^ (52 - place) = binary.mantissa * 2 ^ (place - 52)) :
    binary.isIntegral = true ∧ binary.wholePart = number := by
  unfold isIntegral wholePart
  rcases Nat.le_total 52 place with long | short
  · have forward : 0 ≤ binary.exponent := by
      omega
    have places : binary.exponent.toNat = place - 52 := by
      omega
    rw [Nat.sub_eq_zero_of_le long, Nat.pow_zero, Nat.mul_one] at value
    simp [forward, places, value]
  · have places : (-binary.exponent).toNat = 52 - place := by
      omega
    rw [Nat.sub_eq_zero_of_le short, Nat.pow_zero, Nat.mul_one] at value
    rw [← value, places, Nat.mul_mod_left,
      Nat.mul_div_left _ (Nat.two_pow_pos _)]
    split
    · rename_i forward
      obtain rfl : place = 52 := by omega
      simp [shift]
    · simp

/-- The exponent field of a number whose digits start at the given place. -/
def fieldOfPlace
    (place : Nat) : BitVec 11 :=
  BitVec.ofNat 11 (place + 1023)

theorem toNat_fieldOfPlace
    {place : Nat}
    (small : place < 1024) :
    (fieldOfPlace place).toNat = place + 1023 :=
  Nat.mod_eq_of_lt (by omega)

theorem fieldOfPlace_ne
    {place : Nat}
    (small : place < 1024) :
    fieldOfPlace place ≠ -1#11 ∧ fieldOfPlace place ≠ 0#11 := by
  rw [BitVec.toNat_ne, BitVec.toNat_ne, toNat_fieldOfPlace small]
  simp
  omega

theorem floatOfNat_eq_assembled
    {number : Nat}
    (nonzero : number ≠ 0)
    (fits : FitsFloat number) :
    ∃ fraction : BitVec 52,
      floatOfNat number =
          assembled .positive (fieldOfPlace number.log2) fraction ∧
        number * 2 ^ (52 - number.log2) =
          (2 ^ 52 + fraction.toNat) * 2 ^ (number.log2 - 52) := by
  obtain ⟨fraction, below, significand, value⟩ := exists_significand nonzero fits
  obtain ⟨small, -⟩ := fits
  have sameFraction : (BitVec.ofNat 52 fraction).toNat = fraction :=
    Nat.mod_eq_of_lt below
  refine ⟨BitVec.ofNat 52 fraction, ?_, by rw [sameFraction, value]⟩
  unfold floatOfNat
  rw [if_neg nonzero]
  simp only [significand]
  rw [if_pos (by omega)]
  refine congrArg Float.ofBits (UInt64.toNat_inj.mp ?_)
  rw [UInt64.toNat_ofNat', Nat.mod_eq_of_lt (by omega)]
  refine Eq.trans ?_ (toNat_packComponents _ _ _).symm
  rw [toNat_fieldOfPlace small, sameFraction]
  simp only [Sign.toBitVec, BitVec.toNat_ofNat]
  omega

/-- A float represents an integer exactly. -/
structure IsExactly
    (value : Float)
    (whole : Int) : Prop where
  isFinite :
    value.isFinite = true
  beq_zero :
    (value == 0) = decide (whole = 0)
  binary :
    ∃ binary,
      Binary.ofFloat? value = some binary ∧ binary.isIntegral = true ∧
        binary.wholePart = whole.natAbs ∧ binary.truncate = whole

/-- A float represents the number that its significand is shifted back to. -/
theorem isExactly_assembled
    (sign : Sign)
    {number : Nat}
    {fraction : BitVec 52}
    (nonzero : number ≠ 0)
    (small : number.log2 < 1024)
    (value :
      number * 2 ^ (52 - number.log2) =
        (2 ^ 52 + fraction.toNat) * 2 ^ (number.log2 - 52)) :
    IsExactly (assembled sign (fieldOfPlace number.log2) fraction)
      (sign.apply number) := by
  obtain ⟨finite, normal⟩ := fieldOfPlace_ne small
  obtain ⟨integral, whole⟩ :=
    Binary.exact_of_shifted
      ⟨sign == .negative, fraction.toNat + 2 ^ 52,
        (fieldOfPlace number.log2).toNat - 1075⟩
      (by simp only [toNat_fieldOfPlace small]; omega)
      (value.trans (by rw [Nat.add_comm]))
  refine ⟨isFinite_assembled sign fraction finite, ?_,
    _, ofFloat?_assembled sign fraction finite normal, integral, ?_, ?_⟩
  · rw [beq_zero_assembled sign fraction finite normal]
    cases sign <;> simp [Sign.apply, nonzero]
  · rw [whole]
    cases sign <;> simp [Sign.apply]
  · rw [Binary.truncate, whole]
    cases sign <;> rfl

theorem isExactly_zero :
    IsExactly (floatOfInt 0) 0 := by
  have whole : (⟨false, 0, -1074⟩ : Binary).wholePart = 0 := by
    rw [Binary.wholePart, if_neg (by decide), Nat.zero_div]
  refine ⟨by decide, by decide, ⟨false, 0, -1074⟩, by decide, ?_, whole, ?_⟩
  · rw [Binary.isIntegral, Nat.zero_mod]
    decide
  · rw [Binary.truncate, whole]
    decide

/-- The float of an integer whose magnitude fits represents it exactly. -/
theorem floatOfInt_isExactly
    {whole : Int}
    (fits : FitsFloat whole.natAbs) :
    IsExactly (floatOfInt whole) whole := by
  cases whole with
  | ofNat number =>
      by_cases zero : number = 0
      · subst zero
        exact isExactly_zero
      · obtain ⟨fraction, same, value⟩ := floatOfNat_eq_assembled zero fits
        rw [floatOfInt, same]
        exact isExactly_assembled .positive zero fits.1 value
  | negSucc number =>
      have nonzero := Nat.succ_ne_zero number
      have small : number.succ.log2 < 1024 := fits.1
      obtain ⟨fraction, same, value⟩ := floatOfNat_eq_assembled nonzero fits
      rw [floatOfInt, same, neg_assembled _ _ (fieldOfPlace_ne small).1]
      exact isExactly_assembled .negative nonzero small value

theorem fitsFloat_of_le
    {number : Nat}
    (small : number ≤ 2 ^ 53) :
    FitsFloat number := by
  rcases Nat.lt_or_eq_of_le small with less | rfl
  · have short : number.log2 ≤ 52 := log2_le_of_lt_two_pow less
    refine ⟨by omega, ?_⟩
    rw [Nat.sub_eq_zero_of_le short]
    exact Nat.one_dvd number
  · rw [FitsFloat, Nat.log2_two_pow]
    decide

namespace IsExactly

variable {value : Float} {whole : Int}

theorem integer?_eq
    (exact : IsExactly value whole) :
    integer? value = some whole := by
  obtain ⟨binary, found, integral, -, truncated⟩ := exact.binary
  simp [integer?, found, integral, truncated]

theorem word?_eq
    (exact : IsExactly value whole)
    (small : whole.natAbs < wordLimit) :
    word? value = some whole := by
  simp [word?, exact.integer?_eq, small]

theorem truncatedWord?_eq
    (exact : IsExactly value whole)
    (small : whole.natAbs < wordLimit) :
    truncatedWord? value = some whole := by
  obtain ⟨binary, found, -, magnitude, truncated⟩ := exact.binary
  simp [truncatedWord?, found, magnitude, small, truncated]

end IsExactly

/-- The literal of an integer that fits holds its float. -/
theorem Expr.ofInt_eq_number
    {whole : Int}
    (fits : FitsFloat whole.natAbs) :
    Expr.ofInt whole = .number (floatOfInt whole) := by
  unfold Expr.ofInt Expr.ofFloat
  rw [(floatOfInt_isExactly fits).beq_zero]
  by_cases zero : whole = 0
  · subst zero
    decide
  · simp [zero]
end SymbolicAlgebra
