import SymbolicAlgebra.Proofs.Number.Integer

/-!
# Integers that do not fit

The float of an integer with more significant digits than fit is the float of the integer that its digits
are rounded to.  That integer fits, and it is off by at most half a unit in the last place.
-/

namespace SymbolicAlgebra

/-! ## Quotients -/

theorem roundedShift_le
    (number places : Nat) :
    roundedShift number places ≤ number / 2 ^ places + 1 := by
  unfold roundedShift
  dsimp only
  split <;> omega

/-- A rounded quotient is off by at most one half. -/
theorem roundedShift_nearest
    (number places : Nat) :
    2 * (roundedShift number places * 2 ^ places) ≤ 2 * number + 2 ^ places ∧
      2 * number ≤ 2 * (roundedShift number places * 2 ^ places) + 2 ^ places := by
  have whole := Nat.div_add_mod' number (2 ^ places)
  have below := Nat.mod_lt number (Nat.two_pow_pos places)
  unfold roundedShift
  dsimp only
  split
  · rw [Nat.add_mul]
    omega
  · omega

/-! ## Natural numbers -/

/-- The number that is made of the leading 53 digits, rounded. -/
def roundedNat
    (number : Nat) : Nat :=
  roundedShift number (number.log2 - 52) * 2 ^ (number.log2 - 52)

theorem roundedNat_eq_self
    {number : Nat}
    (exact : 2 ^ (number.log2 - 52) ∣ number) :
    roundedNat number = number := by
  rw [roundedNat, roundedShift_of_dvd exact, Nat.div_mul_cancel exact]

theorem roundedNat_nearest
    (number : Nat) :
    2 * roundedNat number ≤ 2 * number + 2 ^ (number.log2 - 52) ∧
      2 * number ≤ 2 * roundedNat number + 2 ^ (number.log2 - 52) :=
  roundedShift_nearest number (number.log2 - 52)

theorem roundedNat_ne_zero
    {number : Nat}
    (nonzero : number ≠ 0) :
    roundedNat number ≠ 0 := by
  obtain ⟨-, lower⟩ := roundedNat_nearest number
  have leading : 2 ^ number.log2 ≤ number := Nat.log2_self_le nonzero
  have place : 2 ^ (number.log2 - 52) ≤ 2 ^ number.log2 :=
    Nat.pow_le_pow_right (by decide) (Nat.sub_le _ _)
  omega

/-- Rounding the leading digits of a long number carries into one more digit at most. -/
theorem roundedShift_le_two_pow
    {number : Nat}
    (long : 52 ≤ number.log2) :
    roundedShift number (number.log2 - 52) ≤ 2 ^ 53 := by
  have digits : number / 2 ^ (number.log2 - 52) < 2 ^ 53 := by
    rw [Nat.div_lt_iff_lt_mul (Nat.two_pow_pos _), ← Nat.pow_add]
    exact Nat.lt_log2_self.trans_le (Nat.pow_le_pow_right (by decide) (by omega))
  exact (roundedShift_le number (number.log2 - 52)).trans digits

theorem roundedNat_le
    {number places : Nat}
    (below : number < 2 ^ (places + 1)) :
    roundedNat number ≤ 2 ^ (places + 1) := by
  rcases Nat.lt_or_ge number.log2 52 with short | leading
  · rw [roundedNat_eq_self]
    · exact Nat.le_of_lt below
    · rw [Nat.sub_eq_zero_of_le (Nat.le_of_lt short)]
      exact Nat.one_dvd number
  · have place : number.log2 ≤ places := log2_le_of_lt_two_pow below
    calc
      roundedNat number ≤ 2 ^ 53 * 2 ^ (number.log2 - 52) :=
        Nat.mul_le_mul_right _ (roundedShift_le_two_pow leading)
      _ = 2 ^ (53 + (number.log2 - 52)) :=
        (Nat.pow_add 2 53 _).symm
      _ ≤ 2 ^ (places + 1) :=
        Nat.pow_le_pow_right (by decide) (by omega)

/-- The float of a long number, from the place of its first digit and its rounded significand. -/
def floatOfDigits
    (place significand : Nat) : Float :=
  let bits := (place + 1022) * 2 ^ 52 + significand
  if bits < 2047 * 2 ^ 52 then
    Float.ofBits (UInt64.ofNat bits)
  else
    infinity

theorem floatOfNat_eq_floatOfDigits
    {number : Nat}
    (long : 52 ≤ number.log2) :
    floatOfNat number =
      floatOfDigits number.log2 (roundedShift number (number.log2 - 52)) := by
  unfold floatOfNat floatOfDigits
  rw [if_neg (ne_zero_of_lt_log2 long)]
  rcases Nat.lt_or_eq_of_le long with more | same
  · simp only [if_neg (Nat.not_le.mpr more)]
  · simp only [← same, Nat.le_refl, if_true, Nat.sub_self, Nat.pow_zero, Nat.mul_one]
    rw [roundedShift_of_dvd (Nat.one_dvd number), Nat.pow_zero, Nat.div_one]

/-- A carry out of the significand is one more place. -/
theorem floatOfDigits_carry
    (place : Nat) :
    floatOfDigits place (2 ^ 53) = floatOfDigits (place + 1) (2 ^ 52) := by
  have bits :
      (place + 1022) * 2 ^ 52 + 2 ^ 53 = (place + 1 + 1022) * 2 ^ 52 + 2 ^ 52 := by
    omega
  rw [floatOfDigits, floatOfDigits, bits]

/-- The float of a significand with its first digit in place, shifted to the left. -/
theorem floatOfNat_mul_two_pow
    {significand : Nat}
    (leading : significand.log2 = 52)
    (places : Nat) :
    floatOfNat (significand * 2 ^ places) =
      floatOfDigits (52 + places) significand := by
  have positive : 0 < significand :=
    Nat.pos_of_ne_zero (ne_zero_of_lt_log2 (Nat.le_of_eq leading.symm))
  have digits := log2_mul_two_pow positive places
  rw [leading] at digits
  rw [floatOfNat_eq_floatOfDigits (by omega), digits, Nat.add_sub_cancel_left,
    roundedShift_of_dvd (Nat.dvd_mul_left _ _),
    Nat.mul_div_cancel _ (Nat.two_pow_pos places)]

/-- A number has the float of the number that its leading digits are rounded to. -/
theorem floatOfNat_roundedNat
    (number : Nat) :
    floatOfNat (roundedNat number) = floatOfNat number := by
  rcases Nat.le_total number.log2 52 with short | long
  · rw [roundedNat_eq_self]
    rw [Nat.sub_eq_zero_of_le short]
    exact Nat.one_dvd number
  · have lower := two_pow_le_roundedShift long
    have upper := roundedShift_le_two_pow long
    have place : 52 + (number.log2 - 52) = number.log2 :=
      Nat.add_sub_cancel' long
    rw [floatOfNat_eq_floatOfDigits long, roundedNat]
    rcases Nat.lt_or_eq_of_le upper with below | carries
    · have leading : (roundedShift number (number.log2 - 52)).log2 = 52 :=
        (Nat.log2_eq_iff (by omega)).mpr ⟨lower, below⟩
      rw [floatOfNat_mul_two_pow leading, place]
    · have shape :
          2 ^ 53 * 2 ^ (number.log2 - 52) = 2 ^ 52 * 2 ^ (number.log2 - 52 + 1) := by
        rw [Nat.pow_succ _ (number.log2 - 52)]
        omega
      rw [carries, shape, floatOfNat_mul_two_pow (Nat.log2_two_pow), ← Nat.add_assoc,
        place, floatOfDigits_carry]

theorem log2_le_of_le_two_pow
    {number places : Nat}
    (bounded : number ≤ 2 ^ places) :
    number.log2 ≤ places := by
  by_cases zero : number = 0
  · rw [zero, Nat.log2_zero]
    exact Nat.zero_le places
  · exact (Nat.pow_le_pow_iff_right (by decide)).mp
      ((Nat.log2_self_le zero).trans bounded)

/-- A multiple of a power of two fits if its magnitude is at most 53 binary orders above the power. -/
theorem fitsFloat_of_dvd
    {number places : Nat}
    (divides : 2 ^ places ∣ number)
    (bounded : number ≤ 2 ^ (53 + places))
    (small : number.log2 < 1024) :
    FitsFloat number := by
  obtain ⟨significand, rfl⟩ := divides
  rw [Nat.mul_comm] at bounded small ⊢
  rw [Nat.pow_add] at bounded
  have short := Nat.le_of_mul_le_mul_right bounded (Nat.two_pow_pos places)
  rcases Nat.lt_or_eq_of_le short with below | rfl
  · exact fitsFloat_mul_two_pow below small
  · rw [← Nat.pow_add, ← Nat.one_mul (2 ^ _)] at small ⊢
    exact fitsFloat_mul_two_pow (by decide) small

theorem fitsFloat_roundedNat
    {number : Nat}
    (small : number.log2 < 1023) :
    FitsFloat (roundedNat number) := by
  have bounded : roundedNat number ≤ 2 ^ (number.log2 + 1) :=
    roundedNat_le Nat.lt_log2_self
  have place := log2_le_of_le_two_pow bounded
  refine fitsFloat_of_dvd (Nat.dvd_mul_left _ _) (bounded.trans ?_) (by omega)
  exact Nat.pow_le_pow_right (by decide) (by omega)

/-! ## Integers -/

/-- The integer that is made of the sign and the leading 53 digits, rounded. -/
def roundedInt : Int → Int
  | .ofNat number => roundedNat number
  | .negSucc number => -roundedNat (number + 1)

theorem natAbs_roundedInt
    (whole : Int) :
    (roundedInt whole).natAbs = roundedNat whole.natAbs := by
  cases whole with
  | ofNat number =>
      exact Int.natAbs_natCast _
  | negSucc number =>
      rw [roundedInt, Int.natAbs_neg, Int.natAbs_natCast, Int.natAbs_negSucc]

theorem roundedInt_eq_self
    {whole : Int}
    (fits : FitsFloat whole.natAbs) :
    roundedInt whole = whole := by
  cases whole with
  | ofNat number =>
      have exact : 2 ^ (number.log2 - 52) ∣ number := fits.2
      rw [roundedInt, roundedNat_eq_self exact]
      rfl
  | negSucc number =>
      have exact : 2 ^ ((number + 1).log2 - 52) ∣ number + 1 := fits.2
      rw [roundedInt, roundedNat_eq_self exact]
      rfl

/-- The rounded integer is off by at most half a unit in the last place. -/
theorem roundedInt_nearest
    (whole : Int) :
    2 * (roundedInt whole - whole).natAbs ≤ 2 ^ (whole.natAbs.log2 - 52) := by
  cases whole with
  | ofNat number =>
      obtain ⟨upper, lower⟩ := roundedNat_nearest number
      show 2 * ((roundedNat number : Int) - number).natAbs ≤ 2 ^ (number.log2 - 52)
      omega
  | negSucc number =>
      obtain ⟨upper, lower⟩ := roundedNat_nearest (number + 1)
      show 2 * (-(roundedNat (number + 1) : Int) - -(number + 1)).natAbs ≤
        2 ^ ((number + 1).log2 - 52)
      omega

/-- An integer has the float of the integer that it is rounded to. -/
theorem floatOfInt_roundedInt
    (whole : Int) :
    floatOfInt (roundedInt whole) = floatOfInt whole := by
  cases whole with
  | ofNat number =>
      exact floatOfNat_roundedNat number
  | negSucc number =>
      obtain ⟨before, same⟩ :=
        Nat.exists_eq_succ_of_ne_zero (roundedNat_ne_zero (Nat.succ_ne_zero number))
      have negated : roundedInt (.negSucc number) = .negSucc before := by
        rw [roundedInt, same, Int.negSucc_eq]
        rfl
      rw [negated, floatOfInt, floatOfInt, ← floatOfNat_roundedNat (number + 1), same]

end SymbolicAlgebra
