import Mathlib.Algebra.BigOperators.Group.Multiset.Basic
import Mathlib.Algebra.Group.Prod
import Mathlib.Algebra.Order.BigOperators.Group.Multiset
import SymbolicAlgebra.Proofs.Number.Power

/-!
# Products of powers

A product of natural powers of symbols with an integral coefficient is its coefficient and its symbols, each as
often as its exponent says.  While the magnitudes of all factors multiply to less than `2 ^ 53`, so do those of
any part of the product.
-/

namespace SymbolicAlgebra

/-- The coefficient, and every symbol as often as its exponent says. -/
abbrev PowerProduct :=
  Int × Multiplicative (Multiset String)

namespace PowerProduct

/-- An integer. -/
def literal
    (whole : Int) : PowerProduct :=
  (whole, 1)

/-- Symbols that are multiplied. -/
def ofSymbols
    (names : Multiset String) : PowerProduct :=
  (1, .ofAdd names)

/-- A symbol. -/
def symbol
    (name : String) : PowerProduct :=
  ofSymbols {name}

/-- The integral factor. -/
def coefficient
    (product : PowerProduct) : Int :=
  product.1

/-- The symbols with repetition. -/
def symbols
    (product : PowerProduct) : Multiset String :=
  product.2.toAdd

section Parts

variable (product product' : PowerProduct) (whole : Int) (name : String)
  (names : Multiset String) (count : Nat)

@[simp]
theorem coefficient_one :
    (1 : PowerProduct).coefficient = 1 :=
  rfl

@[simp]
theorem symbols_one :
    (1 : PowerProduct).symbols = 0 :=
  rfl

@[simp]
theorem coefficient_literal :
    (literal whole).coefficient = whole :=
  rfl

@[simp]
theorem symbols_literal :
    (literal whole).symbols = 0 :=
  rfl

@[simp]
theorem coefficient_ofSymbols :
    (ofSymbols names).coefficient = 1 :=
  rfl

@[simp]
theorem symbols_ofSymbols :
    (ofSymbols names).symbols = names :=
  rfl

@[simp]
theorem coefficient_symbol :
    (symbol name).coefficient = 1 :=
  rfl

@[simp]
theorem symbols_symbol :
    (symbol name).symbols = {name} :=
  rfl

@[simp]
theorem coefficient_mul :
    (product * product').coefficient =
      product.coefficient * product'.coefficient :=
  rfl

@[simp]
theorem symbols_mul :
    (product * product').symbols = product.symbols + product'.symbols :=
  rfl

@[simp]
theorem coefficient_pow :
    (product ^ count).coefficient = product.coefficient ^ count :=
  rfl

@[simp]
theorem symbols_pow :
    (product ^ count).symbols = count • product.symbols :=
  rfl

theorem ext
    {product product' : PowerProduct}
    (sameCoefficient : product.coefficient = product'.coefficient)
    (sameSymbols : product.symbols = product'.symbols) :
    product = product' :=
  Prod.ext sameCoefficient sameSymbols

theorem literal_mul
    (whole' : Int) :
    literal whole * literal whole' = literal (whole * whole') :=
  ext rfl rfl

theorem literal_pow :
    literal whole ^ count = literal (whole ^ count) :=
  ext rfl (by simp)

end Parts

/-! ## Values -/

section Values

variable (values : String → Int) (product product' : PowerProduct)

/-- The value under values of the symbols. -/
def value : Int :=
  product.coefficient * (product.symbols.map values).prod

theorem value_literal
    (whole : Int) :
    (literal whole).value values = whole := by
  simp [value]

theorem value_symbol
    (name : String) :
    (symbol name).value values = values name := by
  simp [value]

theorem value_mul :
    (product * product').value values =
      product.value values * product'.value values := by
  simp only [value, coefficient_mul, symbols_mul, Multiset.map_add,
    Multiset.prod_add]
  exact mul_mul_mul_comm _ _ _ _

theorem value_pow
    (count : Nat) :
    (product ^ count).value values = product.value values ^ count := by
  simp only [value, coefficient_pow, symbols_pow, Multiset.map_nsmul,
    Multiset.prod_nsmul, mul_pow]

/-- The magnitudes of all factors multiplied, where those below one count as one. -/
def magnitude : Nat :=
  max 1 product.coefficient.natAbs *
    (product.symbols.map fun name => max 1 (values name).natAbs).prod

/-- The magnitudes of all factors, and the degree, are small enough for exact arithmetic. -/
structure Fits : Prop where
  magnitude_lt :
    product.magnitude values < 2 ^ 53
  card_lt :
    product.symbols.card < 2 ^ 53

instance :
    Decidable (product.Fits values) :=
  decidable_of_iff
    (product.magnitude values < 2 ^ 53 ∧ product.symbols.card < 2 ^ 53)
    ⟨fun bounds => ⟨bounds.1, bounds.2⟩,
      fun fits => ⟨fits.magnitude_lt, fits.card_lt⟩⟩

end Values

section Bounds

variable {values : String → Int} {product product' : PowerProduct}

theorem one_le_prod_magnitudes
    (values : String → Int)
    (names : Multiset String) :
    1 ≤ (names.map fun name => max 1 (values name).natAbs).prod := by
  apply Multiset.one_le_prod_of_one_le
  intro factor member
  obtain ⟨name, -, rfl⟩ := Multiset.mem_map.mp member
  exact Nat.le_max_left _ _

theorem Fits.coefficient_lt
    (fits : product.Fits values) :
    product.coefficient.natAbs < 2 ^ 53 := by
  have le :
      product.coefficient.natAbs ≤ product.magnitude values :=
    Nat.le_trans (Nat.le_max_right 1 _)
      (Nat.le_mul_of_pos_right _ (one_le_prod_magnitudes values _))
  exact Nat.lt_of_le_of_lt le fits.magnitude_lt

theorem natAbs_value_le
    (values : String → Int)
    (product : PowerProduct) :
    (product.value values).natAbs ≤ product.magnitude values := by
  have le
      (names : Multiset String) :
      (names.map values).prod.natAbs ≤
        (names.map fun name => max 1 (values name).natAbs).prod := by
    induction names using Multiset.induction with
    | empty =>
        simp
    | cons name names inductionHypothesis =>
        simp only [Multiset.map_cons, Multiset.prod_cons, Int.natAbs_mul]
        exact Nat.mul_le_mul (Nat.le_max_right _ _) inductionHypothesis
  rw [value, magnitude, Int.natAbs_mul]
  exact Nat.mul_le_mul (Nat.le_max_right _ _) (le _)

theorem Fits.value_lt
    (fits : product.Fits values) :
    (product.value values).natAbs < 2 ^ 53 :=
  Nat.lt_of_le_of_lt (natAbs_value_le values product) fits.magnitude_lt

theorem Fits.count_lt
    (fits : product.Fits values)
    (name : String) :
    product.symbols.count name < 2 ^ 53 :=
  Nat.lt_of_le_of_lt (Multiset.count_le_card name _) fits.card_lt

/-- The first part of a product that fits does so too, unless it is multiplied by zero. -/
theorem Fits.left
    (fits : (product * product').Fits values)
    (nonzero : product'.coefficient ≠ 0) :
    product.Fits values := by
  have coefficients :
      product.coefficient.natAbs ≤
        (product.coefficient * product'.coefficient).natAbs := by
    rw [Int.natAbs_mul]
    exact Nat.le_mul_of_pos_right _ (Int.natAbs_pos.mpr nonzero)
  have le : product.magnitude values ≤ (product * product').magnitude values := by
    simp only [magnitude, coefficient_mul, symbols_mul, Multiset.map_add,
      Multiset.prod_add]
    exact Nat.mul_le_mul (max_le_max le_rfl coefficients)
      (Nat.le_mul_of_pos_right _ (one_le_prod_magnitudes values _))
  refine ⟨Nat.lt_of_le_of_lt le fits.magnitude_lt, ?_⟩
  have card := fits.card_lt
  rw [symbols_mul, Multiset.card_add] at card
  omega

theorem Fits.right
    (fits : (product * product').Fits values)
    (nonzero : product.coefficient ≠ 0) :
    product'.Fits values := by
  rw [mul_comm] at fits
  exact fits.left nonzero

/-- All parts of a product that fits do so too, unless the product is zero. -/
theorem Fits.of_mem
    {parts : List PowerProduct}
    {part : PowerProduct}
    (fits : product.Fits values)
    (nonzero : product.coefficient ≠ 0)
    (multiplied : parts.prod = product)
    (member : part ∈ parts) :
    part.Fits values := by
  obtain ⟨others, split⟩ := List.dvd_prod member
  rw [← multiplied, split] at fits nonzero
  exact fits.left (right_ne_zero_of_mul nonzero)

end Bounds

end PowerProduct

end SymbolicAlgebra
