import SymbolicAlgebra.Number.Format

/-!
# The characters of literal numbers

The default text of a literal number is not empty and is made of digits, signs, points and the letters of
the names of infinities and NaN.
-/

namespace SymbolicAlgebra

/-- The characters that the default text of a literal number may have. -/
def isNumeral
    (char : Char) : Bool :=
  char.isDigit || ['-', '.', 'N', 'a', 'i', 'n', 'f'].contains char

/-- A text that is not empty and made of such characters. -/
structure IsNumerals
    (text : List Char) : Prop where
  nonempty :
    text ≠ []
  all :
    ∀ char ∈ text, isNumeral char = true

theorem isNumeral_of_isDigit
    {char : Char}
    (isDigit : char.isDigit = true) :
    isNumeral char = true := by
  rw [isNumeral, isDigit, Bool.true_or]

theorem isNumerals_of_all
    {text : List Char}
    (nonempty : text ≠ [])
    (all : text.all isNumeral = true) :
    IsNumerals text :=
  ⟨nonempty, List.all_eq_true.mp all⟩

namespace IsNumerals

theorem append
    {text later : List Char}
    (numerals : IsNumerals text)
    (all : ∀ char ∈ later, isNumeral char = true) :
    IsNumerals (text ++ later) where
  nonempty :=
    List.append_ne_nil_of_left_ne_nil numerals.nonempty later
  all :=
    List.forall_mem_append.mpr ⟨numerals.all, all⟩

theorem cons
    {char : Char}
    {text : List Char}
    (first : isNumeral char = true)
    (all : ∀ char ∈ text, isNumeral char = true) :
    IsNumerals (char :: text) where
  nonempty :=
    List.cons_ne_nil char text
  all :=
    List.forall_mem_cons.mpr ⟨first, all⟩

theorem signed
    {text : List Char}
    (numerals : IsNumerals text)
    (negative : Bool) :
    IsNumerals (signed negative text) := by
  unfold SymbolicAlgebra.signed
  split
  · exact cons (by decide) numerals.all
  · exact numerals

end IsNumerals

theorem isNumerals_toDigits
    (number : Nat) :
    IsNumerals (Nat.toDigits 10 number) where
  nonempty :=
    Nat.toDigits_ne_nil
  all char member :=
    isNumeral_of_isDigit
      (Nat.isDigit_of_mem_toDigits (by decide) (by decide) member)

theorem isNumeral_of_mem_zeros
    {count : Nat}
    {char : Char}
    (member : char ∈ zeros count) :
    isNumeral char = true := by
  rw [List.eq_of_mem_replicate member]
  decide

theorem isNumerals_positional
    (decimal : Decimal) :
    IsNumerals decimal.positional := by
  have digits := isNumerals_toDigits decimal.digits
  have dropped (count : Nat) :
      ∀ char ∈ (Nat.toDigits 10 decimal.digits).drop count,
        isNumeral char = true :=
    fun char member => digits.all char (List.mem_of_mem_drop member)
  unfold Decimal.positional
  dsimp only
  split
  · exact digits.append fun char => isNumeral_of_mem_zeros
  · split
    · rename_i behind
      have front :
          IsNumerals
            ((Nat.toDigits 10 decimal.digits).take
              ((Nat.toDigits 10 decimal.digits).length -
                (-decimal.exponent).toNat)) := by
        refine ⟨?_, fun char member => digits.all char (List.mem_of_mem_take member)⟩
        rw [Ne, List.take_eq_nil_iff, not_or]
        exact ⟨Nat.sub_ne_zero_of_lt behind, digits.nonempty⟩
      exact front.append (List.forall_mem_cons.mpr ⟨by decide, dropped _⟩)
    · have front :
          ∀ char ∈ '.' :: zeros ((-decimal.exponent).toNat -
              (Nat.toDigits 10 decimal.digits).length),
            isNumeral char = true :=
        List.forall_mem_cons.mpr ⟨by decide, fun char => isNumeral_of_mem_zeros⟩
      exact (IsNumerals.cons (by decide) front).append digits.all

/-- The default text of a literal number. -/
theorem isNumerals_chars
    (value : Float) :
    IsNumerals (NumberFormat.chars {} value) := by
  unfold NumberFormat.chars
  split
  · exact (isNumerals_toDigits _).signed _
  · unfold FractionFormat.chars
    split
    · exact (isNumerals_positional _).signed _
    · split
      · exact isNumerals_of_all (by decide) (by decide)
      · exact (isNumerals_of_all (by decide) (by decide)).signed _

end SymbolicAlgebra
