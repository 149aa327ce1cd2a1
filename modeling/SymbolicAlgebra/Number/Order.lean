/-!
# The total order of literals

Literals are ordered by value, from negative infinity to positive infinity, with NaN last.  Each
float has an integer key that is different for different floats and grows with the value.
-/

namespace SymbolicAlgebra

/-- The position of a float in the total order. -/
def orderKey
    (value : Float) : Int :=
  let bits := value.toBits.toNat
  if bits < 2 ^ 63 then
    bits
  else
    (2 ^ 63 : Int) - bits - 1

/-- Compares two literals in the total order. -/
def compareLiterals
    (first second : Float) : Ordering :=
  compare (orderKey first) (orderKey second)

/-- Different floats have different positions. -/
theorem orderKey_injective
    {first second : Float}
    (same : orderKey first = orderKey second) :
    first = second := by
  have bound (value : Float) : value.toBits.toNat < 2 ^ 64 :=
    value.toBits.toNat_lt
  have sameBits : first.toBits.toNat = second.toBits.toNat := by
    have := bound first
    have := bound second
    simp only [orderKey] at same
    split at same <;> split at same <;> omega
  rcases first with ⟨⟨firstBits, firstValid⟩⟩
  rcases second with ⟨⟨secondBits, secondValid⟩⟩
  obtain rfl : firstBits = secondBits :=
    UInt64.toNat_inj.mp sameBits
  rfl

end SymbolicAlgebra
