/-!
# Blanks and words

A blank is a character with the Unicode property White_Space.  The words of a text are its maximal
runs without blanks.
-/

namespace SymbolicAlgebra

/-- Whether a character is one of the twenty-five blanks. -/
def isBlank
    (char : Char) : Bool :=
  let code := char.toNat
  (decide (0x09 ≤ code) && decide (code ≤ 0x0d)) || code == 0x20 || code == 0x85 || code == 0xa0 ||
    code == 0x1680 || (decide (0x2000 ≤ code) && decide (code ≤ 0x200a)) || code == 0x2028 ||
    code == 0x2029 || code == 0x202f || code == 0x205f || code == 0x3000

/-- Core's whitespace is blank. -/
theorem isBlank_of_isWhitespace
    {char : Char}
    (white : char.isWhitespace) :
    isBlank char := by
  simp only [Char.isWhitespace, Bool.or_eq_true, decide_eq_true_eq] at white
  rcases white with ((rfl | rfl) | rfl) | rfl <;> decide

/-- The words of a list of characters; `current` holds the word under way, last character first. -/
def wordsFrom
    (current : List Char) : List Char → List String
  | [] => if current.isEmpty then [] else [String.ofList current.reverse]
  | char :: rest =>
    if isBlank char then
      if current.isEmpty then
        wordsFrom [] rest
      else
        String.ofList current.reverse :: wordsFrom [] rest
    else
      wordsFrom (char :: current) rest

/-- The words of a text, in order. -/
def words
    (text : String) : List String :=
  wordsFrom [] text.toList

end SymbolicAlgebra
