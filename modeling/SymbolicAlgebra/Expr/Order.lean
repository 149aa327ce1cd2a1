import SymbolicAlgebra.Expr.Printer
import SymbolicAlgebra.Number.Order

/-!
# The canonical order

Numbers come first, by value, then symbols, by name, then everything else by its canonical text.
Texts that agree are told apart by the identity of wildcards, and applications by their parts.

Operands of a commutative operator are stored in this order, except that operands headed by the
operator itself come last, so that a sorted pair already has the shape of a right-nested chain.
-/

namespace SymbolicAlgebra.Expr

/-- Numbers before symbols before everything else. -/
def rank : Expr → Nat
  | number _ => 0
  | symbol _ => 1
  | _ => 2

mutual

/-- Compares two expressions in the canonical order. -/
def canonicalCompare : (first second : Expr) → Ordering
  | number first, number second => compareLiterals first second
  | symbol first, symbol second => compare first second
  | wildcard first, wildcard second =>
    (compare first.name.toList second.name.toList).then (compare first.id second.id)
  | apply head args, apply head' args' =>
    (compare (apply head args).canonicalChars (apply head' args').canonicalChars).then <|
      (canonicalCompare head head').then <|
        (compare args.length args'.length).then (canonicalCompareArgs args args')
  | first, second =>
    (compare first.rank second.rank).then <|
      if first.rank = 2 then
        compare first.canonicalChars second.canonicalChars
      else
        .eq

/-- Compares argument lists at the first place where they differ. -/
def canonicalCompareArgs : (first second : List Expr) → Ordering
  | first :: rest, second :: rest' =>
    (canonicalCompare first second).then (canonicalCompareArgs rest rest')
  | _, _ => .eq

end

/-- Compares two operands of an operator: those headed by it come last. -/
def operandCompare
    (op first second : Expr) : Ordering :=
  (compare (first.isApplyOf op).toNat (second.isApplyOf op).toNat).then
    (canonicalCompare first second)

/-- Inserts an item into a list sorted in descending order, before the first item that is not
greater. -/
def insertDescending
    (order : Expr → Expr → Ordering)
    (item : Expr) : List Expr → List Expr
  | [] => [item]
  | greatest :: rest =>
    if order item greatest = .lt then
      greatest :: insertDescending order item rest
    else
      item :: greatest :: rest

/-- Sorts a list; equal items keep their order. -/
def sortBy
    (order : Expr → Expr → Ordering)
    (items : List Expr) : List Expr :=
  (items.foldl (fun sorted item => insertDescending order item sorted) []).reverse

/-- Inserting adds the item and nothing else. -/
theorem insertDescending_perm
    (order : Expr → Expr → Ordering)
    (item : Expr)
    (sorted : List Expr) :
    (insertDescending order item sorted).Perm (item :: sorted) := by
  induction sorted with
  | nil => exact .refl _
  | cons greatest rest inductionHypothesis =>
    unfold insertDescending
    split
    · exact (inductionHypothesis.cons greatest).trans (.swap item greatest rest)
    · exact .refl _

/-- Sorting neither loses nor adds an item. -/
theorem sortBy_perm
    (order : Expr → Expr → Ordering)
    (items : List Expr) :
    (sortBy order items).Perm items := by
  have inserted (sorted : List Expr) :
      (items.foldl (fun sorted item => insertDescending order item sorted) sorted).Perm
        (sorted ++ items) := by
    induction items generalizing sorted with
    | nil => simp
    | cons item rest inductionHypothesis =>
      refine (inductionHypothesis _).trans ?_
      refine ((insertDescending_perm order item sorted).append_right rest).trans ?_
      exact List.perm_middle.symm
  exact (List.reverse_perm _).trans (by simpa using inserted [])

/-- Whether no item is greater than the next one. -/
def isSortedBy
    (order : Expr → Expr → Ordering) : List Expr → Bool
  | first :: second :: rest =>
    decide (order first second ≠ .gt) && isSortedBy order (second :: rest)
  | _ => true

/-- Sorts operands in the canonical order. -/
def sortCanonically
    (items : List Expr) : List Expr :=
  sortBy canonicalCompare items

end SymbolicAlgebra.Expr
