import SymbolicAlgebra.Construction

/-!
# Rules

A rule looks at one node and either leaves it alone or replaces it.  It builds its replacement with
a builder that it is given, so the same rule makes raw terms during a simplification and simplified
ones outside.  A replacement that cannot be built is abandoned.
-/

namespace SymbolicAlgebra

/-- A transformation of single nodes: `none` leaves the node alone. -/
abbrev Transform :=
  SymbolTable → Builder → Expr → Option Expr

/-- A named transformation. -/
structure Rule where
  name : String
  transform? : Transform

/-- What a transformation makes of a node during a simplification, where terms are built raw. -/
def Transform.result
    (transform? : Transform)
    (table : SymbolTable)
    (node : Expr) : Expr :=
  (transform? table table.construct node).getD node

/-- How the rule of a name is written. -/
def Rule.describe
    (name : String) : String :=
  "Rule(" ++ name.quote ++ ")"

/-- Runs transformations on a node one after the other, each on the result of those before it. -/
def transformAll?
    (transforms : List (Expr → Option Expr))
    (node : Expr) : Option Expr :=
  match transforms with
  | [] => none
  | transform? :: rest =>
    match transform? node with
    | none => transformAll? rest node
    | some replacement => some ((transformAll? rest replacement).getD replacement)

end SymbolicAlgebra
