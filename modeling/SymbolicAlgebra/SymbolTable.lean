import SymbolicAlgebra.Operator.Standard

/-!
# Symbol tables

A symbol table records every name in use and the operator properties it was first used with.  The
first use of a name decides for good: a name first used as a plain symbol never becomes an operator,
and an operator never changes its properties.  The standard operators are always known.
-/

namespace SymbolicAlgebra

/-- The names in use beyond the standard operators, latest first, with their properties. -/
structure SymbolTable where
  entries : List (String × Option OperatorSpec) := []
deriving DecidableEq

namespace SymbolTable

/-- The properties recorded for a name, if it is in use: `some none` for a plain symbol. -/
def lookup?
    (table : SymbolTable)
    (name : String) : Option (Option OperatorSpec) :=
  match standardSpec? name with
  | some spec => some (some spec)
  | none => table.entries.lookup name

/-- The properties of a name as an operator. -/
def spec?
    (table : SymbolTable)
    (name : String) : Option OperatorSpec :=
  (table.lookup? name).join

/-- The properties of an expression as an operator; only symbols have any. -/
def specOf?
    (table : SymbolTable) : Expr → Option OperatorSpec
  | .symbol name => table.spec? name
  | _ => none

/-- Takes a name into use with the given properties, unless it is in use already. -/
def intern
    (table : SymbolTable)
    (name : String)
    (spec : Option OperatorSpec) : SymbolTable :=
  match table.lookup? name with
  | some _ => table
  | none => ⟨(name, spec) :: table.entries⟩

/-- Whether a request with these properties disagrees with the ones recorded. -/
def conflicts
    (table : SymbolTable)
    (name : String)
    (spec : OperatorSpec) : Bool :=
  match table.lookup? name with
  | some recorded => decide (recorded ≠ some spec)
  | none => false

/-- The number of names in use beyond the standard operators. -/
def size
    (table : SymbolTable) : Nat :=
  table.entries.length

/-- A request for a name in use changes nothing. -/
theorem intern_of_lookup?_eq_some
    {table : SymbolTable}
    {name : String}
    {recorded : Option OperatorSpec}
    (found : table.lookup? name = some recorded)
    (spec : Option OperatorSpec) :
    table.intern name spec = table := by
  simp [intern, found]

/-- The first request for a name records it. -/
theorem intern_of_lookup?_eq_none
    {table : SymbolTable}
    {name : String}
    (unused : table.lookup? name = none)
    (spec : Option OperatorSpec) :
    table.intern name spec = ⟨(name, spec) :: table.entries⟩ := by
  simp [intern, unused]

/-- After a request the name has the properties of its first use, and no other name is touched. -/
theorem lookup?_intern
    (table : SymbolTable)
    (name other : String)
    (spec : Option OperatorSpec) :
    (table.intern name spec).lookup? other =
      if other = name then
        some ((table.lookup? name).getD spec)
      else
        table.lookup? other := by
  cases found : table.lookup? name with
  | some recorded =>
    rw [intern_of_lookup?_eq_some found]
    split
    · simp_all
    · rfl
  | none =>
    rw [intern_of_lookup?_eq_none found]
    by_cases same : other = name
    · subst same
      cases standard : standardSpec? other with
      | some recorded => simp [lookup?, standard] at found
      | none => simp [lookup?, standard]
    · have different : (other == name) = false := by simpa using same
      simp [lookup?, same, List.lookup_cons, different]

end SymbolTable

end SymbolicAlgebra
