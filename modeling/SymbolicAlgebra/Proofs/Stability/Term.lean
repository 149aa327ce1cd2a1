import SymbolicAlgebra.Proofs.Closure.Parts

/-!
# Stable terms

A term is stable in a table if its symbols are in use and its applications are stored as their heads store them.
Names keep their properties once they are in use, so a term stays stable.  An application with plainly named
wildcards is what its own head and arguments are built to.
-/

namespace SymbolicAlgebra

open SymbolicAlgebra.Expr

/-! ## Tables that grow -/

namespace SymbolTable

/-- All names in use keep their properties. -/
def ExtendedBy
    (table later : SymbolTable) : Prop :=
  ∀ name spec,
    table.lookup? name = some spec → later.lookup? name = some spec

theorem ExtendedBy.refl
    (table : SymbolTable) :
    table.ExtendedBy table :=
  fun _ _ found => found

theorem ExtendedBy.trans
    {first second third : SymbolTable}
    (former : first.ExtendedBy second)
    (latter : second.ExtendedBy third) :
    first.ExtendedBy third :=
  fun name spec found => latter name spec (former name spec found)

/-- Taking a name into use changes nothing about the names that are. -/
theorem extendedBy_intern
    (table : SymbolTable)
    (name : String)
    (spec : Option OperatorSpec) :
    table.ExtendedBy (table.intern name spec) := by
  intro other recorded found
  rw [lookup?_intern]
  split
  · rename_i same
    rw [← same, found]
    rfl
  · exact found

/-- A symbol that is in use, or an application as its head stores it. -/
def Admits
    (table : SymbolTable) : Expr → Prop
  | .symbol name => (table.lookup? name).isSome = true
  | .apply head args => table.Stores head args
  | _ => True

variable {table later : SymbolTable}

theorem admits_intern
    (table : SymbolTable)
    (name : String)
    (spec : Option OperatorSpec) :
    (table.intern name spec).Admits (.symbol name) := by
  simp [Admits, lookup?_intern]

/-- The properties of a head in use are settled. -/
theorem ExtendedBy.specOf?_eq
    (extended : table.ExtendedBy later)
    {head : Expr}
    (admitted : table.Admits head) :
    later.specOf? head = table.specOf? head := by
  cases head with
  | symbol name =>
      obtain ⟨recorded, found⟩ := Option.isSome_iff_exists.mp admitted
      simp only [specOf?, spec?, found, extended name recorded found]
  | _ =>
      rfl

end SymbolTable

/-! ## Stable terms -/

/-- Everything in the expression is admitted by the table. -/
def Expr.StableIn
    (table : SymbolTable)
    (expr : Expr) : Prop :=
  expr.Everywhere table.Admits

namespace Expr.StableIn

variable {table later : SymbolTable} {expr : Expr}

theorem admitted
    (stable : expr.StableIn table) :
    table.Admits expr := by
  refine stable expr ?_
  cases expr <;> simp [contains]

theorem apply_iff
    {head : Expr}
    {args : List Expr} :
    (Expr.apply head args).StableIn table ↔
      table.Stores head args ∧ head.StableIn table ∧
        ∀ arg ∈ args, arg.StableIn table :=
  Everywhere.apply_iff

/-- Stable terms stay stable. -/
theorem mono
    (stable : expr.StableIn table)
    (extended : table.ExtendedBy later) :
    expr.StableIn later := by
  induction expr with
  | symbol name =>
      refine Everywhere.of_isLeaf rfl ?_
      obtain ⟨recorded, found⟩ := Option.isSome_iff_exists.mp stable.admitted
      exact Option.isSome_iff_exists.mpr ⟨recorded, extended name recorded found⟩
  | apply head args headHypothesis argsHypothesis =>
      obtain ⟨stores, headStable, argsStable⟩ := apply_iff.mp stable
      have sameSpec := extended.specOf?_eq headStable.admitted
      refine apply_iff.mpr ⟨?_, headHypothesis headStable,
        fun arg isArg => argsHypothesis arg isArg (argsStable arg isArg)⟩
      exact
        { nonempty := stores.nonempty
          unevaluated := fun found => stores.unevaluated (sameSpec ▸ found)
          unabsorbed := fun found => stores.unabsorbed (sameSpec ▸ found)
          ordered := fun found => stores.ordered (sameSpec ▸ found) }
  | _ =>
      exact Everywhere.of_isLeaf rfl trivial

theorem ofFloat
    (value : Float) :
    (Expr.ofFloat value).StableIn table :=
  Everywhere.of_isLeaf rfl trivial

/-- A symbol is stable once its name has been taken into use. -/
theorem symbol_intern
    (table : SymbolTable)
    (name : String)
    (spec : Option OperatorSpec) :
    (symbol name).StableIn (table.intern name spec) :=
  Everywhere.of_isLeaf rfl (table.admits_intern name spec)

/-- Raw construction makes stable terms of stable terms. -/
theorem closedUnderBuilding
    (table : SymbolTable) :
    ClosedUnderBuilding table.construct (StableIn table) :=
  Everywhere.closedUnderBuilding
    (fun isValue => by cases isValue <;> trivial)
    rfl rfl rfl (fun _ stores => stores)

end Expr.StableIn

/-! ## Plainly named applications -/

namespace SymbolTable.Stores

variable {table : SymbolTable} {head : Expr} {args : List Expr}

/-- Sorting arguments as they are stored changes nothing. -/
theorem ordered_eq
    (stores : table.Stores head args)
    (plain : ∀ arg ∈ args, arg.PlainlyNamed)
    {spec : OperatorSpec}
    (found : table.specOf? head = some spec) :
    spec.ordered head args = args := by
  obtain ⟨given, rfl⟩ := stores.ordered found
  have permuted := spec.ordered_perm head given
  unfold OperatorSpec.ordered at plain permuted ⊢
  split
  · rename_i commutative
    rw [if_pos commutative] at plain permuted
    exact (operandCompare_linearOn head).sortBy_eq_of_perm plain permuted
  · rfl

/-- The application is what its head and its arguments are built to. -/
theorem construct_eq
    (stores : table.Stores head args)
    (plain : ∀ arg ∈ args, arg.PlainlyNamed) :
    table.construct head args = .ok (.apply head args) := by
  cases found : table.specOf? head with
  | none =>
      rw [construct_eq_ok_iff, found]
      exact ⟨stores.nonempty, .plain⟩
  | some spec =>
      rw [construct_stored found stores.nonempty (stores.unevaluated found)
        (stores.unabsorbed found), stores.ordered_eq plain found]

/-- The arguments of a commutative head are in order. -/
theorem pairwise
    (stores : table.Stores head args)
    (plain : ∀ arg ∈ args, arg.PlainlyNamed)
    {spec : OperatorSpec}
    (found : table.specOf? head = some spec)
    (commutative : spec.commutative = true) :
    args.Pairwise (NotAfter (operandCompare head)) := by
  have sorted := stores.ordered_eq plain found
  rw [OperatorSpec.ordered, if_pos commutative] at sorted
  rw [← sorted]
  exact (operandCompare_linearOn head).sortBy_pairwise plain

end SymbolTable.Stores

end SymbolicAlgebra
