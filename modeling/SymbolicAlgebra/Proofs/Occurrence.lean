import SymbolicAlgebra.Proofs.Closure.Parts
import SymbolicAlgebra.Proofs.Substitution

/-!
# Names in results

Simplification moves, drops and duplicates what an expression consists of, and writes sums, products and powers.
So its result names nothing else, and a symbol for which a value was substituted is gone.
-/

namespace SymbolicAlgebra

open SymbolicAlgebra.Expr

/-- The symbols that rules write. -/
def Operator.written : List Expr :=
  [Operator.add, Operator.mul, Operator.pow]

/-- Whether the expression is a symbol or a wildcard. -/
def Expr.isName : Expr → Bool
  | symbol _ | wildcard _ => true
  | _ => false

/-- The expression is no name, or one of the given kind. -/
def Expr.Named
    (known : Expr → Prop)
    (expr : Expr) : Prop :=
  expr.isName = true → known expr

namespace Occurrence

/-- Raw construction introduces no names. -/
theorem closedUnderBuilding_named
    (table : SymbolTable)
    {known : Expr → Prop}
    (written : ∀ op ∈ Operator.written, known op) :
    ClosedUnderBuilding table.construct (Everywhere (Named known)) :=
  Everywhere.closedUnderBuilding
    (fun isValue isName => by cases isValue <;> cases isName)
    (fun _ => written _ (by simp [Operator.written]))
    (fun _ => written _ (by simp [Operator.written]))
    (fun _ => written _ (by simp [Operator.written]))
    (fun _ _ isName => by cases isName)

/-- Literals name nothing. -/
theorem everywhere_named_ofFloat
    {known : Expr → Prop}
    (value : Float) :
    (ofFloat value).Everywhere (Named known) :=
  Everywhere.of_isLeaf rfl nofun

/-- Every name in a fixed point of passes occurs before the passes, or rules write it. -/
theorem named_of_fixedPoint
    {table : SymbolTable}
    {ceiling passes : Nat}
    {expr result : Expr}
    (outcome : fixedPoint table catalogue ceiling expr = .ok (result, passes)) :
    result.Everywhere
      (Named fun name => expr.contains name = true ∨ name ∈ Operator.written) := by
  have closed := closedUnderBuilding_named table
    fun op isWritten =>
      (.inr isWritten : expr.contains op = true ∨ op ∈ Operator.written)
  exact closed.fixedPoint everywhere_named_ofFloat
    (fun part isPart _ => .inl isPart) outcome

/-- A symbol is replaced by its value, and nothing else is. -/
theorem replacement?_single
    {symbol : Expr}
    (isSymbol : symbol.symbol?.isSome = true)
    (value node : Expr) :
    Substitution.replacement? ⟨[(symbol, value)]⟩ node =
      if node = symbol then some value else none := by
  have symbolKeys : Substitution.HasSymbolKeys ⟨[(symbol, value)]⟩ :=
    List.forall_mem_singleton.mpr isSymbol
  rw [Substitution.replacement?_eq_find? symbolKeys, Substitution.find?]
  split
  · rename_i same
    rw [same, List.lookup_cons_self]
  · rename_i different
    rw [List.lookup_cons, beq_false_of_ne different]
    rfl

/-- What a visit leaves of a node does not have the symbol, if neither the value nor another node has it. -/
theorem named_of_replacement?
    {symbol value node : Expr}
    (isSymbol : symbol.symbol?.isSome = true)
    (absent : value.Everywhere (Named (· ≠ symbol)))
    (other : node ≠ symbol → node.Everywhere (Named (· ≠ symbol))) :
    ((Substitution.replacement? ⟨[(symbol, value)]⟩ node).getD node).Everywhere
      (Named (· ≠ symbol)) := by
  rw [replacement?_single isSymbol]
  split
  · exact absent
  · rename_i different
    exact other different

/-- Substitution removes a symbol, and simplification of what is built brings no occurrence back. -/
theorem named_of_substitute
    {workspace : Workspace}
    {symbol value expr result : Expr}
    (isSymbol : symbol.symbol?.isSome = true)
    (notWritten : symbol ∉ Operator.written)
    (absent : value.Everywhere (Named (· ≠ symbol)))
    (substituted : workspace.substitute ⟨[(symbol, value)]⟩ expr = .ok result) :
    result.Everywhere (Named (· ≠ symbol)) := by
  have others : ∀ op ∈ Operator.written, op ≠ symbol :=
    fun op isWritten same => notWritten (same ▸ isWritten)
  have closed := closedUnderBuilding_named workspace.table others
  obtain ⟨replaced, walked, finished⟩ := exists_of_bind_eq_ok substituted
  cases finished
  refine member_of_walk ?applied ?built ?leaf ?node walked
  case applied =>
    intro head args headMember argMembers
    exact Everywhere.apply_iff.mpr ⟨nofun, headMember, argMembers⟩
  case built =>
    exact (closed.simplified everywhere_named_ofFloat).built
  case leaf =>
    intro leaf replaced isLeaf visited
    cases visited
    exact named_of_replacement? isSymbol absent fun different =>
      Everywhere.of_isLeaf isLeaf fun _ => different
  case node =>
    intro node replaced member visited
    cases visited
    exact named_of_replacement? isSymbol absent fun _ => member

end Occurrence

/--
Simplification invents no names: every symbol or wildcard in a result of the default rules occurs in the
expression, heads included, unless it is one of the symbols for sum, product and power.  So a symbol other than
these three does not occur in the result of substituting for it a value in which it does not occur.
-/
theorem names_of_simplified :
    (∀ {table : SymbolTable} {ceiling passes : Nat} {expr result name : Expr},
      fixedPoint table catalogue ceiling expr = .ok (result, passes) →
        name.isName = true → result.contains name = true →
          expr.contains name = true ∨
            name = Operator.add ∨ name = Operator.mul ∨ name = Operator.pow) ∧
    ∀ {workspace : Workspace} {symbol : String} {value expr result : Expr},
      Expr.symbol symbol ∉ [Operator.add, Operator.mul, Operator.pow] →
        value.contains (.symbol symbol) = false →
          workspace.substitute ⟨[(.symbol symbol, value)]⟩ expr = .ok result →
            result.contains (.symbol symbol) = false := by
  refine ⟨?_, ?_⟩
  · intro table ceiling passes expr result name outcome isName occurs
    have named := Occurrence.named_of_fixedPoint outcome name occurs isName
    simpa [Operator.written] using named
  · intro workspace symbol value expr result notWritten absent substituted
    have valueNamed : value.Everywhere (Named (· ≠ .symbol symbol)) := by
      intro part isPart _ same
      rw [same, absent] at isPart
      cases isPart
    have named :=
      Occurrence.named_of_substitute rfl notWritten valueNamed substituted
    rw [Bool.eq_false_iff]
    exact fun occurs => named _ occurs rfl rfl

/-- The difference of `x` and `y` becomes a sum and a product, and `x` gives way to the value substituted for it. -/
theorem names_of_difference :
    let x := Expr.symbol "x"
    let y := Expr.symbol "y"
    let difference := Expr.apply Operator.sub [x, y]
    let negated := Expr.apply Operator.mul [.number (-1), y]
    let simplified := Expr.apply Operator.add [x, negated]
    (fixedPoint {} catalogue 256 difference = .ok (simplified, 2) ∧
      ∀ name,
        name.isName = true → simplified.contains name = true →
          difference.contains name = true ∨
            name = Operator.add ∨ name = Operator.mul ∨ name = Operator.pow) ∧
      ({} : Workspace).substitute ⟨[(x, y)]⟩ simplified = .ok (.number 0) ∧
        (Expr.number 0).contains x = false := by
  have settles :
      fixedPoint {} catalogue 256
          (.apply Operator.sub [.symbol "x", .symbol "y"]) =
        .ok (.apply Operator.add
          [.symbol "x", .apply Operator.mul [.number (-1), .symbol "y"]], 2) := by
    decide +kernel
  have substituted :
      ({} : Workspace).substitute ⟨[(.symbol "x", .symbol "y")]⟩
          (.apply Operator.add
            [.symbol "x", .apply Operator.mul [.number (-1), .symbol "y"]]) =
        .ok (.number 0) := by
    decide +kernel
  exact ⟨⟨settles, fun _ => names_of_simplified.1 settles⟩, substituted,
    names_of_simplified.2 (by decide) (by decide) substituted⟩

end SymbolicAlgebra
