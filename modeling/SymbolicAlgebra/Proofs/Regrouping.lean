import SymbolicAlgebra.Rule.Canonical

/-!
# What regrouping does to a chain

Regrouping the chain of a commutative operator first folds its literals.  Then either a literal takes
over the whole chain, or there is a list of operands from which the chain is built anew.
-/

namespace SymbolicAlgebra

/-- The outcome of looking at a chain: a literal that takes over, or operands for a new chain. -/
inductive Regrouping where
  | absorbed (zero : Expr)
  | rebuilt (operands : List Expr)

/-- Builds what a regrouping stands for. -/
def Regrouping.build?
    (builder : Builder)
    (op : Expr) : Regrouping → Option Expr
  | absorbed zero => some zero
  | rebuilt operands => (Chain.build builder op operands).toOption

namespace Transform

/-- The operands of a chain that are no literals. -/
def nonliterals
    (op node : Expr) : List Expr :=
  (Chain.flatten op node).filter (!·.isNumber)

/-- The literals of a chain after folding. -/
def literals?
    (spec : OperatorSpec)
    (op node : Expr) : Option (List Expr) :=
  foldedConstants? spec (op.symbol?.getD "")
    ((Chain.flatten op node).filter (·.isNumber))

/-- The literals that stay beside the other operands: a single identity does not. -/
def keptLiterals
    (spec : OperatorSpec)
    (others : List Expr) : (literals : List Expr) → List Expr
  | [literal] =>
    if isIdentity spec literal && !others.isEmpty then [] else [literal]
  | literals => literals

/-- A chain is built anew from operands unless it has just these operands and the right shape. -/
def rebuilding?
    (op node : Expr)
    (operands : List Expr) : Option Regrouping :=
  if operands = Chain.flatten op node ∧ Chain.isRightNested op node then
    none
  else
    some (.rebuilt operands)

theorem eq_rebuilt_of_rebuilding?
    {op node : Expr}
    {operands : List Expr}
    {regrouping : Regrouping}
    (found : rebuilding? op node operands = some regrouping) :
    regrouping = .rebuilt operands := by
  unfold rebuilding? at found
  split at found
  · cases found
  · exact (Option.some.inj found).symm

/-- A single literal that takes over the chain. -/
def absorbing?
    (spec : OperatorSpec)
    (literals : List Expr) : Option Expr :=
  spec.zero.filter (literals = [·])

/-- How the chain of a commutative operator is regrouped; `none` if it stays as it is. -/
def regrouping?
    (spec : OperatorSpec)
    (op node : Expr) : Option Regrouping :=
  match literals? spec op node with
  | none => none
  | some literals =>
    match absorbing? spec literals with
    | some zero => some (.absorbed zero)
    | none =>
      rebuilding? op node <|
        Expr.sortCanonically <|
          keptLiterals spec (nonliterals op node) literals ++ nonliterals op node

/-- A literal takes over only if it is the operator's zero. -/
theorem absorbing?_eq_some
    {spec : OperatorSpec}
    {literals : List Expr}
    {zero : Expr} :
    absorbing? spec literals = some zero ↔
      spec.zero = some zero ∧ literals = [zero] := by
  simp [absorbing?, Option.filter_eq_some_iff]

/-- Nothing takes over unless a single literal is left and is the operator's zero. -/
theorem absorbing?_eq_none
    {spec : OperatorSpec}
    {literals : List Expr}
    (unlike : ∀ zero, spec.zero = some zero → literals ≠ [zero]) :
    absorbing? spec literals = none := by
  rw [Option.eq_none_iff_forall_ne_some]
  intro zero absorbs
  obtain ⟨declared, same⟩ := absorbing?_eq_some.mp absorbs
  exact unlike zero declared same

theorem keptLiterals_subset
    (spec : OperatorSpec)
    (others literals : List Expr) :
    keptLiterals spec others literals ⊆ literals := by
  unfold keptLiterals
  split
  · split
    · exact List.nil_subset _
    · exact List.Subset.refl _
  · exact List.Subset.refl _

/-- What becomes of a chain: the operator's zero, or the sorted operands with the literals that stay. -/
theorem exists_literals_of_regrouping?
    {spec : OperatorSpec}
    {op node : Expr}
    {regrouping : Regrouping}
    (regroups : regrouping? spec op node = some regrouping) :
    ∃ literals,
      literals? spec op node = some literals ∧
        ((∃ zero,
            spec.zero = some zero ∧ literals = [zero] ∧
              regrouping = .absorbed zero) ∨
          regrouping =
            .rebuilt
              (Expr.sortCanonically
                (keptLiterals spec (nonliterals op node) literals ++
                  nonliterals op node))) := by
  unfold regrouping? at regroups
  split at regroups
  · cases regroups
  · rename_i literals folds
    refine ⟨literals, folds, ?_⟩
    split at regroups
    · rename_i zero absorbs
      obtain ⟨declared, same⟩ := absorbing?_eq_some.mp absorbs
      exact .inl ⟨zero, declared, same, (Option.some.inj regroups).symm⟩
    · exact .inr (eq_rebuilt_of_rebuilding? regroups)

/-- If no literal takes over, a chain is built anew from the literals that stay and the other operands. -/
theorem regrouping?_of_literals?
    {spec : OperatorSpec}
    {op node : Expr}
    {literals : List Expr}
    (folds : literals? spec op node = some literals)
    (unabsorbed : absorbing? spec literals = none) :
    regrouping? spec op node =
      rebuilding? op node
        (Expr.sortCanonically
          (keptLiterals spec (nonliterals op node) literals ++ nonliterals op node)) := by
  simp only [regrouping?, folds, unabsorbed]

/-- Regrouping a chain builds what it comes to. -/
theorem reassociateSorted?_eq
    (spec : OperatorSpec)
    (builder : Builder)
    (op node : Expr) :
    reassociateSorted? spec builder op node =
      (regrouping? spec op node).bind (Regrouping.build? builder op) := by
  have again (operands : List Expr) :
      (rebuilding? op node operands).bind (Regrouping.build? builder op) =
        if operands = Chain.flatten op node ∧ Chain.isRightNested op node then
          none
        else
          (Chain.build builder op operands).toOption := by
    unfold rebuilding?
    split <;> rfl
  unfold reassociateSorted? regrouping?
  change (literals? spec op node).bind _ = _
  cases literals? spec op node with
  | none =>
      rfl
  | some literals =>
      simp only [Option.bind_some]
      split
      · rename_i literal
        split
        · rename_i declared
          rw [absorbing?_eq_some.mpr ⟨declared, rfl⟩]
          rfl
        · rename_i undeclared
          have unabsorbed : absorbing? spec [literal] = none :=
            absorbing?_eq_none fun zero declared same =>
              undeclared (List.singleton_inj.mp same ▸ declared)
          rw [unabsorbed, again, keptLiterals]
          by_cases neutral :
              (isIdentity spec literal && !(nonliterals op node).isEmpty) = true
          · rw [if_pos neutral]
            exact if_pos neutral
          · rw [if_neg neutral]
            exact if_neg neutral
      · rename_i several
        have unabsorbed : absorbing? spec literals = none :=
          absorbing?_eq_none fun zero _ => several zero
        have kept : keptLiterals spec (nonliterals op node) literals = literals := by
          unfold keptLiterals
          split
          · rename_i literal
            exact (several literal rfl).elim
          · rfl
        rw [unabsorbed, again, kept]
        rfl

/-- The chain of an operator that is associative and commutative is regrouped. -/
theorem reassociate?_eq
    {table : SymbolTable}
    {op : Expr}
    {spec : OperatorSpec}
    (found : table.specOf? op = some spec)
    (associative : spec.associative = true)
    (commutative : spec.commutative = true)
    (builder : Builder)
    (args : List Expr) :
    reassociate? table builder (.apply op args) =
      (regrouping? spec op (.apply op args)).bind (Regrouping.build? builder op) := by
  rw [← reassociateSorted?_eq]
  simp only [reassociate?, found, associative, commutative, Bool.not_true,
    Bool.false_eq_true, if_false, if_true]

/-- A chain without literals is built anew from its sorted operands. -/
theorem regrouping?_of_nonliterals
    (spec : OperatorSpec)
    {op node : Expr}
    (notLiterals : ∀ item ∈ Chain.flatten op node, item.isNumber = false) :
    regrouping? spec op node =
      rebuilding? op node (Expr.sortCanonically (Chain.flatten op node)) := by
  have noLiterals : (Chain.flatten op node).filter (·.isNumber) = [] := by
    rw [List.filter_eq_nil_iff]
    intro item member
    simp [notLiterals item member]
  have others : nonliterals op node = Chain.flatten op node := by
    rw [nonliterals, List.filter_eq_self]
    intro item member
    simp [notLiterals item member]
  have folds : literals? spec op node = some [] := by
    rw [literals?, noLiterals]
    rfl
  have unabsorbed : absorbing? spec [] = none :=
    absorbing?_eq_none fun zero _ => (List.cons_ne_nil zero []).symm
  rw [regrouping?_of_literals? folds unabsorbed, others]
  rfl

end Transform

end SymbolicAlgebra
