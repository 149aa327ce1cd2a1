import SymbolicAlgebra.Proofs.Chain.Operands
import SymbolicAlgebra.Proofs.Closure.Family
import SymbolicAlgebra.Proofs.Regrouping
import SymbolicAlgebra.Rule.Catalogue

/-!
# Rules inside a family

A family that building does not leave contains what the rules of the catalogue make of its members.  There is
one exception: adding up like terms can give a coefficient that is not finite, and pulling a shared factor
out of such terms builds its literal.
-/

namespace SymbolicAlgebra

open SymbolicAlgebra.Expr

/-- The transformation replaces members of a family by members. -/
def Transform.Keeps
    (transform? : Transform)
    (table : SymbolTable)
    (builder : Builder)
    (family : Expr → Prop) : Prop :=
  ∀ ⦃node replacement⦄,
    family node → transform? table builder node = some replacement →
      family replacement

namespace ClosedUnderBuilding

variable {table : SymbolTable} {builder : Builder} {family : Expr → Prop}

/-! ## Canonical form -/

theorem commutativeOrder
    (closed : ClosedUnderBuilding builder family) :
    Transform.commutativeOrder?.Keeps table builder family := by
  intro node replacement member transformed
  unfold Transform.commutativeOrder? at transformed
  split at transformed
  · split at transformed
    · exact closed.built (closed.head member)
        (fun _ isArg => closed.arg member isArg) (eq_ok_of_toOption transformed)
    · cases transformed
  · cases transformed

theorem stripIdentities
    (closed : ClosedUnderBuilding builder family) :
    Transform.Keeps Transform.stripIdentities? table builder family := by
  have stripped
      {operand : Expr}
      (operandMember : family operand)
      (hypothesis :
        ∀ {replacement},
          Transform.stripIdentities? table builder operand = some replacement →
            family replacement) :
      family ((Transform.stripIdentities? table builder operand).getD operand) := by
    cases outcome : Transform.stripIdentities? table builder operand with
    | none =>
        exact operandMember
    | some replacement =>
        exact hypothesis outcome
  intro node
  induction node with
  | apply head args headHypothesis argsHypothesis =>
      intro replacement member transformed
      unfold Transform.stripIdentities? at transformed
      split at transformed
      · rename_i head lhs rhs same
        cases same
        have lhsMember := closed.arg member (show lhs ∈ [lhs, rhs] by simp)
        have rhsMember := closed.arg member (show rhs ∈ [lhs, rhs] by simp)
        split at transformed
        · cases transformed
        · split at transformed
          · cases transformed
            exact stripped rhsMember (argsHypothesis rhs (by simp) rhsMember)
          · split at transformed
            · cases transformed
              exact stripped lhsMember (argsHypothesis lhs (by simp) lhsMember)
            · cases transformed
      · cases transformed
  | _ =>
      nofun

theorem evaluateNumeric
    (closed : ClosedUnderBuilding builder family) :
    Transform.evaluateNumeric?.Keeps table builder family := by
  intro node replacement member transformed
  unfold Transform.evaluateNumeric? at transformed
  split at transformed
  · obtain ⟨spec, -, transformed⟩ := Option.bind_eq_some_iff.mp transformed
    obtain ⟨outcome, evaluated, succeeds⟩ :=
      Option.bind_eq_some_iff.mp transformed
    rw [eq_ok_of_toOption succeeds] at evaluated
    exact closed.value (OperatorSpec.isValue_of_evaluateLiterals? evaluated)
  · cases transformed

theorem absorbZero
    (closed : ClosedUnderBuilding builder family) :
    Transform.absorbZero?.Keeps table builder family := by
  intro node replacement member transformed
  unfold Transform.absorbZero? at transformed
  split at transformed
  · obtain ⟨spec, -, absorbed⟩ := Option.bind_eq_some_iff.mp transformed
    obtain ⟨-, among⟩ := Option.filter_eq_some_iff.mp absorbed
    exact closed.arg member (List.contains_iff_mem.mp among)
  · cases transformed

theorem foldConstants
    (closed : ClosedUnderBuilding builder family)
    {spec : OperatorSpec}
    {name : String}
    {total value : Expr}
    {rest : List Expr}
    (totalMember : family total)
    (folded : Transform.foldConstants? spec name total rest = some value) :
    family value := by
  induction rest generalizing total with
  | nil =>
      cases folded
      exact totalMember
  | cons next rest inductionHypothesis =>
      obtain ⟨outcome, evaluated, folded⟩ := Option.bind_eq_some_iff.mp folded
      obtain ⟨sum, succeeds, folded⟩ := Option.bind_eq_some_iff.mp folded
      rw [eq_ok_of_toOption succeeds] at evaluated
      have sumMember :=
        closed.value (OperatorSpec.isValue_of_evaluateLiterals? evaluated)
      split at folded
      · exact inductionHypothesis sumMember folded
      · cases folded

theorem literals
    (closed : ClosedUnderBuilding builder family)
    {spec : OperatorSpec}
    {op node : Expr}
    {folded : List Expr}
    (member : family node)
    (found : Transform.literals? spec op node = some folded) :
    ∀ literal ∈ folded, family literal := by
  have members :
      ∀ literal ∈ (Chain.flatten op node).filter (·.isNumber), family literal :=
    fun literal isLiteral =>
      closed.flatten member literal (List.mem_of_mem_filter isLiteral)
  unfold Transform.literals? Transform.foldedConstants? at found
  split at found
  · rename_i first second rest several
    split at found
    · obtain ⟨total, folds, rfl⟩ := Option.map_eq_some_iff.mp found
      have firstMember := members first (by rw [several]; exact List.mem_cons_self)
      exact List.forall_mem_singleton.mpr (closed.foldConstants firstMember folds)
    · cases found
      rw [← several]
      exact members
  · cases found
    exact members

theorem reassociateSorted
    (closed : ClosedUnderBuilding builder family)
    {spec : OperatorSpec}
    {op node replacement : Expr}
    (opMember : family op)
    (member : family node)
    (transformed :
      Transform.reassociateSorted? spec builder op node = some replacement) :
    family replacement := by
  rw [Transform.reassociateSorted?_eq] at transformed
  obtain ⟨regrouping, found, transformed⟩ := Option.bind_eq_some_iff.mp transformed
  obtain ⟨literals, folds, ⟨absorber, -, rfl, rfl⟩ | rfl⟩ :=
    Transform.exists_literals_of_regrouping? found
  · cases transformed
    exact closed.literals member folds replacement (List.mem_singleton_self replacement)
  · refine closed.sortedChain opMember ?_ transformed
    refine List.forall_mem_append.mpr ⟨?_, ?_⟩
    · exact fun item kept =>
        closed.literals member folds item
          (Transform.keptLiterals_subset _ _ _ kept)
    · exact fun item found =>
        closed.flatten member item (List.mem_of_mem_filter found)

theorem reassociate
    (closed : ClosedUnderBuilding builder family) :
    Transform.reassociate?.Keeps table builder family := by
  intro node replacement member transformed
  unfold Transform.reassociate? at transformed
  split at transformed
  · rename_i op args
    have opMember := closed.head member
    split at transformed
    · cases transformed
    · split at transformed
      · cases transformed
      · split at transformed
        · exact closed.reassociateSorted opMember member transformed
        · split at transformed
          · cases transformed
          · exact closed.chain opMember (closed.flatten member)
              (eq_ok_of_toOption transformed)
  · cases transformed

/-! ## Arithmetic -/

theorem convertPowers
    (closed : ClosedUnderBuilding builder family) :
    Transform.convertPowers?.Keeps table builder family := by
  intro node replacement member transformed
  unfold Transform.convertPowers? at transformed
  split at transformed
  · obtain ⟨factors, found, rebuilt⟩ := Option.bind_eq_some_iff.mp transformed
    exact closed.rebuild (closed.factors member found) rebuilt
  · cases transformed

theorem removeSubtraction
    (closed : ClosedUnderBuilding builder family) :
    Transform.removeSubtraction?.Keeps table builder family := by
  intro node replacement member transformed
  unfold Transform.removeSubtraction? at transformed
  split at transformed
  · cases transformed
  · rename_i lhs rhs found
    obtain ⟨-, lhsMember, rhsMember⟩ := closed.of_operands? member found
    obtain ⟨negated, negation, added⟩ :=
      exists_of_bind_eq_ok (eq_ok_of_toOption transformed)
    have negatedMember :=
      closed.pair closed.product rhsMember
        (closed.value (.number (by decide))) negation
    exact closed.pair closed.sum lhsMember negatedMember added

theorem distribute
    (closed : ClosedUnderBuilding builder family)
    {outer inner node replacement : Expr}
    (member : family node)
    (transformed :
      Transform.distribute? builder outer inner node = some replacement) :
    family replacement := by
  have spreads
      {factor first second : Expr}
      (outerMember : family outer)
      (innerMember : family inner)
      (factorMember : family factor)
      (firstMember : family first)
      (secondMember : family second)
      (spread :
        (Transform.spread builder outer inner factor first second).toOption =
          some replacement) :
      family replacement := by
    obtain ⟨left, leftBuilt, spread⟩ :=
      exists_of_bind_eq_ok (eq_ok_of_toOption spread)
    obtain ⟨right, rightBuilt, built⟩ := exists_of_bind_eq_ok spread
    exact closed.pair innerMember
      (closed.pair outerMember firstMember factorMember leftBuilt)
      (closed.pair outerMember secondMember factorMember rightBuilt) built
  unfold Transform.distribute? at transformed
  split at transformed
  · cases transformed
  · rename_i lhs rhs found
    obtain ⟨outerMember, lhsMember, rhsMember⟩ := closed.of_operands? member found
    split at transformed
    · rename_i first second inLhs
      obtain ⟨innerMember, firstMember, secondMember⟩ :=
        closed.of_operands? lhsMember inLhs
      exact spreads outerMember innerMember rhsMember firstMember secondMember
        transformed
    · split at transformed
      · rename_i first second inRhs
        obtain ⟨innerMember, firstMember, secondMember⟩ :=
          closed.of_operands? rhsMember inRhs
        exact spreads outerMember innerMember lhsMember firstMember secondMember
          transformed
      · cases transformed

theorem multiplyQuotient
    (closed : ClosedUnderBuilding builder family)
    {factor quotient numerator denominator replacement : Expr}
    (factorMember : family factor)
    (quotientMember : family quotient)
    (found : quotient.operands? Operator.div = some (numerator, denominator))
    (transformed :
      Transform.multiplyQuotient? builder factor numerator denominator =
        some replacement) :
    family replacement := by
  obtain ⟨divMember, numeratorMember, denominatorMember⟩ :=
    closed.of_operands? quotientMember found
  unfold Transform.multiplyQuotient? at transformed
  split at transformed
  · cases transformed
    exact numeratorMember
  · obtain ⟨product, multiplied, divided⟩ :=
      exists_of_bind_eq_ok (eq_ok_of_toOption transformed)
    exact closed.pair divMember
      (closed.pair closed.product factorMember numeratorMember multiplied)
      denominatorMember divided

theorem cancelQuotient
    (closed : ClosedUnderBuilding builder family)
    {numerator denominator replacement : Expr}
    (numeratorMember : family numerator)
    (denominatorMember : family denominator)
    (transformed :
      Transform.cancelQuotient? builder numerator denominator = some replacement) :
    family replacement := by
  unfold Transform.cancelQuotient? at transformed
  split at transformed
  · dsimp only at transformed
    split at transformed
    · rename_i isFinite
      exact closed.pair closed.product numeratorMember (closed.literal isFinite)
        (eq_ok_of_toOption transformed)
    · cases transformed
  · obtain ⟨dividend, dividendFound, transformed⟩ :=
      Option.bind_eq_some_iff.mp transformed
    obtain ⟨divisor, divisorFound, transformed⟩ :=
      Option.bind_eq_some_iff.mp transformed
    obtain ⟨quotient, divided, rebuilt⟩ := Option.bind_eq_some_iff.mp transformed
    have quotientMembers :=
      closed.divide (closed.factors numeratorMember dividendFound)
        (closed.factors denominatorMember divisorFound) divided
    exact closed.rebuild quotientMembers rebuilt

theorem cancelDivision
    (closed : ClosedUnderBuilding builder family) :
    Transform.cancelDivision?.Keeps table builder family := by
  intro node replacement member transformed
  unfold Transform.cancelDivision? at transformed
  split at transformed
  · rename_i lhs rhs product
    obtain ⟨-, lhsMember, rhsMember⟩ := closed.of_operands? member product
    unfold Transform.cancelProduct? at transformed
    split at transformed
    · rename_i found
      exact closed.multiplyQuotient lhsMember rhsMember found transformed
    · split at transformed
      · rename_i found
        exact closed.multiplyQuotient rhsMember lhsMember found transformed
      · cases transformed
  · split at transformed
    · rename_i numerator denominator quotient
      obtain ⟨-, numeratorMember, denominatorMember⟩ :=
        closed.of_operands? member quotient
      exact closed.cancelQuotient numeratorMember denominatorMember transformed
    · cases transformed

theorem mulOverAdd
    (closed : ClosedUnderBuilding builder family) :
    Transform.mulOverAdd?.Keeps table builder family :=
  fun _ _ member transformed => closed.distribute member transformed

theorem andOverOr
    (closed : ClosedUnderBuilding builder family) :
    Transform.andOverOr?.Keeps table builder family :=
  fun _ _ member transformed => closed.distribute member transformed

/-! ## Bitwise identities -/

theorem cancelPairs
    (closed : ClosedUnderBuilding builder family)
    {node replacement : Expr}
    (opMember : family Operator.bitXor)
    (member : family node)
    (transformed : Transform.cancelPairs? builder node = some replacement) :
    family replacement := by
  unfold Transform.cancelPairs? at transformed
  dsimp only at transformed
  split at transformed
  · cases transformed
  · split at transformed
    · cases transformed
      exact closed.zero
    · refine closed.sortedChain opMember ?_ transformed
      intro item kept
      exact closed.flatten member item ((Transform.oddItems_subperm _).subset kept)

theorem deduplicate
    (closed : ClosedUnderBuilding builder family)
    {op node replacement : Expr}
    (opMember : family op)
    (member : family node)
    (transformed : Transform.deduplicate? builder op node = some replacement) :
    family replacement := by
  unfold Transform.deduplicate? at transformed
  dsimp only at transformed
  split at transformed
  · cases transformed
  · refine closed.sortedChain opMember ?_ transformed
    intro item kept
    exact closed.flatten member item (Transform.mem_distinctItems.mp kept)

theorem cancelShift
    (closed : ClosedUnderBuilding builder family)
    {inverse shifted count replacement : Expr}
    (shiftedMember : family shifted)
    (transformed :
      Transform.cancelShift? inverse shifted count = some replacement) :
    family replacement := by
  unfold Transform.cancelShift? at transformed
  split at transformed
  · rename_i found
    split at transformed
    · cases transformed
      exact (closed.of_operands? shiftedMember found).2.1
    · cases transformed
  · cases transformed

theorem bitIdentities
    (closed : ClosedUnderBuilding builder family) :
    Transform.bitIdentities?.Keeps table builder family := by
  intro node replacement member transformed
  unfold Transform.bitIdentities? at transformed
  split at transformed
  · have headMember := closed.head member
    split at transformed
    · rename_i isExclusion
      subst isExclusion
      exact closed.cancelPairs headMember member transformed
    · split at transformed
      · rename_i isConjunction
        subst isConjunction
        exact closed.deduplicate headMember member transformed
      · split at transformed
        · rename_i isDisjunction
          subst isDisjunction
          exact closed.deduplicate headMember member transformed
        · split at transformed
          · rename_i shifted count
            have shiftedMember :=
              closed.arg member (show shifted ∈ [shifted, count] by simp)
            split at transformed
            · exact closed.cancelShift shiftedMember transformed
            · split at transformed
              · exact closed.cancelShift shiftedMember transformed
              · cases transformed
          · cases transformed
  · cases transformed

end ClosedUnderBuilding

end SymbolicAlgebra
