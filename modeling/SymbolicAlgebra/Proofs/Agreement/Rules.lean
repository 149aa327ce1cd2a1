import SymbolicAlgebra.Proofs.Agreement.Family
import SymbolicAlgebra.Proofs.Closure.Simplification

/-!
# Rules in surroundings that agree

What a rule of the catalogue makes of a member of a family is the same in surroundings that agree on the family.
So are passes, simplifications and terms built in simplified form.
-/

namespace SymbolicAlgebra

open SymbolicAlgebra.Expr

/-- The transformation makes the same of every member in both surroundings. -/
def Transform.Alike
    (transform? : Transform)
    (family : Expr → Prop)
    (table table' : SymbolTable)
    (builder builder' : Builder) : Prop :=
  ∀ {node}, family node → transform? table builder node = transform? table' builder' node

namespace AgreeOn

variable {family : Expr → Prop} {table table' : SymbolTable} {builder builder' : Builder}

/-! ## Canonical form -/

theorem commutativeOrder
    (agree : AgreeOn family table table' builder builder') :
    Transform.commutativeOrder?.Alike family table table' builder builder' := by
  intro node member
  unfold Transform.commutativeOrder?
  split
  · have headMember := agree.closed.head member
    rw [agree.specOf?_eq headMember,
      agree.built_eq headMember fun arg isArg => agree.closed.arg member isArg]
  · rfl

theorem stripIdentities
    (agree : AgreeOn family table table' builder builder') :
    Transform.Alike Transform.stripIdentities? family table table' builder builder' := by
  intro node member
  induction node with
  | apply head args headHypothesis argsHypothesis =>
      unfold Transform.stripIdentities?
      split
      · rename_i head lhs rhs same
        cases same
        have lhsMember := agree.closed.arg member (show lhs ∈ [lhs, rhs] by simp)
        have rhsMember := agree.closed.arg member (show rhs ∈ [lhs, rhs] by simp)
        rw [agree.specOf?_eq (agree.closed.head member),
          argsHypothesis lhs (by simp) lhsMember,
          argsHypothesis rhs (by simp) rhsMember]
      · rfl
  | _ =>
      rfl

theorem evaluateNumeric
    (agree : AgreeOn family table table' builder builder') :
    Transform.evaluateNumeric?.Alike family table table' builder builder' := by
  intro node member
  unfold Transform.evaluateNumeric?
  split
  · rw [agree.specOf?_eq (agree.closed.head member)]
  · rfl

theorem absorbZero
    (agree : AgreeOn family table table' builder builder') :
    Transform.absorbZero?.Alike family table table' builder builder' := by
  intro node member
  unfold Transform.absorbZero?
  split
  · rw [agree.specOf?_eq (agree.closed.head member)]
  · rfl

theorem reassociateSorted
    (agree : AgreeOn family table table' builder builder')
    (spec : OperatorSpec)
    {op node : Expr}
    (opMember : family op)
    (member : family node) :
    Transform.reassociateSorted? spec builder op node =
      Transform.reassociateSorted? spec builder' op node := by
  rw [Transform.reassociateSorted?_eq, Transform.reassociateSorted?_eq]
  refine option_bind_congr fun regrouping found => ?_
  obtain ⟨literals, folds, ⟨zero, -, -, rfl⟩ | rfl⟩ :=
    Transform.exists_literals_of_regrouping? found
  · rfl
  · refine agree.sortedChain opMember (List.forall_mem_append.mpr ⟨?_, ?_⟩)
    · exact fun item kept =>
        agree.closed.literals member folds item
          (Transform.keptLiterals_subset _ _ _ kept)
    · exact fun item found =>
        agree.closed.flatten member item (List.mem_of_mem_filter found)

theorem reassociate
    (agree : AgreeOn family table table' builder builder') :
    Transform.reassociate?.Alike family table table' builder builder' := by
  intro node member
  unfold Transform.reassociate?
  split
  · rename_i op args
    have opMember := agree.closed.head member
    rw [agree.specOf?_eq opMember,
      agree.chain opMember (agree.closed.flatten member)]
    cases table'.specOf? op with
    | none =>
        rfl
    | some spec =>
        dsimp only
        rw [agree.reassociateSorted spec opMember member]
  · rfl

/-! ## Arithmetic -/

theorem convertPowers
    (agree : AgreeOn family table table' builder builder') :
    Transform.convertPowers?.Alike family table table' builder builder' := by
  intro node member
  unfold Transform.convertPowers?
  split
  · rw [← agree.factors member]
    refine option_bind_congr fun factors found => ?_
    exact agree.rebuild (agree.closed.factors member found)
  · rfl

theorem removeSubtraction
    (agree : AgreeOn family table table' builder builder') :
    Transform.removeSubtraction?.Alike family table table' builder builder' := by
  intro node member
  have minusOne : family (.number (-1)) :=
    agree.closed.value (.number (by decide))
  unfold Transform.removeSubtraction?
  split
  · rfl
  · rename_i lhs rhs found
    obtain ⟨-, lhsMember, rhsMember⟩ := agree.closed.of_operands? member found
    rw [← agree.pair agree.closed.product rhsMember minusOne]
    refine congrArg Except.toOption (bind_congr_of_ok fun negated negation => ?_)
    exact agree.pair agree.closed.sum lhsMember
      (agree.closed.pair agree.closed.product rhsMember minusOne negation)

theorem spread
    (agree : AgreeOn family table table' builder builder')
    {outer inner factor first second : Expr}
    (outerMember : family outer)
    (innerMember : family inner)
    (factorMember : family factor)
    (firstMember : family first)
    (secondMember : family second) :
    Transform.spread builder outer inner factor first second =
      Transform.spread builder' outer inner factor first second := by
  rw [Transform.spread, Transform.spread,
    ← agree.pair outerMember firstMember factorMember,
    ← agree.pair outerMember secondMember factorMember]
  refine bind_congr_of_ok fun left leftBuilt => ?_
  refine bind_congr_of_ok fun right rightBuilt => ?_
  exact agree.pair innerMember
    (agree.closed.pair outerMember firstMember factorMember leftBuilt)
    (agree.closed.pair outerMember secondMember factorMember rightBuilt)

theorem distribute
    (agree : AgreeOn family table table' builder builder')
    (outer inner : Expr)
    {node : Expr}
    (member : family node) :
    Transform.distribute? builder outer inner node =
      Transform.distribute? builder' outer inner node := by
  unfold Transform.distribute?
  split
  · rfl
  · rename_i lhs rhs found
    obtain ⟨outerMember, lhsMember, rhsMember⟩ :=
      agree.closed.of_operands? member found
    split
    · rename_i first second inLhs
      obtain ⟨innerMember, firstMember, secondMember⟩ :=
        agree.closed.of_operands? lhsMember inLhs
      rw [agree.spread outerMember innerMember rhsMember firstMember secondMember]
    · split
      · rename_i first second inRhs
        obtain ⟨innerMember, firstMember, secondMember⟩ :=
          agree.closed.of_operands? rhsMember inRhs
        rw [agree.spread outerMember innerMember lhsMember firstMember secondMember]
      · rfl

theorem multiplyQuotient
    (agree : AgreeOn family table table' builder builder')
    {factor quotient numerator denominator : Expr}
    (factorMember : family factor)
    (quotientMember : family quotient)
    (found : quotient.operands? Operator.div = some (numerator, denominator)) :
    Transform.multiplyQuotient? builder factor numerator denominator =
      Transform.multiplyQuotient? builder' factor numerator denominator := by
  obtain ⟨divMember, numeratorMember, denominatorMember⟩ :=
    agree.closed.of_operands? quotientMember found
  unfold Transform.multiplyQuotient?
  split
  · rfl
  · rw [← agree.pair agree.closed.product factorMember numeratorMember]
    refine congrArg Except.toOption (bind_congr_of_ok fun product multiplied => ?_)
    exact agree.pair divMember
      (agree.closed.pair agree.closed.product factorMember numeratorMember multiplied)
      denominatorMember

theorem cancelQuotient
    (agree : AgreeOn family table table' builder builder')
    {numerator denominator : Expr}
    (numeratorMember : family numerator)
    (denominatorMember : family denominator) :
    Transform.cancelQuotient? builder numerator denominator =
      Transform.cancelQuotient? builder' numerator denominator := by
  unfold Transform.cancelQuotient?
  split
  · rename_i divisor
    dsimp only
    rw [agree.pair agree.closed.product numeratorMember (agree.literals (1 / divisor))]
  · rw [← agree.factors numeratorMember, ← agree.factors denominatorMember]
    refine option_bind_congr fun dividend dividendFound => ?_
    refine option_bind_congr fun divisor divisorFound => ?_
    have dividendMembers := agree.closed.factors numeratorMember dividendFound
    have divisorMembers := agree.closed.factors denominatorMember divisorFound
    rw [← agree.divide dividendMembers divisorMembers]
    refine option_bind_congr fun quotient divided => ?_
    exact agree.rebuild (agree.closed.divide dividendMembers divisorMembers divided)

theorem cancelDivision
    (agree : AgreeOn family table table' builder builder') :
    Transform.cancelDivision?.Alike family table table' builder builder' := by
  intro node member
  unfold Transform.cancelDivision?
  split
  · rename_i lhs rhs product
    obtain ⟨-, lhsMember, rhsMember⟩ := agree.closed.of_operands? member product
    unfold Transform.cancelProduct?
    split
    · rename_i found
      exact agree.multiplyQuotient lhsMember rhsMember found
    · split
      · rename_i found
        exact agree.multiplyQuotient rhsMember lhsMember found
      · rfl
  · split
    · rename_i numerator denominator quotient
      obtain ⟨-, numeratorMember, denominatorMember⟩ :=
        agree.closed.of_operands? member quotient
      exact agree.cancelQuotient numeratorMember denominatorMember
    · rfl

theorem foldAdditions
    (agree : AgreeOn family table table' builder builder') :
    Transform.foldAdditions?.Alike family table table' builder builder' := by
  intro node member
  have flat : ∀ item ∈ Chain.flatten Operator.add node, family item :=
    agree.closed.flatten member
  have bases : ∀ group ∈ Transform.addendGroups node, family group.1 :=
    agree.closed.likeTerms fun addend found => flat addend (List.mem_of_mem_filter found)
  unfold Transform.foldAdditions?
  split
  · rfl
  · have merged := agree.mergeShared bases false (Transform.addendGroups node).length
    unfold Transform.addendGroups Transform.nonliterals at merged bases
    dsimp only
    rw [← merged]
    refine option_bind_congr fun outcome mergedTo => ?_
    obtain ⟨groups, merged⟩ := outcome
    have groupMembers :=
      agree.closed.mergeShared
        (fun group found => ⟨bases group found, agree.literals group.2⟩) mergedTo
    have mergedBases : ∀ group ∈ groups, family group.1 :=
      fun group found => (groupMembers group found).1
    dsimp only
    rw [← agree.groupTerms mergedBases]
    split
    · rfl
    · refine option_bind_congr fun terms built => ?_
      split
      · rfl
      · refine agree.sortedChain agree.closed.sum (List.forall_mem_append.mpr ⟨?_, ?_⟩)
        · exact fun literal found => flat literal (List.mem_of_mem_filter found)
        · exact agree.closed.groupTerms mergedBases built

/-! ## Bitwise identities -/

theorem cancelPairs
    (agree : AgreeOn family table table' builder builder')
    {node : Expr}
    (opMember : family Operator.bitXor)
    (member : family node) :
    Transform.cancelPairs? builder node = Transform.cancelPairs? builder' node := by
  unfold Transform.cancelPairs?
  dsimp only
  rw [agree.sortedChain opMember fun item kept =>
    agree.closed.flatten member item ((Transform.oddItems_subperm _).subset kept)]

theorem deduplicate
    (agree : AgreeOn family table table' builder builder')
    {op node : Expr}
    (opMember : family op)
    (member : family node) :
    Transform.deduplicate? builder op node = Transform.deduplicate? builder' op node := by
  unfold Transform.deduplicate?
  dsimp only
  rw [agree.sortedChain opMember fun item kept =>
    agree.closed.flatten member item (Transform.mem_distinctItems.mp kept)]

theorem bitIdentities
    (agree : AgreeOn family table table' builder builder') :
    Transform.bitIdentities?.Alike family table table' builder builder' := by
  intro node member
  unfold Transform.bitIdentities?
  split
  · have headMember := agree.closed.head member
    split
    · rename_i isExclusion
      subst isExclusion
      exact agree.cancelPairs headMember member
    · split
      · rename_i isConjunction
        subst isConjunction
        exact agree.deduplicate headMember member
      · split
        · rename_i isDisjunction
          subst isDisjunction
          exact agree.deduplicate headMember member
        · rfl
  · rfl

/-! ## The catalogue -/

/-- Every rule of the catalogue treats the members alike. -/
theorem transform?
    (agree : AgreeOn family table table' builder builder')
    {rule : Rule}
    (member : rule ∈ catalogue) :
    rule.transform?.Alike family table table' builder builder' := by
  simp only [catalogue, List.mem_cons, List.not_mem_nil, or_false] at member
  rcases member with rfl | rfl | rfl | rfl | rfl | rfl | rfl | rfl | rfl | rfl |
    rfl | rfl
  · exact agree.commutativeOrder
  · exact agree.stripIdentities
  · exact agree.evaluateNumeric
  · exact agree.convertPowers
  · exact agree.removeSubtraction
  · exact fun member => agree.distribute _ _ member
  · exact fun member => agree.distribute _ _ member
  · exact agree.cancelDivision
  · exact agree.foldAdditions
  · exact agree.absorbZero
  · exact agree.reassociate
  · exact agree.bitIdentities

end AgreeOn

end SymbolicAlgebra
