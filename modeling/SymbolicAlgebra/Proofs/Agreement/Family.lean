import SymbolicAlgebra.Proofs.Closure.LikeTerms

/-!
# Surroundings that agree on a family

A rule sees of its surroundings a table, which it asks for the properties of heads, and a builder, to which it
hands what it takes apart and what it has built.  If two tables and two builders agree on a family that building
does not leave, chains, products and sums of members are the same in both.
-/

namespace SymbolicAlgebra

open SymbolicAlgebra.Expr

/-- Steps that follow a first one alike, whatever it gives, come to the same. -/
theorem bind_congr_of_ok
    {ε α β : Type}
    {first : Except ε α}
    {next next' : α → Except ε β}
    (same : ∀ value, first = .ok value → next value = next' value) :
    first >>= next = first >>= next' := by
  cases first with
  | error error =>
      rfl
  | ok value =>
      exact same value rfl

theorem option_bind_congr
    {α β : Type}
    {first : Option α}
    {next next' : α → Option β}
    (same : ∀ value, first = some value → next value = next' value) :
    first >>= next = first >>= next' := by
  cases first with
  | none =>
      rfl
  | some value =>
      exact same value rfl

/-- Heads of the family have the same properties, and of members the same is built, which is a member. -/
structure AgreeOn
    (family : Expr → Prop)
    (table table' : SymbolTable)
    (builder builder' : Builder) : Prop where
  closed :
    ClosedUnderBuilding builder family
  literals :
    ∀ value, family (.ofFloat value)
  specOf?_eq :
    ∀ {head}, family head → table.specOf? head = table'.specOf? head
  built_eq :
    ∀ {head args},
      family head → (∀ arg ∈ args, family arg) → builder head args = builder' head args

namespace AgreeOn

variable {family : Expr → Prop} {table table' : SymbolTable} {builder builder' : Builder}

theorem pair
    (agree : AgreeOn family table table' builder builder')
    {head lhs rhs : Expr}
    (headMember : family head)
    (lhsMember : family lhs)
    (rhsMember : family rhs) :
    builder head [lhs, rhs] = builder' head [lhs, rhs] :=
  agree.built_eq headMember
    (List.forall_mem_cons.mpr ⟨lhsMember, List.forall_mem_singleton.mpr rhsMember⟩)

/-! ## Chains -/

theorem chain
    (agree : AgreeOn family table table' builder builder')
    {op : Expr}
    {items : List Expr}
    (opMember : family op)
    (members : ∀ item ∈ items, family item) :
    Chain.build builder op items = Chain.build builder' op items := by
  induction items with
  | nil =>
      rfl
  | cons item rest inductionHypothesis =>
      obtain ⟨itemMember, restMembers⟩ := List.forall_mem_cons.mp members
      cases rest with
      | nil =>
          rfl
      | cons next rest =>
          rw [Chain.build, Chain.build, ← inductionHypothesis restMembers]
          refine bind_congr_of_ok fun later laterBuilt => ?_
          exact agree.pair opMember itemMember
            (agree.closed.chain opMember restMembers laterBuilt)

theorem sortedChain
    (agree : AgreeOn family table table' builder builder')
    {op : Expr}
    {items : List Expr}
    (opMember : family op)
    (members : ∀ item ∈ items, family item) :
    (Chain.build builder op (sortCanonically items)).toOption =
      (Chain.build builder' op (sortCanonically items)).toOption := by
  refine congrArg Except.toOption (agree.chain opMember fun item found => ?_)
  exact members item ((sortBy_perm _ items).mem_iff.mp found)

/-! ## Products and powers -/

open ClosedUnderBuilding (Powers Groups)

theorem scaleExponent
    (agree : AgreeOn family table table' builder builder')
    {outer inner : Expr}
    (outerMember : family outer)
    (innerMember : family inner) :
    scaleExponent? builder outer inner = scaleExponent? builder' outer inner := by
  rw [scaleExponent?, scaleExponent?, agree.pair agree.closed.product outerMember innerMember]

theorem addExponents
    (agree : AgreeOn family table table' builder builder')
    {first second : Expr}
    (firstMember : family first)
    (secondMember : family second) :
    addExponents? builder first second = addExponents? builder' first second := by
  rw [addExponents?, addExponents?, agree.pair agree.closed.sum firstMember secondMember]

theorem insertPower
    (agree : AgreeOn family table table' builder builder')
    {base exponent : Expr}
    {powers : List (Expr × Expr)}
    (exponentMember : family exponent)
    (members : Powers family powers) :
    Factors.insertPower? builder base exponent powers =
      Factors.insertPower? builder' base exponent powers := by
  induction powers with
  | nil =>
      rfl
  | cons entry rest inductionHypothesis =>
      obtain ⟨entryMember, restMembers⟩ := List.forall_mem_cons.mp members
      rw [Factors.insertPower?, Factors.insertPower?,
        agree.addExponents entryMember.2 exponentMember, inductionHypothesis restMembers]

theorem push
    (agree : AgreeOn family table table' builder builder')
    {factors : Factors}
    {base exponent : Expr}
    (exponentMember : family exponent)
    (members : Powers family factors.powers) :
    factors.push? builder base exponent = factors.push? builder' base exponent := by
  unfold Factors.push?
  split
  · rfl
  · rw [agree.insertPower exponentMember members]

theorem collectArgs
    (agree : AgreeOn family table table' builder builder')
    {args : List Expr}
    {exponent : Expr}
    {factors : Factors}
    (argMembers : ∀ arg ∈ args, family arg)
    (exponentMember : family exponent)
    (members : Powers family factors.powers)
    (each :
      ∀ arg ∈ args, ∀ {factors : Factors},
        Powers family factors.powers →
          factors.collect? builder arg exponent = factors.collect? builder' arg exponent) :
    factors.collectArgs? builder args exponent =
      factors.collectArgs? builder' args exponent := by
  induction args generalizing factors with
  | nil =>
      rfl
  | cons arg rest inductionHypothesis =>
      obtain ⟨argMember, restMembers⟩ := List.forall_mem_cons.mp argMembers
      obtain ⟨first, later⟩ := List.forall_mem_cons.mp each
      rw [Factors.collectArgs?, Factors.collectArgs?, ← first members]
      cases collected : factors.collect? builder arg exponent with
      | none =>
          rfl
      | some extended =>
          exact inductionHypothesis restMembers
            (agree.closed.collect argMember exponentMember members collected) later

theorem collect
    (agree : AgreeOn family table table' builder builder')
    {expr exponent : Expr}
    {factors : Factors}
    (member : family expr)
    (exponentMember : family exponent)
    (members : Powers family factors.powers) :
    factors.collect? builder expr exponent = factors.collect? builder' expr exponent := by
  induction expr generalizing factors exponent with
  | apply head args headHypothesis argsHypothesis =>
      have argMembers : ∀ arg ∈ args, family arg :=
        fun arg isArg => agree.closed.arg member isArg
      unfold Factors.collect?
      split
      · refine agree.collectArgs argMembers exponentMember members ?_
        intro arg isArg factors members
        exact argsHypothesis arg isArg (argMembers arg isArg) exponentMember members
      · split
        · rename_i base inner
          split
          · rw [← agree.scaleExponent exponentMember (argMembers inner (by simp))]
            cases scaled : scaleExponent? builder exponent inner with
            | none =>
                rfl
            | some combined =>
                have combinedMember :=
                  agree.closed.scaleExponent exponentMember
                    (argMembers inner (by simp)) scaled
                exact argsHypothesis base (by simp) (argMembers base (by simp))
                  combinedMember members
          · exact agree.push exponentMember members
        · exact agree.push exponentMember members
  | _ =>
      exact agree.push exponentMember members

theorem factors
    (agree : AgreeOn family table table' builder builder')
    {expr : Expr}
    (member : family expr) :
    Factors.of? builder expr = Factors.of? builder' expr :=
  agree.collect member (agree.closed.value (.number (by decide)))
    (by simp [Powers, Factors.one])

theorem removePower
    (agree : AgreeOn family table table' builder builder')
    {base exponent : Expr}
    {powers : List (Expr × Expr)}
    (exponentMember : family exponent)
    (members : Powers family powers) :
    Factors.removePower? builder base exponent powers =
      Factors.removePower? builder' base exponent powers := by
  induction powers with
  | nil =>
      rfl
  | cons entry rest inductionHypothesis =>
      obtain ⟨entryMember, restMembers⟩ := List.forall_mem_cons.mp members
      have minusOne : family (.number (-1)) :=
        agree.closed.value (.number (by decide))
      rw [Factors.removePower?, Factors.removePower?, inductionHypothesis restMembers,
        ← agree.scaleExponent exponentMember minusOne]
      split
      · refine option_bind_congr fun negated scaled => ?_
        have negatedMember :=
          agree.closed.scaleExponent exponentMember minusOne scaled
        rw [agree.addExponents entryMember.2 negatedMember]
      · rfl

theorem divide
    (agree : AgreeOn family table table' builder builder')
    {dividend divisor : Factors}
    (dividendMembers : Powers family dividend.powers)
    (divisorMembers : Powers family divisor.powers) :
    dividend.divide? builder divisor = dividend.divide? builder' divisor := by
  have removed
      {powers divisors : List (Expr × Expr)}
      (members : Powers family powers)
      (divisorMembers : Powers family divisors) :
      divisors.foldlM
          (fun powers entry =>
            Factors.removePower? builder entry.1 entry.2 powers) powers =
        divisors.foldlM
          (fun powers entry =>
            Factors.removePower? builder' entry.1 entry.2 powers) powers := by
    induction divisors generalizing powers with
    | nil =>
        rfl
    | cons entry rest inductionHypothesis =>
        obtain ⟨entryMember, restMembers⟩ := List.forall_mem_cons.mp divisorMembers
        rw [List.foldlM_cons, List.foldlM_cons,
          ← agree.removePower entryMember.2 members]
        refine option_bind_congr fun next entryRemoved => ?_
        exact inductionHypothesis
          (agree.closed.removePower entryMember.2 members entryRemoved) restMembers
  rw [Factors.divide?, Factors.divide?, removed dividendMembers divisorMembers]

theorem powerOperands
    (agree : AgreeOn family table table' builder builder')
    {powers : List (Expr × Expr)}
    (members : Powers family powers) :
    Factors.operands? builder powers = Factors.operands? builder' powers := by
  induction powers with
  | nil =>
      rfl
  | cons entry rest inductionHypothesis =>
      obtain ⟨entryMember, restMembers⟩ := List.forall_mem_cons.mp members
      rw [Factors.operands?, Factors.operands?, inductionHypothesis restMembers,
        agree.pair agree.closed.power entryMember.1 entryMember.2]

theorem rebuild
    (agree : AgreeOn family table table' builder builder')
    {factors : Factors}
    (members : Powers family factors.powers) :
    factors.rebuild? builder = factors.rebuild? builder' := by
  rw [Factors.rebuild?, Factors.rebuild?, ← agree.powerOperands members]
  split
  · rfl
  · split
    · rfl
    · refine option_bind_congr fun operands found => ?_
      have operandMembers := agree.closed.powerOperands members found
      refine agree.sortedChain agree.closed.product ?_
      split
      · exact List.forall_mem_append.mpr
          ⟨operandMembers, List.forall_mem_singleton.mpr (agree.literals _)⟩
      · exact operandMembers

/-! ## Sums -/

theorem scaled
    (agree : AgreeOn family table table' builder builder')
    (coefficient : Float)
    {term : Expr}
    (member : family term) :
    Transform.scaled builder coefficient term =
      Transform.scaled builder' coefficient term := by
  rw [Transform.scaled, Transform.scaled,
    agree.pair agree.closed.product (agree.literals coefficient) member]

/-- What two groups are combined to, one of which is a multiple of the other's base. -/
theorem combined
    (agree : AgreeOn family table table' builder builder')
    (first second : Float)
    {base cofactor : Expr}
    (baseMember : family base)
    (cofactorMember : family cofactor) :
    (do
        let term ← Transform.scaled builder second cofactor
        let coefficient ← builder Operator.add [.ofFloat first, term]
        builder Operator.mul [coefficient, base]) =
      (do
        let term ← Transform.scaled builder' second cofactor
        let coefficient ← builder' Operator.add [.ofFloat first, term]
        builder' Operator.mul [coefficient, base]) := by
  have closed := agree.closed
  rw [← agree.scaled second cofactorMember]
  refine bind_congr_of_ok fun term termBuilt => ?_
  have termMember := closed.scaled (agree.literals second) cofactorMember termBuilt
  rw [← agree.pair closed.sum (agree.literals first) termMember]
  refine bind_congr_of_ok fun coefficient added => ?_
  have coefficientMember :=
    closed.pair closed.sum (agree.literals first) termMember added
  exact agree.pair closed.product coefficientMember baseMember

theorem mergeShared
    (agree : AgreeOn family table table' builder builder')
    {groups : List (Expr × Float)}
    (bases : ∀ group ∈ groups, family group.1)
    (merged : Bool)
    (steps : Nat) :
    Transform.mergeShared? builder groups merged steps =
      Transform.mergeShared? builder' groups merged steps := by
  induction steps generalizing groups merged with
  | zero =>
      rfl
  | succ steps inductionHypothesis =>
      rw [Transform.mergeShared?, Transform.mergeShared?]
      cases found : Transform.sharedFactor? groups groups 0 with
      | none =>
          rfl
      | some shared =>
          obtain ⟨place, multiple, cofactor⟩ := shared
          obtain ⟨base, first, product, second, shares⟩ :=
            exists_shares (by simp) found
          have baseMember := bases _ (List.mem_of_getElem? shares.base_at)
          have cofactorMember :=
            agree.closed.cofactor (bases _ (List.mem_of_getElem? shares.product_at))
              shares.cofactor
          dsimp only
          rw [shares.base_at, shares.product_at]
          dsimp only
          rw [← agree.combined first second baseMember cofactorMember]
          refine option_bind_congr fun result succeeds => ?_
          obtain ⟨term, termBuilt, built⟩ :=
            exists_of_bind_eq_ok (eq_ok_of_toOption succeeds)
          obtain ⟨coefficient, added, multiplied⟩ := exists_of_bind_eq_ok built
          have closed := agree.closed
          have termMember :=
            closed.scaled (agree.literals second) cofactorMember termBuilt
          have coefficientMember :=
            closed.pair closed.sum (agree.literals first) termMember added
          have resultMember :=
            closed.pair closed.product coefficientMember baseMember multiplied
          refine inductionHypothesis (fun group among => ?_) true
          rcases List.mem_or_eq_of_mem_set (List.mem_of_mem_eraseIdx among) with
            old | rfl
          · exact bases group old
          · exact resultMember

theorem groupTerms
    (agree : AgreeOn family table table' builder builder')
    {groups : List (Expr × Float)}
    (bases : ∀ group ∈ groups, family group.1) :
    Transform.groupTerms? builder groups = Transform.groupTerms? builder' groups := by
  induction groups with
  | nil =>
      rfl
  | cons group rest inductionHypothesis =>
      obtain ⟨baseMember, restMembers⟩ := List.forall_mem_cons.mp bases
      rw [Transform.groupTerms?, Transform.groupTerms?, inductionHypothesis restMembers,
        agree.scaled group.2 baseMember]

end AgreeOn

end SymbolicAlgebra
