import SymbolicAlgebra.Factors
import SymbolicAlgebra.Proofs.Construction
import SymbolicAlgebra.Proofs.Expr.Order
import SymbolicAlgebra.Proofs.Simplification

/-!
# Families that building does not leave

Rewriting takes expressions apart, adds finite literals and the symbols of sum, product and power, and hands
all of it to a builder.  A family of expressions that none of these steps leaves contains the chains and
the products that are made of its members.
-/

namespace SymbolicAlgebra

open SymbolicAlgebra.Expr

/-- Taking members apart, evaluating and building do not lead out of the family. -/
structure ClosedUnderBuilding
    (builder : Builder)
    (family : Expr → Prop) : Prop extends ClosedUnderParts family where
  value :
    ∀ {expr}, expr.IsValue → family expr
  sum :
    family Operator.add
  product :
    family Operator.mul
  power :
    family Operator.pow
  built :
    ∀ {head args result},
      family head → (∀ arg ∈ args, family arg) →
        builder head args = .ok result → family result

namespace ClosedUnderBuilding

variable {builder : Builder} {family : Expr → Prop}

theorem literal
    (closed : ClosedUnderBuilding builder family)
    {value : Float}
    (isFinite : value.isFinite = true) :
    family (.ofFloat value) :=
  closed.value (isValue_ofFloat isFinite)

theorem zero
    (closed : ClosedUnderBuilding builder family) :
    family (.number 0) :=
  closed.value (.number (by decide))

/-- What is built of two members is a member. -/
theorem pair
    (closed : ClosedUnderBuilding builder family)
    {head lhs rhs result : Expr}
    (headMember : family head)
    (lhsMember : family lhs)
    (rhsMember : family rhs)
    (built : builder head [lhs, rhs] = .ok result) :
    family result :=
  closed.built headMember
    (List.forall_mem_cons.mpr ⟨lhsMember, List.forall_mem_singleton.mpr rhsMember⟩)
    built

/-- Operands are members, and so is the operator. -/
theorem of_operands?
    (closed : ClosedUnderBuilding builder family)
    {expr op first second : Expr}
    (member : family expr)
    (found : expr.operands? op = some (first, second)) :
    family op ∧ family first ∧ family second := by
  obtain rfl := operands?_eq_some found
  exact ⟨closed.head member, closed.arg member (by simp),
    closed.arg member (by simp)⟩

/-! ## Chains -/

/-- The operands of a chain are members. -/
theorem flatten
    (closed : ClosedUnderBuilding builder family)
    {op expr : Expr}
    (member : family expr) :
    ∀ item ∈ Chain.flatten op expr, family item := by
  induction expr with
  | apply head args headHypothesis argsHypothesis =>
      by_cases chained : head = op
      · subst chained
        intro item found
        rw [Chain.flatten_apply, List.mem_flatMap] at found
        obtain ⟨arg, isArg, found⟩ := found
        exact argsHypothesis arg isArg (closed.arg member isArg) item found
      · have single : (Expr.apply head args).isApplyOf op = false :=
          decide_eq_false chained
        rw [Chain.flatten_of_not_isApplyOf single]
        exact List.forall_mem_singleton.mpr member
  | _ =>
      exact List.forall_mem_singleton.mpr member

/-- A chain that is built from members is a member. -/
theorem chain
    (closed : ClosedUnderBuilding builder family)
    {op result : Expr}
    {items : List Expr}
    (opMember : family op)
    (members : ∀ item ∈ items, family item)
    (built : Chain.build builder op items = .ok result) :
    family result := by
  induction items generalizing result with
  | nil =>
      cases built
  | cons item rest inductionHypothesis =>
      obtain ⟨itemMember, restMembers⟩ := List.forall_mem_cons.mp members
      cases rest with
      | nil =>
          cases built
          exact itemMember
      | cons next rest =>
          obtain ⟨later, laterBuilt, built⟩ := exists_of_bind_eq_ok built
          exact closed.pair opMember itemMember
            (inductionHypothesis restMembers laterBuilt) built

/-- So is one that is built from the sorted members. -/
theorem sortedChain
    (closed : ClosedUnderBuilding builder family)
    {op result : Expr}
    {items : List Expr}
    (opMember : family op)
    (members : ∀ item ∈ items, family item)
    (built :
      (Chain.build builder op (sortCanonically items)).toOption = some result) :
    family result := by
  refine closed.chain opMember ?_ (eq_ok_of_toOption built)
  intro item found
  exact members item ((sortBy_perm _ items).mem_iff.mp found)

/-! ## Products and powers -/

/-- Bases and exponents are members. -/
def Powers
    (family : Expr → Prop)
    (powers : List (Expr × Expr)) : Prop :=
  ∀ entry ∈ powers, family entry.1 ∧ family entry.2

theorem scaleExponent
    (closed : ClosedUnderBuilding builder family)
    {outer inner result : Expr}
    (outerMember : family outer)
    (innerMember : family inner)
    (scaled : scaleExponent? builder outer inner = some result) :
    family result := by
  unfold scaleExponent? at scaled
  split at scaled
  · cases scaled
    exact innerMember
  · split at scaled
    · cases scaled
      exact outerMember
    · exact closed.pair closed.product outerMember innerMember
        (eq_ok_of_toOption scaled)

theorem addExponents
    (closed : ClosedUnderBuilding builder family)
    {first second result : Expr}
    (firstMember : family first)
    (secondMember : family second)
    (added : addExponents? builder first second = some result) :
    family result :=
  closed.pair closed.sum firstMember secondMember (eq_ok_of_toOption added)

theorem insertPower
    (closed : ClosedUnderBuilding builder family)
    {base exponent : Expr}
    {powers powers' : List (Expr × Expr)}
    (baseMember : family base)
    (exponentMember : family exponent)
    (members : Powers family powers)
    (inserted : Factors.insertPower? builder base exponent powers = some powers') :
    Powers family powers' := by
  induction powers generalizing powers' with
  | nil =>
      cases inserted
      exact List.forall_mem_singleton.mpr ⟨baseMember, exponentMember⟩
  | cons entry rest inductionHypothesis =>
      obtain ⟨entryMember, restMembers⟩ := List.forall_mem_cons.mp members
      unfold Factors.insertPower? at inserted
      split at inserted
      · obtain ⟨total, added, rfl⟩ := Option.map_eq_some_iff.mp inserted
        have totalMember :=
          closed.addExponents entryMember.2 exponentMember added
        exact List.forall_mem_cons.mpr
          ⟨⟨entryMember.1, totalMember⟩, restMembers⟩
      · obtain ⟨rest', insertedLater, rfl⟩ := Option.map_eq_some_iff.mp inserted
        exact List.forall_mem_cons.mpr
          ⟨entryMember, inductionHypothesis restMembers insertedLater⟩

theorem push
    (closed : ClosedUnderBuilding builder family)
    {factors factors' : Factors}
    {base exponent : Expr}
    (baseMember : family base)
    (exponentMember : family exponent)
    (members : Powers family factors.powers)
    (pushed : factors.push? builder base exponent = some factors') :
    Powers family factors'.powers := by
  unfold Factors.push? at pushed
  split at pushed
  · cases pushed
    exact members
  · obtain ⟨powers', inserted, rfl⟩ := Option.map_eq_some_iff.mp pushed
    exact closed.insertPower baseMember exponentMember members inserted

/-- Multiplying members into a product keeps its powers, if each of them does. -/
theorem collectArgs
    {args : List Expr}
    {exponent : Expr}
    {factors factors' : Factors}
    (members : Powers family factors.powers)
    (each :
      ∀ arg ∈ args, ∀ {factors factors' : Factors},
        Powers family factors.powers →
          factors.collect? builder arg exponent = some factors' →
            Powers family factors'.powers)
    (collected : factors.collectArgs? builder args exponent = some factors') :
    Powers family factors'.powers := by
  induction args generalizing factors with
  | nil =>
      cases collected
      exact members
  | cons arg rest inductionHypothesis =>
      obtain ⟨first, later⟩ := List.forall_mem_cons.mp each
      unfold Factors.collectArgs? at collected
      split at collected
      · rename_i extended argCollected
        exact inductionHypothesis (first members argCollected) later collected
      · cases collected

/-- The bases and exponents of a product are members. -/
theorem collect
    (closed : ClosedUnderBuilding builder family)
    {expr exponent : Expr}
    {factors factors' : Factors}
    (member : family expr)
    (exponentMember : family exponent)
    (members : Powers family factors.powers)
    (collected : factors.collect? builder expr exponent = some factors') :
    Powers family factors'.powers := by
  induction expr generalizing factors factors' exponent with
  | apply head args headHypothesis argsHypothesis =>
      have argMembers : ∀ arg ∈ args, family arg :=
        fun arg isArg => closed.arg member isArg
      unfold Factors.collect? at collected
      split at collected
      · refine collectArgs members ?_ collected
        intro arg isArg factors factors' members collected
        exact argsHypothesis arg isArg (argMembers arg isArg) exponentMember
          members collected
      · split at collected
        · rename_i base inner
          split at collected
          · split at collected
            · rename_i combined scaled
              have combinedMember :=
                closed.scaleExponent exponentMember
                  (argMembers inner (by simp)) scaled
              exact argsHypothesis base (by simp) (argMembers base (by simp))
                combinedMember members collected
            · cases collected
          · exact closed.push member exponentMember members collected
        · exact closed.push member exponentMember members collected
  | _ =>
      exact closed.push member exponentMember members collected

theorem factors
    (closed : ClosedUnderBuilding builder family)
    {expr : Expr}
    {found : Factors}
    (member : family expr)
    (collected : Factors.of? builder expr = some found) :
    Powers family found.powers :=
  closed.collect member (closed.value (.number (by decide)))
    (by simp [Powers, Factors.one]) collected

theorem removePower
    (closed : ClosedUnderBuilding builder family)
    {base exponent : Expr}
    {powers powers' : List (Expr × Expr)}
    (exponentMember : family exponent)
    (members : Powers family powers)
    (removed : Factors.removePower? builder base exponent powers = some powers') :
    Powers family powers' := by
  induction powers generalizing powers' with
  | nil =>
      cases removed
  | cons entry rest inductionHypothesis =>
      obtain ⟨entryMember, restMembers⟩ := List.forall_mem_cons.mp members
      unfold Factors.removePower? at removed
      split at removed
      · obtain ⟨negated, scaled, removed⟩ := Option.bind_eq_some_iff.mp removed
        obtain ⟨total, added, removed⟩ := Option.bind_eq_some_iff.mp removed
        cases removed
        have negatedMember :=
          closed.scaleExponent exponentMember
            (closed.value (.number (by decide))) scaled
        have totalMember :=
          closed.addExponents entryMember.2 negatedMember added
        exact List.forall_mem_cons.mpr
          ⟨⟨entryMember.1, totalMember⟩, restMembers⟩
      · obtain ⟨rest', removedLater, rfl⟩ := Option.map_eq_some_iff.mp removed
        exact List.forall_mem_cons.mpr
          ⟨entryMember, inductionHypothesis restMembers removedLater⟩

theorem divide
    (closed : ClosedUnderBuilding builder family)
    {dividend divisor quotient : Factors}
    (dividendMembers : Powers family dividend.powers)
    (divisorMembers : Powers family divisor.powers)
    (divided : dividend.divide? builder divisor = some quotient) :
    Powers family quotient.powers := by
  unfold Factors.divide? at divided
  split at divided
  · cases divided
  · obtain ⟨powers, removed, divided⟩ := Option.bind_eq_some_iff.mp divided
    cases divided
    generalize dividend.powers = remaining at dividendMembers removed
    generalize divisor.powers = divisors at divisorMembers removed
    induction divisors generalizing remaining with
    | nil =>
        cases removed
        exact dividendMembers
    | cons entry rest inductionHypothesis =>
        obtain ⟨entryMember, restMembers⟩ := List.forall_mem_cons.mp divisorMembers
        rw [List.foldlM_cons] at removed
        obtain ⟨next, entryRemoved, removed⟩ := Option.bind_eq_some_iff.mp removed
        have nextMembers :=
          closed.removePower entryMember.2 dividendMembers entryRemoved
        exact inductionHypothesis next nextMembers restMembers removed

theorem powerOperands
    (closed : ClosedUnderBuilding builder family)
    {powers : List (Expr × Expr)}
    {operands : List Expr}
    (members : Powers family powers)
    (found : Factors.operands? builder powers = some operands) :
    ∀ operand ∈ operands, family operand := by
  induction powers generalizing operands with
  | nil =>
      cases found
      exact List.forall_mem_nil _
  | cons entry rest inductionHypothesis =>
      obtain ⟨entryMember, restMembers⟩ := List.forall_mem_cons.mp members
      unfold Factors.operands? at found
      obtain ⟨following, later, found⟩ := Option.bind_eq_some_iff.mp found
      have followingMembers := inductionHypothesis restMembers later
      split at found
      · cases found
        exact followingMembers
      · split at found
        · cases found
          exact List.forall_mem_cons.mpr ⟨entryMember.1, followingMembers⟩
        · obtain ⟨operand, raised, found⟩ := Option.bind_eq_some_iff.mp found
          cases found
          have operandMember :=
            closed.pair closed.power entryMember.1 entryMember.2
              (eq_ok_of_toOption raised)
          exact List.forall_mem_cons.mpr ⟨operandMember, followingMembers⟩

/-- The product of powers is a member; a coefficient that is not finite is never built. -/
theorem rebuild
    (closed : ClosedUnderBuilding builder family)
    {factors : Factors}
    {result : Expr}
    (members : Powers family factors.powers)
    (rebuilt : factors.rebuild? builder = some result) :
    family result := by
  unfold Factors.rebuild? at rebuilt
  split at rebuilt
  · cases rebuilt
  · rename_i isFinite
    split at rebuilt
    · cases rebuilt
      exact closed.zero
    · obtain ⟨operands, found, rebuilt⟩ := Option.bind_eq_some_iff.mp rebuilt
      have operandMembers := closed.powerOperands members found
      refine closed.sortedChain closed.product ?_ rebuilt
      split
      · exact List.forall_mem_append.mpr
          ⟨operandMembers,
            List.forall_mem_singleton.mpr (closed.literal (by simpa using isFinite))⟩
      · exact operandMembers

end ClosedUnderBuilding

end SymbolicAlgebra
