import SymbolicAlgebra.Proofs.Factor.Basic
import SymbolicAlgebra.Proofs.Number.Unit

/-!
# Powers of different bases

Collecting an expression leaves powers of different bases, none of which is a product or a power itself or a
literal with a literal exponent.  They are written as factors with different bases, and collecting factors
with different bases, beside a literal, gives their bases and exponents back.
-/

namespace SymbolicAlgebra

open SymbolicAlgebra.Expr

namespace Factors

variable {table : SymbolTable} {builder : Builder} {base exponent expr : Expr}
  {power : Expr × Expr} {powers powers' : List (Expr × Expr)}
  {factors factors' : Factors}

/-- A base with its exponent as collection leaves them. -/
structure IsSeparate
    (power : Expr × Expr) : Prop where
  notLiterals :
    (power.1.isNumber && power.2.isNumber) = false
  notProduct :
    power.1.isApplyOf Operator.mul = false
  notPower :
    power.1.isBinaryOf Operator.pow = false

/-- Powers of different bases, each as collection leaves it. -/
structure Separates
    (powers : List (Expr × Expr)) : Prop where
  each :
    ∀ power ∈ powers, IsSeparate power
  distinct :
    (powers.map (·.1)).Nodup

theorem separates_cons :
    Separates (power :: powers) ↔
      IsSeparate power ∧ power.1 ∉ powers.map (·.1) ∧ Separates powers := by
  constructor
  · rintro ⟨each, distinct⟩
    obtain ⟨first, later⟩ := List.forall_mem_cons.mp each
    obtain ⟨fresh, laterDistinct⟩ := List.nodup_cons.mp distinct
    exact ⟨first, fresh, later, laterDistinct⟩
  · rintro ⟨first, fresh, later, laterDistinct⟩
    exact ⟨List.forall_mem_cons.mpr ⟨first, later⟩,
      List.nodup_cons.mpr ⟨fresh, laterDistinct⟩⟩

/-! ## Collecting -/

/-- What keeps every power that is pushed keeps an expression that is collected. -/
theorem collect?_induction
    {invariant : Factors → Prop}
    (pushed :
      ∀ {factors factors' base exponent},
        base.isApplyOf Operator.mul = false →
          base.isBinaryOf Operator.pow = false → invariant factors →
            push? builder factors base exponent = some factors' →
              invariant factors')
    (holds : invariant factors)
    (collected : collect? builder factors expr exponent = some factors') :
    invariant factors' := by
  induction expr generalizing factors factors' exponent with
  | apply head args headHypothesis argsHypothesis =>
      by_cases isProduct : head = Operator.mul
      · rw [collect?.eq_def] at collected
        simp only [isProduct, if_true] at collected
        clear headHypothesis
        induction args generalizing factors with
        | nil =>
            cases collected
            exact holds
        | cons arg rest inductionHypothesis =>
            unfold collectArgs? at collected
            split at collected
            · rename_i extended argCollected
              refine inductionHypothesis ?_ ?_ collected
              · intro other member
                exact argsHypothesis other (List.mem_cons_of_mem _ member)
              · exact argsHypothesis arg List.mem_cons_self holds argCollected
            · cases collected
      · by_cases isPower : (Expr.apply head args).isBinaryOf Operator.pow = true
        · obtain ⟨⟨base, inner⟩, operands⟩ := Option.isSome_iff_exists.mp isPower
          cases operands?_eq_some operands
          simp only [collect?, isProduct, if_false, if_true] at collected
          split at collected
          · rename_i combined scaled
            exact argsHypothesis base (by simp) holds collected
          · cases collected
        · have notProduct :
              (Expr.apply head args).isApplyOf Operator.mul = false :=
            decide_eq_false isProduct
          have notPower := Bool.eq_false_iff.mpr isPower
          rw [collect?_eq_push? notProduct notPower] at collected
          exact pushed notProduct notPower holds collected
  | _ =>
      exact pushed rfl rfl holds collected

/-- Adding to the exponent of a base leaves an exponent as collection leaves it. -/
theorem IsSeparate.add
    {first second total : Expr}
    (separate : IsSeparate (base, first))
    (added : addExponents? table.construct first second = some total) :
    IsSeparate (base, total) where
  notLiterals := by
    cases literal : base.isNumber with
    | false =>
        rfl
    | true =>
        -- Exponents of a literal are no literals, so that their sum is stored.
        have firstOther : first.isNumber = false := by
          simpa [literal] using separate.notLiterals
        have sum := eq_ok_of_toOption added
        rw [construct_sum_eq (by rw [firstOther, Bool.false_and])] at sum
        cases sum
        rfl
  notProduct :=
    separate.notProduct
  notPower :=
    separate.notPower

theorem Separates.insertPower
    (separates : Separates powers)
    (separate : IsSeparate (base, exponent))
    (inserted :
      insertPower? table.construct base exponent powers = some powers') :
    Separates powers' ∧
      ∀ other ∈ powers'.map (·.1), other = base ∨ other ∈ powers.map (·.1) := by
  induction powers generalizing powers' with
  | nil =>
      cases inserted
      exact ⟨separates_cons.mpr ⟨separate, List.not_mem_nil, separates⟩,
        fun other member => .inl (List.mem_singleton.mp member)⟩
  | cons entry rest inductionHypothesis =>
      obtain ⟨first, fresh, later⟩ := separates_cons.mp separates
      unfold insertPower? at inserted
      split at inserted
      · rename_i same
        subst same
        obtain ⟨total, added, rfl⟩ := Option.map_eq_some_iff.mp inserted
        exact ⟨separates_cons.mpr ⟨first.add added, fresh, later⟩,
          fun other member => .inr member⟩
      · rename_i different
        obtain ⟨rest', restInserted, rfl⟩ := Option.map_eq_some_iff.mp inserted
        obtain ⟨restSeparates, restBases⟩ :=
          inductionHypothesis later restInserted
        refine ⟨separates_cons.mpr ⟨first, ?_, restSeparates⟩, ?_⟩
        · intro member
          exact (restBases _ member).elim different fresh
        · intro other member
          rcases List.mem_cons.mp member with rfl | inRest
          · exact .inr List.mem_cons_self
          · exact (restBases other inRest).imp_right (List.mem_cons_of_mem _)

theorem Separates.push
    (separates : Separates factors.powers)
    (notProduct : base.isApplyOf Operator.mul = false)
    (notPower : base.isBinaryOf Operator.pow = false)
    (pushed : push? table.construct factors base exponent = some factors') :
    Separates factors'.powers := by
  cases literals : base.isNumber && exponent.isNumber with
  | true =>
      match base, exponent, literals with
      | .number _, .number _, _ =>
          cases pushed
          exact separates
  | false =>
      rw [push?_of_not_literals literals] at pushed
      obtain ⟨powers', inserted, rfl⟩ := Option.map_eq_some_iff.mp pushed
      exact (separates.insertPower ⟨literals, notProduct, notPower⟩ inserted).1

/-- Collecting an expression leaves powers of different bases. -/
theorem separates_of?
    (collected : of? table.construct expr = some factors) :
    Separates factors.powers :=
  @collect?_induction _ _ _ one _ (fun factors => Separates factors.powers)
    (fun notProduct notPower separates pushed =>
      separates.push notProduct notPower pushed)
    ⟨List.forall_mem_nil _, List.nodup_nil⟩ collected

/-! ## Operands -/

/-- Such powers are written as factors of different bases. -/
theorem Separates.operands
    {operands : List Expr}
    (separates : Separates powers)
    (written : operands? table.construct powers = some operands) :
    (∀ operand ∈ operands, operand.IsFactor) ∧
      (operands.map Expr.base).Sublist (powers.map (·.1)) := by
  induction powers generalizing operands with
  | nil =>
      cases written
      exact ⟨List.forall_mem_nil _, .refl _⟩
  | cons entry rest inductionHypothesis =>
      obtain ⟨base, exponent⟩ := entry
      obtain ⟨⟨notLiterals, notProduct, notPower⟩, -, later⟩ :=
        separates_cons.mp separates
      unfold operands? at written
      obtain ⟨following, restWritten, written⟩ :=
        Option.bind_eq_some_iff.mp written
      obtain ⟨restFactors, restBases⟩ := inductionHypothesis later restWritten
      split at written
      · cases written
        exact ⟨restFactors, restBases.cons _⟩
      · rename_i notZero
        split at written
        · rename_i isOne
          cases written
          have notLiteral : base.isNumber = false := by
            cases exponent with
            | number value =>
                simpa [isNumber, number?] using notLiterals
            | _ =>
                cases isOne
          refine ⟨List.forall_mem_cons.mpr
            ⟨.base notLiteral notProduct notPower, restFactors⟩, ?_⟩
          rw [List.map_cons, (base_of_notPower notPower).1]
          exact restBases.cons_cons _
        · rename_i notOne
          obtain ⟨operand, raised, written⟩ := Option.bind_eq_some_iff.mp written
          cases written
          have stored :
              table.construct Operator.pow [base, exponent] =
                .ok (.apply Operator.pow [base, exponent]) :=
            construct_stored table.specOf?_pow (List.cons_ne_nil _ _)
              (powerSpec.evaluateLiterals?_pair _ notLiterals) rfl
          rw [stored] at raised
          cases raised
          refine ⟨List.forall_mem_cons.mpr ⟨.power notLiterals notProduct notPower
            (Bool.eq_false_iff.mpr notZero) (Bool.eq_false_iff.mpr notOne),
            restFactors⟩, ?_⟩
          exact restBases.cons_cons _

/-- The product of a coefficient and of factors, each read as its base with its exponent. -/
def ofOperands
    (coefficient : Float)
    (operands : List Expr) : Factors where
  coefficient :=
    coefficient
  powers :=
    operands.map fun operand => (operand.base, operand.exponent)

/-- Factors are written as they were. -/
theorem operands?_ofOperands
    {operands : List Expr}
    (coefficient : Float)
    (each : ∀ operand ∈ operands, operand.IsFactor) :
    operands? table.construct (ofOperands coefficient operands).powers =
      some operands := by
  induction operands with
  | nil =>
      rfl
  | cons operand rest inductionHypothesis =>
      obtain ⟨first, later⟩ := List.forall_mem_cons.mp each
      exact operands?_of_isFactor first (inductionHypothesis later)

/-! ## Collecting factors -/

/-- A product multiplied by literals, which go into the coefficient, and by factors of new bases. -/
def extended
    (factors : Factors)
    (items : List Expr) : Factors where
  coefficient :=
    (items.filterMap number?).foldl (· * ·) factors.coefficient
  powers :=
    factors.powers ++
      (items.filter (!·.isNumber)).map fun item => (item.base, item.exponent)

theorem extended_cons
    (factors : Factors)
    (item : Expr)
    (rest : List Expr) :
    factors.extended (item :: rest) =
      (factors.extended [item]).extended rest := by
  cases found : item.number? <;> simp [extended, isNumber, found]

/-- One more item multiplies a product. -/
theorem collect?_item
    (kind : expr.isNumber = true ∨ expr.IsFactor)
    (distinct : ((factors.extended [expr]).powers.map (·.1)).Nodup) :
    collect? builder factors expr (.number 1) =
      some (factors.extended [expr]) := by
  rcases kind with literal | isFactor
  · cases expr with
    | number value =>
        have collected :
            collect? builder factors (.number value) (.number 1) =
              some { factors with
                coefficient := factors.coefficient * SymbolicAlgebra.power value 1 } :=
          rfl
        rw [collected, power_one_eq]
        simp [extended, isNumber, number?]
    | _ =>
        cases literal
  · have extension :
        factors.extended [expr] =
          { factors with
            powers := factors.powers ++ [(expr.base, expr.exponent)] } := by
      have notLiteral := isFactor.notLiteral
      have noNumber : expr.number? = none := by
        simpa [isNumber] using notLiteral
      simp [extended, notLiteral, noNumber]
    rw [extension] at distinct ⊢
    apply collect?_of_isFactor isFactor
    rw [List.map_append, List.nodup_append'] at distinct
    exact fun member => distinct.2.2 member List.mem_cons_self

/-- Collecting the chain of literals and factors of different bases multiplies by all of them. -/
theorem collect?_nested
    {first : Expr}
    {rest : List Expr}
    (kinds : ∀ item ∈ first :: rest, item.isNumber = true ∨ item.IsFactor)
    (distinct :
      ((factors.extended (first :: rest)).powers.map (·.1)).Nodup) :
    collect? builder factors (nested Operator.mul first rest) (.number 1) =
      some (factors.extended (first :: rest)) := by
  obtain ⟨kind, laterKinds⟩ := List.forall_mem_cons.mp kinds
  induction rest generalizing factors first with
  | nil =>
      exact collect?_item kind distinct
  | cons second rest inductionHypothesis =>
      rw [extended_cons] at distinct ⊢
      have initial :
          (factors.extended [first]).powers.Sublist
            ((factors.extended [first]).extended (second :: rest)).powers :=
        List.sublist_append_left _ _
      have collected :=
        @inductionHypothesis (factors.extended [first]) second laterKinds distinct
          (List.forall_mem_cons.mp laterKinds).1
          (List.forall_mem_cons.mp laterKinds).2
      rw [nested, collect?, if_pos rfl, collectArgs?,
        collect?_item kind (distinct.sublist (initial.map _))]
      dsimp only
      rw [collectArgs?, collected]
      rfl

end Factors

end SymbolicAlgebra
