import SymbolicAlgebra.Proofs.Linear.Groups

/-!
# Like terms of linear sums

Groups of which one is a multiple of the base of the other are merged, which makes them fewer and cheaper.
So combining like terms makes a sum cheaper, unless all addends have different bases.
-/

namespace SymbolicAlgebra

open SymbolicAlgebra.Expr

/-! ## Merging groups -/

/-- Both groups that share a factor: their places differ, neither has cancelled. -/
structure Shares
    (groups : List (Expr × Float))
    (place multiple : Nat)
    (cofactor base : Expr)
    (first : Float)
    (product : Expr)
    (second : Float) : Prop where
  base_at :
    groups[place]? = some (base, first)
  product_at :
    groups[multiple]? = some (product, second)
  ne :
    place ≠ multiple
  first_ne :
    (first == 0) = false
  second_ne :
    (second == 0) = false
  cofactor :
    Transform.cofactor? base product = some cofactor

theorem exists_of_multipleOf?
    (groups : List (Expr × Float))
    {factor cofactor : Expr}
    {index place multiple : Nat}
    {candidates : List (Expr × Float)}
    (later : ∀ step, candidates[step]? = groups[place + step]?)
    (found :
      Transform.multipleOf? factor index candidates place =
        some (multiple, cofactor)) :
    ∃ product second,
      groups[multiple]? = some (product, second) ∧ multiple ≠ index ∧
        (second == 0) = false ∧
        Transform.cofactor? factor product = some cofactor := by
  induction candidates generalizing place with
  | nil =>
      cases found
  | cons group rest inductionHypothesis =>
      obtain ⟨product, second⟩ := group
      have here := later 0
      rw [List.getElem?_cons_zero, Nat.add_zero] at here
      simp only [Transform.multipleOf?] at found
      split at found
      · rename_i cofactor' isMultiple
        split at isMultiple
        · cases isMultiple
        · rename_i admissible
          cases found
          simp only [Bool.or_eq_true, decide_eq_true_eq, not_or,
            Bool.not_eq_true] at admissible
          exact ⟨product, second, here.symm, admissible.1, admissible.2,
            isMultiple⟩
      · refine inductionHypothesis (fun step => ?_) found
        rw [← List.getElem?_cons_succ, later (step + 1)]
        congr 1
        omega

theorem exists_shares
    {groups candidates : List (Expr × Float)}
    {place multiple start : Nat}
    {cofactor : Expr}
    (later : ∀ step, candidates[step]? = groups[start + step]?)
    (found :
      Transform.sharedFactor? groups candidates start =
        some (place, multiple, cofactor)) :
    ∃ base first product second,
      Shares groups place multiple cofactor base first product second := by
  induction candidates generalizing start with
  | nil =>
      cases found
  | cons group rest inductionHypothesis =>
      obtain ⟨base, first⟩ := group
      have here := later 0
      rw [List.getElem?_cons_zero, Nat.add_zero] at here
      simp only [Transform.sharedFactor?] at found
      split at found
      · rename_i multiple' cofactor' isShared
        split at isShared
        · cases isShared
        · rename_i admissible
          cases found
          obtain ⟨product, second, product_at, different, second_ne, isCofactor⟩ :=
            exists_of_multipleOf? groups (by simp) isShared
          exact ⟨base, first, product, second, here.symm, product_at,
            different.symm, by simpa using admissible, second_ne, isCofactor⟩
      · refine inductionHypothesis (fun step => ?_) found
        rw [← List.getElem?_cons_succ, later (step + 1)]
        congr 1
        omega

section Merging

variable {table : SymbolTable}

theorem ofFloat_floatOfInt
    {value : Int}
    (small : value.natAbs < 2 ^ 53) :
    ofFloat (floatOfInt value) = whole value :=
  ofInt_eq_number (fitsFloat_of_le (Nat.le_of_lt small))

/-- A scaled base that is no literal is the collapsed product, if the factor is not zero. -/
theorem scaled_eq_collapsed
    {factor : Int}
    {base : Expr}
    (small : factor.natAbs < 2 ^ 53)
    (nonzero : factor ≠ 0)
    (notLiteral : base.isNumber = false) :
    Transform.scaled table.construct (floatOfInt factor) base =
      .ok (collapsed factor base) := by
  rw [Transform.scaled, floatOfInt_beq_one small, collapsed]
  by_cases one : factor = 1
  · simp [one]
  · simp only [one, decide_false, Bool.false_eq_true, if_false,
      ofFloat_floatOfInt small]
    exact construct_multiple_eq small nonzero notLiteral (.inl rfl)

/-- A scaled literal is the literal of the product. -/
theorem scaled_whole
    {factor value : Int}
    (factorSmall : factor.natAbs < 2 ^ 53)
    (valueSmall : value.natAbs < 2 ^ 53)
    (small : (factor * value).natAbs < 2 ^ 53) :
    Transform.scaled table.construct (floatOfInt factor) (whole value) =
      .ok (whole (factor * value)) := by
  rw [Transform.scaled, floatOfInt_beq_one factorSmall]
  by_cases one : factor = 1
  · simp [one]
  · simp only [one, decide_false, Bool.false_eq_true, if_false,
      ofFloat_floatOfInt factorSmall]
    exact construct_evaluated (table.specOf?_mul) (List.cons_ne_nil _ _)
      (evaluateLiterals?_product _ factorSmall valueSmall small)

/-- Only a multiple of a base has a cofactor, and this is a literal. -/
theorem Shares.eq_multiple
    {groups : List (Expr × Float)}
    {place multiple : Nat}
    {cofactor base product : Expr}
    {first second : Float}
    (shares : Shares groups place multiple cofactor base first product second)
    (each : ∀ group ∈ groups, IsGroup group) :
    ∃ factor factor' value : Int,
      first = floatOfInt factor ∧ second = floatOfInt factor' ∧
        factor.natAbs < 2 ^ 53 ∧ factor'.natAbs < 2 ^ 53 ∧
        value.natAbs < 2 ^ 53 ∧ base.IsLinear ∧ base.isNumber = false ∧
        product = .apply Operator.mul [whole value, base] ∧
        cofactor = whole value := by
  have firstGroup := each _ (List.mem_of_getElem? shares.base_at)
  have secondGroup := each _ (List.mem_of_getElem? shares.product_at)
  have isCofactor := shares.cofactor
  cases secondGroup with
  | cancelled =>
      cases isCofactor
  | @multiple _ factor' factorSmall' linear notLiteral =>
      cases linear with
      | literal small =>
          cases notLiteral
      | symbol name =>
          cases isCofactor
      | sum =>
          cases isCofactor
      | difference =>
          cases isCofactor
      | @multiple value operand valueSmall nonzero linear operandNotLiteral =>
          have either :
              (if whole value = base then
                  some operand
                else if operand = base then
                  some (whole value)
                else
                  none) =
                some cofactor :=
            isCofactor
          cases firstGroup with
          | cancelled =>
              have differs : whole value ≠ whole 0 :=
                fun same => nonzero (whole_injective valueSmall (by decide) same)
              have operandDiffers : operand ≠ whole 0 := by
                rintro rfl
                cases operandNotLiteral
              rw [if_neg differs, if_neg operandDiffers] at either
              cases either
          | @multiple _ factor factorSmall baseLinear baseNotLiteral =>
              have differs : whole value ≠ base := by
                rintro rfl
                cases baseNotLiteral
              rw [if_neg differs] at either
              split at either
              · rename_i same
                cases either
                exact ⟨factor, factor', value, rfl, rfl, factorSmall,
                  factorSmall', valueSmall, baseLinear, baseNotLiteral,
                  by rw [same], rfl⟩
              · cases either

/-- A multiple of a base and a multiple of one of its multiples cost more than one multiple. -/
theorem Reading.multiple_add_le
    {reading : Reading}
    (cost : 1 ≤ reading.cost)
    {factor factor' : Int}
    (nonzero : factor ≠ 0)
    (nonzero' : factor' ≠ 0)
    (value : Int) :
    reading.multiple (factor + factor' * value) ≤
        reading.scaled factor + (reading.multiple value).scaled factor' ∧
      (reading.multiple (factor + factor' * value)).cost + 1 ≤
        (reading.scaled factor + (reading.multiple value).scaled factor').cost := by
  have cheaper :
      (reading.multiple (factor + factor' * value)).cost + 1 ≤
        (reading.scaled factor +
          (reading.multiple value).scaled factor').cost := by
    simp only [add_cost, scaled_cost, multiple_cost, nonzero, nonzero', if_false]
    split_ifs <;> omega
  refine ⟨⟨?_, ?_, by omega⟩, cheaper⟩
  · simp only [add_form, scaled_form, multiple_form, smul_smul, ← add_smul]
  · simp only [add_weight, scaled_weight, multiple_weight, ← Nat.mul_assoc,
      ← Int.natAbs_mul, ← Nat.add_mul]
    exact Nat.mul_le_mul_right _ (Int.natAbs_add_le factor (factor' * value))

/-- A multiple of a base that has been built is a group with coefficient one. -/
theorem isGroup_of_construct
    {factor : Int}
    {base combined : Expr}
    (small : factor.natAbs < 2 ^ 53)
    (linear : base.IsLinear)
    (notLiteral : base.isNumber = false)
    (built : table.construct Operator.mul [whole factor, base] = .ok combined) :
    IsGroup (combined, 1) := by
  rw [← floatOfInt_one]
  by_cases zero : factor = 0
  · subst zero
    rw [construct_zero_eq notLiteral (.inl rfl)] at built
    cases built
    exact .cancelled
  · rw [construct_multiple_eq small zero notLiteral (.inl rfl)] at built
    cases built
    exact .multiple (by decide) (.multiple small zero linear notLiteral) rfl

/-- The combined group that takes the place of two groups that share a factor is cheaper. -/
theorem exists_combined
    (table : SymbolTable)
    {groups : List (Expr × Float)}
    {place multiple : Nat}
    {cofactor base product : Expr}
    {first second : Float}
    (shares : Shares groups place multiple cofactor base first product second)
    (each : ∀ group ∈ groups, IsGroup group)
    (small :
      (groupReading (base, first) + groupReading (product, second)).weight <
        2 ^ 53) :
    ∃ combined,
      (do
        let term ← Transform.scaled table.construct second cofactor
        let coefficient ← table.construct Operator.add [ofFloat first, term]
        table.construct Operator.mul [coefficient, base]) = .ok combined ∧
      IsGroup (combined, 1) ∧
      groupReading (combined, 1) ≤
        groupReading (base, first) + groupReading (product, second) ∧
      (groupReading (combined, 1)).cost + 1 ≤
        (groupReading (base, first) + groupReading (product, second)).cost := by
  obtain ⟨factor, factor', value, rfl, rfl, factorSmall, factorSmall',
    valueSmall, linear, notLiteral, rfl, rfl⟩ := shares.eq_multiple each
  have nonzero : factor ≠ 0 := by
    simpa [floatOfInt_beq_zero factorSmall] using shares.first_ne
  have nonzero' : factor' ≠ 0 := by
    simpa [floatOfInt_beq_zero factorSmall'] using shares.second_ne
  obtain ⟨cost, weight⟩ := linear.cost_pos.2 notLiteral
  rw [groupReading_multiple factorSmall, groupReading_multiple factorSmall',
    reading_multiple valueSmall] at small ⊢
  obtain ⟨le, cheaper⟩ :=
    Reading.multiple_add_le linear.cost_pos.1 nonzero nonzero' value
  -- The coefficients are computed exactly, because the base weighs something.
  have bothSmall : factor.natAbs + (factor' * value).natAbs < 2 ^ 53 := by
    refine (Nat.le_mul_of_pos_right _ weight).trans_lt (lt_of_eq_of_lt ?_ small)
    simp only [Reading.add_weight, Reading.scaled_weight,
      Reading.multiple_weight, Int.natAbs_mul, Nat.add_mul, Nat.mul_assoc]
  have total := Int.natAbs_add_le factor (factor' * value)
  have termScaled :
      Transform.scaled table.construct (floatOfInt factor') (whole value) =
        .ok (whole (factor' * value)) :=
    scaled_whole factorSmall' valueSmall (by omega)
  have summed :
      table.construct Operator.add
          [ofFloat (floatOfInt factor), whole (factor' * value)] =
        .ok (whole (factor + factor' * value)) := by
    rw [ofFloat_floatOfInt factorSmall]
    exact construct_evaluated (table.specOf?_add) (List.cons_ne_nil _ _)
      (evaluateLiterals?_sum _ factorSmall (by omega) (by omega))
  obtain ⟨combined, built, within⟩ :
      ∃ combined,
        table.construct Operator.mul [whole (factor + factor' * value), base] =
            .ok combined ∧
          combined.Within (base.reading.multiple (factor + factor' * value)) :=
    exists_construct_multiple (by omega) linear.within
      (le.2.1.trans_lt small) (.inl rfl)
  have saved := within.le.2.2
  refine ⟨combined, ?_,
    isGroup_of_construct (by omega) linear notLiteral built, ?_, ?_⟩
  · simp only [termScaled, summed, ok_bind, built]
  · rw [groupReading_one]
    exact within.le.trans le
  · rw [groupReading_one]
    omega

/-- Two items make way for a new one. -/
theorem perm_set_eraseIdx
    {α : Type}
    {items : List α}
    {place place' : Nat}
    {item item' : α}
    (new : α)
    (found : items[place]? = some item)
    (found' : items[place']? = some item')
    (different : place ≠ place') :
    (new :: items).Perm
      (item :: item' :: (items.set place new).eraseIdx place') := by
  obtain ⟨below, rfl⟩ := List.getElem?_eq_some_iff.mp found
  obtain ⟨below', rfl⟩ := List.getElem?_eq_some_iff.mp found'
  have belowSet : place' < (items.set place new).length := by
    rwa [List.length_set]
  have same : (items.set place new)[place'] = items[place'] :=
    List.getElem_set_ne different belowSet
  have removed := List.getElem_cons_eraseIdx_perm belowSet
  rw [same] at removed
  calc
    (new :: items).Perm (new :: items[place] :: items.eraseIdx place) :=
      (List.getElem_cons_eraseIdx_perm below).symm.cons new
    _ |>.Perm (items[place] :: new :: items.eraseIdx place) :=
      .swap _ _ _
    _ |>.Perm (items[place] :: items.set place new) :=
      (List.set_perm_cons_eraseIdx below new).symm.cons _
    _ |>.Perm _ :=
      removed.symm.cons _

/-- Merging two groups makes the groups cheaper and one fewer. -/
theorem Gathers.merge
    {groups : List (Expr × Float)}
    {count : Nat}
    {bound : Reading}
    (gathers : Gathers groups count bound)
    {place multiple : Nat}
    {group group' combined : Expr × Float}
    (found : groups[place]? = some group)
    (found' : groups[multiple]? = some group')
    (different : place ≠ multiple)
    (isGroup : IsGroup combined)
    (le : groupReading combined ≤ groupReading group + groupReading group')
    (cheaper :
      (groupReading combined).cost + 1 ≤
        (groupReading group + groupReading group').cost) :
    Gathers ((groups.set place combined).eraseIdx multiple) count bound ∧
      ((groups.set place combined).eraseIdx multiple).length + 1 =
        groups.length := by
  have permuted := perm_set_eraseIdx combined found found' different
  have lengths := permuted.length_eq
  have readings := (permuted.map groupReading).sum_eq
  simp only [List.map_cons, List.sum_cons] at readings
  simp only [List.length_cons] at lengths
  have forms := congrArg Reading.form readings
  have weights := congrArg Reading.weight readings
  have costs := congrArg Reading.cost readings
  have sameForm := le.1
  have weight := le.2.1
  simp only [Reading.add_form, Reading.add_weight, Reading.add_cost]
    at forms weights costs sameForm weight cheaper
  rw [sameForm, ← add_assoc] at forms
  obtain ⟨boundForm, boundWeight, boundCost⟩ := gathers.le
  have saved := gathers.saved
  have length_le := gathers.length_le
  refine ⟨⟨?_, ⟨?_, ?_, ?_⟩, ?_, ?_⟩, ?_⟩
  · intro other member
    have origin := permuted.mem_iff.mpr (.tail _ (.tail _ member))
    rcases List.mem_cons.mp origin with rfl | old
    · exact isGroup
    · exact gathers.each other old
  · rw [← boundForm]
    exact (add_left_cancel forms).symm
  · omega
  · omega
  · omega
  · omega
  · omega

/-- Pulling shared factors out of groups succeeds, and makes them fewer if it changes them. -/
theorem Gathers.exists_mergeShared?
    (table : SymbolTable)
    {groups : List (Expr × Float)}
    {count : Nat}
    {bound : Reading}
    (gathers : Gathers groups count bound)
    (small : bound.weight < 2 ^ 53)
    (merged : Bool)
    (steps : Nat) :
    ∃ groups' merged',
      Transform.mergeShared? table.construct groups merged steps =
          some (groups', merged') ∧
        Gathers groups' count bound ∧
        (groups' = groups ∧ merged' = merged ∨
          groups'.length < groups.length ∧ merged' = true) := by
  induction steps generalizing groups merged with
  | zero =>
      exact ⟨groups, merged, rfl, gathers, .inl ⟨rfl, rfl⟩⟩
  | succ steps inductionHypothesis =>
      rw [Transform.mergeShared?]
      cases found : Transform.sharedFactor? groups groups 0 with
      | none =>
          exact ⟨groups, merged, rfl, gathers, .inl ⟨rfl, rfl⟩⟩
      | some triple =>
          obtain ⟨place, multiple, cofactor⟩ := triple
          obtain ⟨base, first, product, second, shares⟩ :=
            exists_shares (by simp) found
          have pairSmall :
              (groupReading (base, first) +
                  groupReading (product, second)).weight < 2 ^ 53 := by
            have weights :=
              congrArg Reading.weight
                ((perm_set_eraseIdx (whole 0, floatOfInt 0) shares.base_at
                  shares.product_at shares.ne).map groupReading).sum_eq
            have := gathers.le.2.1
            simp only [List.map_cons, List.sum_cons, Reading.add_weight]
              at weights ⊢
            rw [groupReading_multiple (by decide), Reading.scaled_weight,
              Int.natAbs_zero, Nat.zero_mul] at weights
            omega
          obtain ⟨combined, built, isGroup, le, cheaper⟩ :=
            exists_combined table shares gathers.each pairSmall
          obtain ⟨gathers', length'⟩ :=
            gathers.merge shares.base_at shares.product_at shares.ne isGroup le
              cheaper
          obtain ⟨groups', merged', outcome, final, change⟩ :=
            inductionHypothesis gathers' true
          refine ⟨groups', merged', ?_, final, .inr ?_⟩
          · simp only [shares.base_at, shares.product_at]
            rw [built]
            exact outcome
          · rcases change with ⟨rfl, rfl⟩ | ⟨fewer, rfl⟩
            · exact ⟨by omega, rfl⟩
            · exact ⟨by omega, rfl⟩

/-- The terms of groups add up to what the groups read as. -/
theorem exists_groupTerms?
    (table : SymbolTable)
    {groups : List (Expr × Float)}
    (each : ∀ group ∈ groups, IsGroup group) :
    ∃ terms,
      Transform.groupTerms? table.construct groups = some terms ∧
        AddUp terms (groups.map groupReading).sum := by
  induction groups with
  | nil =>
      exact ⟨[], rfl, .nil⟩
  | cons group rest inductionHypothesis =>
      obtain ⟨isGroup, restEach⟩ := List.forall_mem_cons.mp each
      obtain ⟨terms, built, addUp⟩ := inductionHypothesis restEach
      rw [sum_map_groupReading_cons]
      have kept
          {factor : Int}
          {base term : Expr}
          (small : factor.natAbs < 2 ^ 53)
          (nonzero : factor ≠ 0)
          (scales :
            Transform.scaled table.construct (floatOfInt factor) base = .ok term)
          (within : term.Within (base.reading.scaled factor)) :
          ∃ terms,
            Transform.groupTerms? table.construct
                ((base, floatOfInt factor) :: rest) = some terms ∧
              AddUp terms
                (groupReading (base, floatOfInt factor) +
                  (rest.map groupReading).sum) := by
        refine ⟨term :: terms, ?_, ?_⟩
        · simp [Transform.groupTerms?, floatOfInt_isFinite small,
            floatOfInt_beq_zero small, nonzero, scales, built, Except.toOption]
        · rw [groupReading_multiple small]
          exact addUp.cons within
      cases isGroup with
      | cancelled =>
          refine kept (by decide) one_ne_zero
            (scaled_whole (by decide) (by decide) (by decide)) ?_
          exact (IsLinear.literal (by decide)).within
      | @multiple base factor small linear notLiteral =>
          by_cases zero : factor = 0
          · subst zero
            refine ⟨terms, ?_, ?_⟩
            · rw [Transform.groupTerms?, floatOfInt_isFinite small,
                floatOfInt_beq_zero small]
              exact built
            · refine addUp.mono ?_
              rw [groupReading_multiple small, Reading.scaled, if_pos rfl]
              refine ⟨by simp, Nat.le_add_left _ _, Nat.le_add_left _ _⟩
          · refine kept small zero (scaled_eq_collapsed small zero notLiteral) ?_
            rw [collapsed, Reading.scaled, if_neg zero]
            split
            · exact linear.within
            · refine ⟨.multiple small zero linear notLiteral, ?_⟩
              rw [reading_multiple small]

/-- What becomes of a sum once its groups have been merged and turned into terms. -/
theorem foldAdditions?_eq
    {node : Expr}
    (isSum : node.isApplyOf Operator.add = true)
    {groups : List (Expr × Float)}
    {merged : Bool}
    {terms : List Expr}
    (outcome :
      Transform.mergeShared? table.construct
          (Transform.likeTerms (Transform.nonliterals Operator.add node)) false
          (Transform.likeTerms
            (Transform.nonliterals Operator.add node)).length =
        some (groups, merged))
    (built : Transform.groupTerms? table.construct groups = some terms) :
    Transform.foldAdditions? table table.construct node =
      let operands :=
        (Chain.flatten Operator.add node).filter isNumber ++ terms
      if merged = false ∧
          groups.length = (Transform.nonliterals Operator.add node).length then
        none
      else if operands = [] then
        some (whole 0)
      else
        (Chain.build table.construct Operator.add
          (sortCanonically operands)).toOption := by
  unfold Transform.foldAdditions?
  rw [isSum, Bool.not_true, if_neg Bool.false_ne_true]
  change
    (Transform.mergeShared? table.construct
      (Transform.likeTerms (Transform.nonliterals Operator.add node)) false
      (Transform.likeTerms
        (Transform.nonliterals Operator.add node)).length).bind _ = _
  rw [outcome]
  simp only [Option.bind_some, Option.bind_eq_bind, built, Bool.and_eq_true,
    Bool.not_eq_true', beq_iff_eq, List.isEmpty_iff, whole, floatOfInt_zero]
  rfl

/-- The groups of the addends of a sum other than literals. -/
theorem gathers_likeTerms
    {node : Expr}
    (linear : node.IsLinear)
    (small : node.reading.weight < 2 ^ 53) :
    Gathers (Transform.likeTerms (Transform.nonliterals Operator.add node))
      (Transform.nonliterals Operator.add node).length
      ((Transform.nonliterals Operator.add node).map reading).sum := by
  have weight := congrArg Reading.weight (reading_eq_literals_add linear)
  rw [Reading.add_weight] at weight
  have folded :
      Gathers (List.foldl gather [] (Transform.nonliterals Operator.add node))
        (0 + (Transform.nonliterals Operator.add node).length)
        (0 + ((Transform.nonliterals Operator.add node).map reading).sum) :=
    Gathers.nil.foldl (addUp_filter linear _).linear
      (fun addend member => by simpa using (List.mem_filter.mp member).2)
      (by rw [zero_add]; omega)
  rwa [zero_add, zero_add] at folded

/-- Chains of addends that cancel out or cost less than a sum are what the sum can be replaced by. -/
theorem exists_chain_below
    {node : Expr}
    {operands : List Expr}
    {bound : Reading}
    (linear : node.IsLinear)
    (notLiteral : node.isNumber = false)
    (small : node.reading.weight < 2 ^ 53)
    (addUp : AddUp operands bound)
    (le : bound ≤ node.reading)
    (cheaper : bound.cost < node.reading.cost) :
    ∃ result,
      (if operands = [] then
          some (whole 0)
        else
          (Chain.build table.construct Operator.add
            (sortCanonically operands)).toOption) =
          some result ∧
        result.Below node.reading := by
  by_cases none : operands = []
  · subst none
    have several := (linear.cost_pos.2 notLiteral).1
    have zero : (whole 0).reading = .literal 0 :=
      reading_whole (by decide)
    refine ⟨whole 0, if_pos rfl, ⟨.literal (by decide), ?_⟩, by rwa [zero]⟩
    rw [zero]
    refine ⟨?_, Nat.zero_le _, one_le_two.trans several⟩
    rw [← le.1, ← addUp.le.1]
    simp
  · obtain ⟨result, built, within⟩ :
        ∃ result,
          Chain.build table.construct Operator.add (sortCanonically operands) =
              .ok result ∧
            result.Within bound :=
      addUp.exists_build_sorted none (le.2.1.trans_lt small)
    exact ⟨result, (if_neg none).trans (congrArg Except.toOption built),
      within.below le cheaper⟩

/--
Combining the like terms of a sum makes it cheaper, unless all its addends other than literals have
different bases.
-/
theorem foldAdditions?_sum
    {node : Expr}
    (linear : node.IsLinear)
    (isSum : node.isApplyOf Operator.add = true)
    (small : node.reading.weight < 2 ^ 53) :
    (∃ result,
        Transform.foldAdditions? table table.construct node = some result ∧
          result.Below node.reading) ∨
      Transform.foldAdditions? table table.construct node = none ∧
        ((Transform.nonliterals Operator.add node).map fun addend =>
          (Transform.splitCoefficient addend).2).Nodup := by
  have gathered := gathers_likeTerms linear small
  have apart := reading_eq_literals_add linear
  have costs := congrArg Reading.cost apart
  have weights := congrArg Reading.weight apart
  rw [Reading.add_cost] at costs
  rw [Reading.add_weight] at weights
  obtain ⟨groups, merged, outcome, gathers, change⟩ :=
    gathered.exists_mergeShared? table (by omega) false
      (Transform.likeTerms (Transform.nonliterals Operator.add node)).length
  obtain ⟨terms, built, termsAddUp⟩ := exists_groupTerms? table gathers.each
  rw [foldAdditions?_eq isSum outcome built]
  by_cases untouched :
      merged = false ∧
        groups.length = (Transform.nonliterals Operator.add node).length
  · obtain ⟨rfl, sameLength⟩ := untouched
    refine .inr ⟨if_pos ⟨rfl, sameLength⟩, ?_⟩
    rcases change with ⟨rfl, -⟩ | ⟨-, impossible⟩
    · have distinct :=
        (@nodup_of_length_foldl_gather []
          (Transform.nonliterals Operator.add node) List.nodup_nil).2
      exact distinct (by rw [← likeTerms_eq, sameLength]; simp)
    · cases impossible
  · -- There are fewer groups than addends, and each addend without a group has saved something.
    have fewer :
        groups.length < (Transform.nonliterals Operator.add node).length := by
      have length_le := gathers.length_le
      have gathered_le := gathered.length_le
      rcases change with ⟨-, unmerged⟩ | ⟨shorter, -⟩
      · exact lt_of_le_of_ne length_le fun same => untouched ⟨unmerged, same⟩
      · omega
    have saved := gathers.saved
    simp only [untouched, if_false]
    refine .inl (exists_chain_below linear ?_ small
      ((addUp_filter linear isNumber).append termsAddUp) ?_ ?_)
    · cases node with
      | apply head args =>
          rfl
      | _ =>
          cases isSum
    · rw [apart]
      exact Reading.add_le_add le_rfl gathers.le
    · rw [Reading.add_cost]
      omega

end Merging

end SymbolicAlgebra
