import SymbolicAlgebra.Proofs.Bitwise.Chain
import SymbolicAlgebra.Proofs.Expr.Order

/-!
# Operands of exclusive disjunctions

The operands of an exclusive disjunction of symbols and integers matter in two ways only: what the literals
combine to, and which symbols occur an odd number of times.  Values of the symbols tell any two lists of
operands apart that differ in one of these.  Of operands that are merged and cancelled there is just one list
for each outcome, up to order.
-/

namespace SymbolicAlgebra

open SymbolicAlgebra.Expr
open BitOperator (exclusion)

/-- A symbol or the literal of an exact integer. -/
inductive Expr.IsAtom : Expr → Prop where
  | symbol
      (name : String) :
      IsAtom (symbol name)
  | literal
      {value : Float}
      (exact : ExactInt)
      (represented : value = floatOfInt exact.whole) :
      IsAtom (number value)

/-- The integer one. -/
def ExactInt.one : ExactInt :=
  ⟨1, by decide, by decide⟩

/-- The values that tell one symbol apart from all others, which are zero. -/
def marking
    (name : String) : String → ExactInt :=
  fun other => if other = name then .one else default

/-- The values that make all symbols zero. -/
def blank : String → ExactInt :=
  fun _ => default

namespace Expr.IsAtom

variable {item : Expr}

theorem of_literal
    (exact : ExactInt) :
    exact.literal.IsAtom := by
  rw [exact.literal_eq_number]
  exact .literal exact rfl

theorem isLeaf
    (isAtom : item.IsAtom) :
    item.isLeaf = true := by
  cases isAtom <;> rfl

theorem plainlyNamed
    (isAtom : item.IsAtom) :
    item.PlainlyNamed := by
  cases isAtom <;> exact nofun

theorem not_isApplyOf
    (isAtom : item.IsAtom)
    (op : Expr) :
    item.isApplyOf op = false := by
  cases isAtom <;> rfl

theorem exists_literal
    (isAtom : item.IsAtom)
    (isNumber : item.isNumber = true) :
    ∃ exact : ExactInt, item = exact.literal := by
  cases isAtom with
  | symbol name =>
      cases isNumber
  | literal exact represented =>
      exact ⟨exact, by rw [exact.literal_eq_number, represented]⟩

end Expr.IsAtom

theorem ExactInt.word_literal
    (exact : ExactInt)
    (values : String → ExactInt) :
    exact.literal.word values = exact.word := by
  have denotes : exact.literal.Denotes [] values exact.word :=
    exact.denotes_literal
  exact denotes.word_eq

/-! ## What operands combine to -/

/-- Atoms are bitwise terms over the symbols among them. -/
theorem isBitwise_of_atoms
    {items : List Expr}
    (atoms : ∀ item ∈ items, item.IsAtom) :
    ∀ item ∈ items, item.IsBitwise (items.filterMap symbol?) := by
  intro item member
  cases atoms item member with
  | symbol name =>
      exact .input (List.mem_filterMap.mpr ⟨_, member, rfl⟩)
  | literal exact represented =>
      exact .literal exact represented

section Total

variable {items items' : List Expr} {values : String → ExactInt}

theorem total_cons
    (values : String → ExactInt)
    (item : Expr)
    (items : List Expr) :
    exclusion.total values (item :: items) =
      item.word values ^^^ exclusion.total values items :=
  rfl

/-- Cancelling in pairs does not change what operands combine to. -/
theorem total_oddItems
    (atoms : ∀ item ∈ items, item.IsAtom) :
    exclusion.total values (Transform.oddItems items) = exclusion.total values items :=
  (Transform.oddItems_joins ⟨isBitwise_of_atoms atoms, rfl⟩).total_eq

/-- The literals and the other operands can be combined separately. -/
theorem total_split
    (atoms : ∀ item ∈ items, item.IsAtom)
    (values : String → ExactInt) :
    exclusion.total values items =
      exclusion.total blank items ^^^
        exclusion.total values (items.filter (!·.isNumber)) := by
  induction items with
  | nil =>
      exact BitVec.xor_self.symm
  | cons item rest inductionHypothesis =>
      obtain ⟨isAtom, others⟩ := List.forall_mem_cons.mp atoms
      rw [total_cons, total_cons, inductionHypothesis others]
      cases isAtom with
      | symbol name =>
          have zero : (symbol name).word blank = 0#64 :=
            rfl
          rw [zero, BitVec.zero_xor, List.filter_cons_of_pos rfl, total_cons,
            ← BitVec.xor_assoc, ← BitVec.xor_assoc,
            BitVec.xor_comm (exclusion.total blank rest)]
      | @literal value exact represented =>
          have same : (number value).word values = (number value).word blank :=
            rfl
          rw [List.filter_cons_of_neg Bool.false_ne_true, same,
            BitVec.xor_assoc]

/-- If all symbols are zero, only the literals count. -/
theorem total_blank_filter
    (atoms : ∀ item ∈ items, item.IsAtom) :
    exclusion.total blank items = exclusion.total blank (items.filter isNumber) := by
  induction items with
  | nil =>
      rfl
  | cons item rest inductionHypothesis =>
      obtain ⟨isAtom, others⟩ := List.forall_mem_cons.mp atoms
      rw [total_cons, inductionHypothesis others]
      cases isAtom with
      | symbol name =>
          exact BitVec.zero_xor
      | literal exact represented =>
          rfl

/-- Marking a symbol shows whether it occurs an odd number of times. -/
theorem total_marking
    (atoms : ∀ item ∈ items, item.IsAtom)
    (name : String) :
    exclusion.total (marking name) items =
      exclusion.total blank items ^^^ BitVec.ofNat 64 (items.count (symbol name) % 2) := by
  induction items with
  | nil =>
      exact BitVec.xor_self.symm
  | cons item rest inductionHypothesis =>
      obtain ⟨isAtom, others⟩ := List.forall_mem_cons.mp atoms
      rw [total_cons, total_cons, inductionHypothesis others]
      by_cases same : item = symbol name
      · subst same
        have one : (symbol name).word (marking name) = 1#64 := by
          simp [word, marking]
          rfl
        have zero : (symbol name).word blank = 0#64 :=
          rfl
        have flipped (count : Nat) :
            1#64 ^^^ BitVec.ofNat 64 (count % 2) =
              BitVec.ofNat 64 ((count + 1) % 2) := by
          rcases Nat.mod_two_eq_zero_or_one count with even | odd
          · have next : (count + 1) % 2 = 1 := by
              omega
            rw [even, next]
            rfl
          · have next : (count + 1) % 2 = 0 := by
              omega
            rw [odd, next]
            rfl
        rw [one, zero, List.count_cons_self, ← flipped, BitVec.zero_xor,
          ← BitVec.xor_assoc, ← BitVec.xor_assoc, BitVec.xor_comm 1#64]
      · have sameWord : item.word (marking name) = item.word blank := by
          cases isAtom with
          | symbol other =>
              have different : other ≠ name :=
                fun equal => same (congrArg symbol equal)
              simp [word, marking, blank, different]
          | literal exact represented =>
              rfl
        rw [sameWord, List.count_cons_of_ne same, BitVec.xor_assoc]

/-- What operands combine to under all values decides how often a symbol occurs, up to parity. -/
theorem count_mod_eq_of_total_eq
    (atoms : ∀ item ∈ items, item.IsAtom)
    (atoms' : ∀ item ∈ items', item.IsAtom)
    (same : ∀ values, exclusion.total values items = exclusion.total values items')
    (name : String) :
    items.count (symbol name) % 2 = items'.count (symbol name) % 2 := by
  have marked := same (marking name)
  rw [total_marking atoms, total_marking atoms', same blank] at marked
  have sameBits := congrArg BitVec.toNat (BitVec.xor_right_inj _ |>.mp marked)
  rw [BitVec.toNat_ofNat, BitVec.toNat_ofNat] at sameBits
  omega

/-- The literals and the parities of the symbols decide what operands combine to. -/
theorem total_eq_of_count_mod_eq
    (atoms : ∀ item ∈ items, item.IsAtom)
    (atoms' : ∀ item ∈ items', item.IsAtom)
    (literals : exclusion.total blank items = exclusion.total blank items')
    (symbols :
      ∀ name,
        items.count (symbol name) % 2 = items'.count (symbol name) % 2)
    (values : String → ExactInt) :
    exclusion.total values items = exclusion.total values items' := by
  have symbolsOnly
      {list : List Expr}
      (listAtoms : ∀ item ∈ list, item.IsAtom) :
      ∀ item ∈ list.filter (!·.isNumber), item.IsAtom :=
    fun item member => listAtoms item (List.mem_of_mem_filter member)
  have permuted :
      (Transform.oddItems (items.filter (!·.isNumber))).Perm
        (Transform.oddItems (items'.filter (!·.isNumber))) := by
    rw [List.perm_iff_count]
    intro item
    rw [Transform.count_oddItems, Transform.count_oddItems]
    by_cases isSymbol : ∃ name, item = symbol name
    · obtain ⟨name, rfl⟩ := isSymbol
      rw [List.count_filter rfl, List.count_filter rfl]
      exact symbols name
    · have absent
          {list : List Expr}
          (listAtoms : ∀ item ∈ list, item.IsAtom) :
          (list.filter (!·.isNumber)).count item = 0 := by
        rw [List.count_eq_zero]
        intro member
        obtain ⟨member, notNumber⟩ := List.mem_filter.mp member
        cases listAtoms item member with
        | symbol name =>
            exact isSymbol ⟨name, rfl⟩
        | literal exact represented =>
            cases notNumber
      rw [absent atoms, absent atoms']
  rw [total_split atoms, total_split atoms', literals,
    ← total_oddItems (symbolsOnly atoms), exclusion.total_of_perm permuted,
    total_oddItems (symbolsOnly atoms')]

end Total

/-! ## Merged and cancelled operands -/

/-- Atoms with at most one literal, which is not zero if there are other operands. -/
structure IsMerged
    (items : List Expr) : Prop where
  atoms :
    ∀ item ∈ items, item.IsAtom
  oneLiteral :
    (items.filter isNumber).length ≤ 1
  zeroAlone :
    .number 0 ∈ items → ∀ name, symbol name ∉ items

/-- Merged operands that are all different. -/
structure IsCancelled
    (items : List Expr) : Prop extends IsMerged items where
  distinct :
    items.Nodup

section Cancelled

variable {items items' : List Expr}

theorem isCancelled_singleton
    {item : Expr}
    (isAtom : item.IsAtom) :
    IsCancelled [item] where
  atoms :=
    List.forall_mem_singleton.mpr isAtom
  oneLiteral :=
    List.length_filter_le _ _
  zeroAlone := by
    intro isZero name isSymbol
    cases List.mem_singleton.mp isZero
    cases List.mem_singleton.mp isSymbol
  distinct :=
    List.nodup_singleton item

theorem filter_isNumber_symbols
    (symbols : ∀ item ∈ items, ∃ name, item = symbol name) :
    items.filter isNumber = [] := by
  rw [List.filter_eq_nil_iff]
  intro item member
  obtain ⟨name, rfl⟩ := symbols item member
  exact nofun

/-- Symbols are merged. -/
theorem isMerged_symbols
    (symbols : ∀ item ∈ items, ∃ name, item = symbol name) :
    IsMerged items where
  atoms item member := by
    obtain ⟨name, rfl⟩ := symbols item member
    exact .symbol name
  oneLiteral := by
    rw [filter_isNumber_symbols symbols]
    exact Nat.zero_le _
  zeroAlone isZero := by
    obtain ⟨name, same⟩ := symbols _ isZero
    cases same

/-- So are a literal and symbols, if the literal is not zero or there are no symbols. -/
theorem isMerged_literal_cons
    {exact : ExactInt}
    (symbols : ∀ item ∈ items, ∃ name, item = symbol name)
    (alone : exact.literal = .number 0 → items = []) :
    IsMerged (exact.literal :: items) where
  atoms :=
    List.forall_mem_cons.mpr ⟨.of_literal exact, (isMerged_symbols symbols).atoms⟩
  oneLiteral := by
    rw [List.filter_cons_of_pos exact.isNumber_literal,
      filter_isNumber_symbols symbols]
    exact Nat.le_refl _
  zeroAlone := by
    intro isZero name isSymbol
    have zero : exact.literal = .number 0 := by
      rcases List.mem_cons.mp isZero with same | member
      · exact same.symm
      · obtain ⟨other, same⟩ := symbols _ member
        cases same
    rw [alone zero, zero] at isSymbol
    cases List.mem_singleton.mp isSymbol

/-- Some of merged operands are merged. -/
theorem IsMerged.of_subperm
    (merged : IsMerged items')
    (part : items.Subperm items') :
    IsMerged items where
  atoms item member :=
    merged.atoms item (part.subset member)
  oneLiteral :=
    (part.filter isNumber).length_le.trans merged.oneLiteral
  zeroAlone isZero name isSymbol :=
    merged.zeroAlone (part.subset isZero) name (part.subset isSymbol)

theorem IsCancelled.of_perm
    (cancelled : IsCancelled items')
    (permuted : items.Perm items') :
    IsCancelled items where
  toIsMerged :=
    cancelled.toIsMerged.of_subperm permuted.subperm
  distinct :=
    permuted.nodup_iff.mpr cancelled.distinct

/-- Merged operands with a literal combine to it if all symbols are zero. -/
theorem IsMerged.total_blank
    {exact : ExactInt}
    (merged : IsMerged items)
    (member : exact.literal ∈ items) :
    exclusion.total blank items = exact.word := by
  have alone : items.filter isNumber = [exact.literal] := by
    have isLiteral : exact.literal ∈ items.filter isNumber :=
      List.mem_filter.mpr ⟨member, exact.isNumber_literal⟩
    have oneLiteral := merged.oneLiteral
    match shape : items.filter isNumber, oneLiteral, isLiteral with
    | [literal], _, isLiteral =>
        rw [List.mem_singleton.mp isLiteral]
  rw [total_blank_filter merged.atoms, alone, total_cons,
    exact.word_literal]
  exact BitVec.xor_zero

/-- Symbols among cancelled operands show in what the operands combine to. -/
theorem IsCancelled.symbol_mem_of_total_eq
    {name : String}
    (cancelled : IsCancelled items)
    (cancelled' : IsCancelled items')
    (same : ∀ values, exclusion.total values items = exclusion.total values items')
    (member : symbol name ∈ items) :
    symbol name ∈ items' := by
  have counts :=
    count_mod_eq_of_total_eq cancelled.atoms cancelled'.atoms same name
  rw [List.count_eq_one_of_mem cancelled.distinct member] at counts
  exact List.count_pos_iff.mp (by omega)

/-- So do literals, unless the other operands are none at all. -/
theorem IsCancelled.literal_mem_of_total_eq
    {exact : ExactInt}
    (cancelled : IsCancelled items)
    (cancelled' : IsCancelled items')
    (nonempty' : items' ≠ [])
    (same : ∀ values, exclusion.total values items = exclusion.total values items')
    (member : exact.literal ∈ items) :
    exact.literal ∈ items' := by
  have word : exclusion.total blank items' = exact.word := by
    rw [← same, cancelled.total_blank member]
  by_cases hasLiteral : ∃ exact' : ExactInt, exact'.literal ∈ items'
  · obtain ⟨exact', member'⟩ := hasLiteral
    rw [cancelled'.total_blank member'] at word
    rw [ExactInt.literal, ← ExactInt.eq_of_word word]
    exact member'
  · -- Without a literal there is a symbol, and the literal is zero beside it.
    have onlySymbols : ∀ item ∈ items', ∃ name, item = symbol name := by
      intro item isItem
      cases cancelled'.atoms item isItem with
      | symbol name =>
          exact ⟨name, rfl⟩
      | literal exact' represented =>
          refine (hasLiteral ⟨exact', ?_⟩).elim
          rw [exact'.literal_eq_number, ← represented]
          exact isItem
    rw [total_blank_filter cancelled'.atoms, filter_isNumber_symbols onlySymbols]
      at word
    have zeroWord : (default : ExactInt).word = exact.word :=
      word
    have isZero : exact.literal = .number 0 := by
      rw [ExactInt.literal, ← ExactInt.eq_of_word zeroWord]
      rfl
    obtain ⟨item, isItem⟩ := List.exists_mem_of_ne_nil items' nonempty'
    obtain ⟨name, rfl⟩ := onlySymbols item isItem
    rw [isZero] at member
    refine (cancelled.zeroAlone member name ?_).elim
    exact cancelled'.symbol_mem_of_total_eq cancelled (fun values => (same values).symm)
      isItem

/-- Cancelled operands that combine to the same under all values are the same, up to order. -/
theorem IsCancelled.perm_of_total_eq
    (cancelled : IsCancelled items)
    (cancelled' : IsCancelled items')
    (nonempty : items ≠ [])
    (nonempty' : items' ≠ [])
    (same : ∀ values, exclusion.total values items = exclusion.total values items') :
    items.Perm items' := by
  have mem_of_mem
      {items items' : List Expr}
      (cancelled : IsCancelled items)
      (cancelled' : IsCancelled items')
      (nonempty' : items' ≠ [])
      (same :
        ∀ values, exclusion.total values items = exclusion.total values items')
      {item : Expr}
      (member : item ∈ items) :
      item ∈ items' := by
    cases cancelled.atoms item member with
    | symbol name =>
        exact cancelled.symbol_mem_of_total_eq cancelled' same member
    | literal exact represented =>
        rw [represented, ← exact.literal_eq_number] at member ⊢
        exact cancelled.literal_mem_of_total_eq cancelled' nonempty' same member
  rw [List.perm_ext_iff_of_nodup cancelled.distinct cancelled'.distinct]
  intro item
  exact ⟨mem_of_mem cancelled cancelled' nonempty' same,
    mem_of_mem cancelled' cancelled nonempty fun values => (same values).symm⟩

end Cancelled

end SymbolicAlgebra
