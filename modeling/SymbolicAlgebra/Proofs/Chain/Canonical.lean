import SymbolicAlgebra.Proofs.Chain.Nested
import SymbolicAlgebra.Proofs.Chain.Operands
import SymbolicAlgebra.Proofs.Regrouping
import SymbolicAlgebra.Proofs.Visit

/-!
# Canonical chains

Some operators do nothing to operands of a certain kind but to regroup them.  A pass over any combination
of such operands makes the canonical chain of what it makes of the operands, and a canonical chain of
fixed points is a fixed point.  So applying the operator to two canonical chains gives the canonical chain
of all operands.
-/

namespace SymbolicAlgebra

open SymbolicAlgebra.Expr

/-! ## Combinations -/

/-- Operands of a kind, combined by binary applications of an operator. -/
inductive Combines
    (op : Expr)
    (kind : Expr → Prop) : Expr → Prop where
  | operand
      {expr : Expr}
      (isKind : kind expr) :
      Combines op kind expr
  | node
      {lhs rhs : Expr}
      (lhsCombines : Combines op kind lhs)
      (rhsCombines : Combines op kind rhs) :
      Combines op kind (.apply op [lhs, rhs])

/-- The operands of a combination are of the kind. -/
theorem Combines.kind_of_mem_flatten
    {op expr item : Expr}
    {kind : Expr → Prop}
    (combines : Combines op kind expr)
    (single : ∀ {item}, kind item → item.isApplyOf op = false)
    (member : item ∈ Chain.flatten op expr) :
    kind item := by
  induction combines with
  | operand isKind =>
      rw [Chain.flatten_of_not_isApplyOf (single isKind), List.mem_singleton]
        at member
      rw [member]
      exact isKind
  | node lhsCombines rhsCombines lhsHypothesis rhsHypothesis =>
      rw [Chain.flatten_pair, List.mem_append] at member
      exact member.elim lhsHypothesis rhsHypothesis

theorem Combines.flatten_ne_nil
    {op expr : Expr}
    {kind : Expr → Prop}
    (combines : Combines op kind expr)
    (single : ∀ {item}, kind item → item.isApplyOf op = false) :
    Chain.flatten op expr ≠ [] := by
  induction combines with
  | operand isKind =>
      rw [Chain.flatten_of_not_isApplyOf (single isKind)]
      exact List.cons_ne_nil _ _
  | node lhsCombines rhsCombines lhsHypothesis rhsHypothesis =>
      rw [Chain.flatten_pair]
      exact List.append_ne_nil_of_left_ne_nil lhsHypothesis _

/-- A combination of operands that are of another kind as well is one of operands of that kind. -/
theorem Combines.of_flatten
    {op expr : Expr}
    {kind kind' : Expr → Prop}
    (combines : Combines op kind expr)
    (single : ∀ {item}, kind item → item.isApplyOf op = false)
    (kinds : ∀ item ∈ Chain.flatten op expr, kind' item) :
    Combines op kind' expr := by
  induction combines with
  | @operand item isKind =>
      rw [Chain.flatten_of_not_isApplyOf (single isKind)] at kinds
      exact .operand (kinds item List.mem_cons_self)
  | node lhsCombines rhsCombines lhsHypothesis rhsHypothesis =>
      rw [Chain.flatten_pair] at kinds
      obtain ⟨lhsKinds, rhsKinds⟩ := List.forall_mem_append.mp kinds
      exact .node (lhsHypothesis lhsKinds) (rhsHypothesis rhsKinds)

theorem combines_nested
    {op first : Expr}
    {kind : Expr → Prop}
    {rest : List Expr}
    (kinds : ∀ item ∈ first :: rest, kind item) :
    Combines op kind (nested op first rest) := by
  induction rest generalizing first with
  | nil =>
      exact .operand (kinds first List.mem_cons_self)
  | cons second rest inductionHypothesis =>
      obtain ⟨isKind, others⟩ := List.forall_mem_cons.mp kinds
      exact .node (.operand isKind) (inductionHypothesis others)

/-- The combination is the right-nested chain of canonical operands. -/
structure IsCanonicalChain
    (op : Expr)
    (kind : Expr → Prop)
    (idempotent : Bool)
    (items : List Expr)
    (expr : Expr) : Prop where
  combines :
    Combines op kind expr
  isChain :
    IsChainOf op (canonicalOperands idempotent items) expr

/-- The combination is the canonical chain of its own operands. -/
def IsCanonical
    (op : Expr)
    (kind : Expr → Prop)
    (idempotent : Bool)
    (expr : Expr) : Prop :=
  IsCanonicalChain op kind idempotent (Chain.flatten op expr) expr

/-- The rules between the one that sorts operands and the ones that regroup chains. -/
def rulesBeforeRegrouping : List Rule :=
  (catalogue.take 10).tail

/-- The rules that regroup chains and look for repetitions in them. -/
def regroupingRules : List Rule :=
  catalogue.drop 10

/-- Sorting the operands of an application that is stored leaves them in place or swaps them. -/
theorem result_commutativeOrder
    {table : SymbolTable}
    {op lhs rhs : Expr}
    (stores :
      table.construct op [lhs, rhs] =
        .ok (.apply op (sortBy (operandCompare op) [lhs, rhs]))) :
    Transform.commutativeOrder?.result table (.apply op [lhs, rhs]) =
        .apply op [lhs, rhs] ∨
      Transform.commutativeOrder?.result table (.apply op [lhs, rhs]) =
        .apply op [rhs, lhs] := by
  have either := result_commutativeOrder_of_construct stores
  rcases sortBy_pair_cases (operandCompare op) lhs rhs with same | swapped
  · rw [same] at either
    exact .inl (or_self_iff.mp either)
  · rw [swapped] at either
    exact either

/-- Of the rules that apply to combinations of operands of a kind, all regroup them. -/
structure Regroups
    (table : SymbolTable)
    (op : Expr)
    (kind : Expr → Prop)
    (idempotent : Bool) : Prop where
  isLeaf :
    op.isLeaf = true
  plainlyNamed :
    ∀ {item}, kind item → item.PlainlyNamed
  single :
    ∀ {item}, kind item → item.isApplyOf op = false
  stores :
    ∀ {lhs rhs},
      Combines op kind lhs → Combines op kind rhs →
        table.construct op [lhs, rhs] =
          .ok (.apply op (sortBy (operandCompare op) [lhs, rhs]))
  waits :
    ∀ {lhs rhs},
      Combines op kind lhs → Combines op kind rhs →
        ∀ rule ∈ rulesBeforeRegrouping,
          rule.transform? table table.construct (.apply op [lhs, rhs]) = none
  sorts :
    ∀ {lhs rhs},
      Combines op kind lhs → Combines op kind rhs →
        Transform.reassociate? table table.construct (.apply op [lhs, rhs]) =
          (Transform.rebuilding? op (.apply op [lhs, rhs])
            (sortCanonically (Chain.flatten op (.apply op [lhs, rhs])))).bind
              (Regrouping.build? table.construct op)
  collapses :
    ∀ {lhs rhs},
      Combines op kind lhs → Combines op kind rhs →
        Transform.bitIdentities? table table.construct (.apply op [lhs, rhs]) =
          if idempotent then
            Transform.deduplicate? table.construct op (.apply op [lhs, rhs])
          else
            none

namespace Regroups

variable {table : SymbolTable} {op expr lhs rhs : Expr} {kind : Expr → Prop}
  {idempotent : Bool} {items later : List Expr}

theorem plainlyNamed_of_mem_flatten
    (regroups : Regroups table op kind idempotent)
    (combines : Combines op kind expr) :
    ∀ item ∈ Chain.flatten op expr, item.PlainlyNamed := by
  intro item member
  exact regroups.plainlyNamed (combines.kind_of_mem_flatten regroups.single member)

theorem flatten_ne_nil_of_combines
    (regroups : Regroups table op kind idempotent)
    (combines : Combines op kind expr) :
    Chain.flatten op expr ≠ [] :=
  combines.flatten_ne_nil regroups.single

/-- A combination of several operands is an application to two. -/
theorem exists_node
    (regroups : Regroups table op kind idempotent)
    (combines : Combines op kind expr)
    (several : (Chain.flatten op expr).length ≠ 1) :
    ∃ lhs rhs,
      Combines op kind lhs ∧ Combines op kind rhs ∧
        expr = .apply op [lhs, rhs] := by
  cases combines with
  | operand isKind =>
      rw [Chain.flatten_of_not_isApplyOf (regroups.single isKind)] at several
      exact (several rfl).elim
  | node lhsCombines rhsCombines =>
      exact ⟨_, _, lhsCombines, rhsCombines, rfl⟩

/-- Building the chain of sorted operands succeeds and combines these operands. -/
theorem exists_build
    (regroups : Regroups table op kind idempotent)
    (kinds : ∀ item ∈ items, kind item)
    (sorted : items.Pairwise (NotAfter canonicalCompare))
    (nonempty : items ≠ []) :
    ∃ chain,
      Chain.build table.construct op items = .ok chain ∧
        Combines op kind chain ∧ IsChainOf op items chain := by
  obtain ⟨first, rest, rfl⟩ := List.exists_cons_of_ne_nil nonempty
  have singles : ∀ item ∈ first :: rest, item.isApplyOf op = false :=
    fun item member => regroups.single (kinds item member)
  refine ⟨nested op first rest, ?_, combines_nested kinds,
    isChainOf_nested singles⟩
  apply build_of_sorted singles sorted
  intro lhs rhs later suffix
  have suffixKinds : ∀ item ∈ lhs :: rhs :: later, kind item :=
    fun item member => kinds item (suffix.mem member)
  obtain ⟨isKind, laterKinds⟩ := List.forall_mem_cons.mp suffixKinds
  exact regroups.stores (.operand isKind) (combines_nested laterKinds)

/-! ## Visiting a combination -/

/-- Regrouping sorts the operands of a combination. -/
theorem result_reassociate
    (regroups : Regroups table op kind idempotent)
    (lhsCombines : Combines op kind lhs)
    (rhsCombines : Combines op kind rhs) :
    Combines op kind
        (Transform.reassociate?.result table (.apply op [lhs, rhs])) ∧
      IsChainOf op
        (sortCanonically (Chain.flatten op (.apply op [lhs, rhs])))
        (Transform.reassociate?.result table (.apply op [lhs, rhs])) := by
  have combines : Combines op kind (.apply op [lhs, rhs]) :=
    .node lhsCombines rhsCombines
  have sorts := regroups.sorts lhsCombines rhsCombines
  unfold Transform.rebuilding? at sorts
  split at sorts
  · rename_i done
    rw [result_of_none sorts]
    exact ⟨combines, done.1.symm, done.2⟩
  · obtain ⟨chain, built, chainCombines, isChain⟩ :
        ∃ chain,
          Chain.build table.construct op
              (canonicalOperands false
                (Chain.flatten op (.apply op [lhs, rhs]))) =
            .ok chain ∧ _ :=
      regroups.exists_build
        (fun item member =>
          combines.kind_of_mem_flatten regroups.single
            (mem_canonicalOperands.mp member))
        (canonicalOperands_sorted
          (regroups.plainlyNamed_of_mem_flatten combines))
        (canonicalOperands_ne_nil
          (regroups.flatten_ne_nil_of_combines combines))
    rw [canonicalOperands_false] at built isChain
    rw [Option.bind_some, Regrouping.build?, built] at sorts
    rw [result_of_some sorts]
    exact ⟨chainCombines, isChain⟩

/-- Looking for repetitions in a sorted chain makes its operands canonical. -/
theorem result_bitIdentities
    (regroups : Regroups table op kind idempotent)
    (combines : Combines op kind expr)
    (several : (Chain.flatten op expr).length ≠ 1)
    (isChain : IsChainOf op (sortCanonically items) expr)
    (plain : ∀ item ∈ items, item.PlainlyNamed) :
    IsCanonicalChain op kind idempotent items
      (Transform.bitIdentities?.result table expr) := by
  have permuted : (Chain.flatten op expr).Perm items := by
    rw [isChain.flatten_eq]
    exact sortBy_perm canonicalCompare items
  obtain ⟨lhs, rhs, lhsCombines, rhsCombines, shape⟩ :=
    regroups.exists_node combines several
  have collapses := regroups.collapses lhsCombines rhsCombines
  rw [← shape] at collapses
  cases idempotent with
  | false =>
      rw [result_of_none collapses]
      exact ⟨combines, isChain⟩
  | true =>
      have exprPlain := regroups.plainlyNamed_of_mem_flatten combines
      have same :
          canonicalOperands true (Chain.flatten op expr) =
            canonicalOperands true items :=
        (SameOperands.of_perm permuted).canonicalOperands_eq exprPlain
      simp only [if_true, Transform.deduplicate?] at collapses
      split at collapses
      · rename_i distinct
        rw [result_of_none collapses]
        refine ⟨combines, ?_, isChain.isNested⟩
        have sorted :
            canonicalOperands false (canonicalOperands false items) =
              canonicalOperands false items :=
          canonicalOperands_canonicalOperands plain
        rw [canonicalOperands_false, canonicalOperands_false] at sorted
        rw [← same, canonicalOperands_true,
          Transform.distinctItems_eq_self distinct, isChain.flatten_eq, sorted]
      · obtain ⟨chain, built, chainCombines, chainIsChain⟩ :
            ∃ chain,
              Chain.build table.construct op
                  (canonicalOperands true (Chain.flatten op expr)) =
                .ok chain ∧ _ :=
          regroups.exists_build
            (fun item member =>
              combines.kind_of_mem_flatten regroups.single
                (mem_canonicalOperands.mp member))
            (canonicalOperands_sorted exprPlain)
            (canonicalOperands_ne_nil
              (regroups.flatten_ne_nil_of_combines combines))
        rw [← canonicalOperands_true, built] at collapses
        rw [result_of_some collapses]
        exact ⟨chainCombines, same ▸ chainIsChain⟩

/-- The rules that regroup chains make a canonical chain of a combination. -/
theorem visited_regroupingRules
    (regroups : Regroups table op kind idempotent)
    (lhsCombines : Combines op kind lhs)
    (rhsCombines : Combines op kind rhs) :
    IsCanonicalChain op kind idempotent
      (Chain.flatten op lhs ++ Chain.flatten op rhs)
      (visited table regroupingRules (.apply op [lhs, rhs])) := by
  have combines : Combines op kind (.apply op [lhs, rhs]) :=
    .node lhsCombines rhsCombines
  obtain ⟨sortedCombines, isChain⟩ :=
    regroups.result_reassociate lhsCombines rhsCombines
  have several :
      (Chain.flatten op
        (Transform.reassociate?.result table (.apply op [lhs, rhs]))).length ≠
          1 := by
    have lhsNonempty :=
      List.length_pos_of_ne_nil (regroups.flatten_ne_nil_of_combines lhsCombines)
    have rhsNonempty :=
      List.length_pos_of_ne_nil (regroups.flatten_ne_nil_of_combines rhsCombines)
    rw [isChain.flatten_eq, sortCanonically, (sortBy_perm _ _).length_eq,
      Chain.flatten_pair, List.length_append]
    omega
  rw [← Chain.flatten_pair]
  exact regroups.result_bitIdentities sortedCombines several isChain
    (regroups.plainlyNamed_of_mem_flatten combines)

/-- The canonical chain of operands is that of the same operands. -/
theorem of_sameOperands
    (regroups : Regroups table op kind idempotent)
    (canonical : IsCanonicalChain op kind idempotent items expr)
    (same : SameOperands idempotent items later) :
    IsCanonicalChain op kind idempotent later expr := by
  refine ⟨canonical.combines, ?_⟩
  have plain : ∀ item ∈ items, item.PlainlyNamed := by
    intro item member
    apply regroups.plainlyNamed_of_mem_flatten canonical.combines
    rw [canonical.isChain.flatten_eq]
    exact mem_canonicalOperands.mpr member
  rw [← same.canonicalOperands_eq plain]
  exact canonical.isChain

/--
Rules that wait and the ones that regroup make the canonical chain of a combination, whichever part of it
comes first.
-/
theorem visited_stored
    (regroups : Regroups table op kind idempotent)
    (lhsCombines : Combines op kind lhs)
    (rhsCombines : Combines op kind rhs)
    {node : Expr}
    (stored : node = .apply op [lhs, rhs] ∨ node = .apply op [rhs, lhs])
    {rules : List Rule}
    (before : rules ⊆ rulesBeforeRegrouping) :
    IsCanonicalChain op kind idempotent
      (Chain.flatten op lhs ++ Chain.flatten op rhs)
      (visited table (rules ++ regroupingRules) node) := by
  have waiting
      {lhs rhs : Expr}
      (lhsCombines : Combines op kind lhs)
      (rhsCombines : Combines op kind rhs) :
      visited table (rules ++ regroupingRules) (.apply op [lhs, rhs]) =
        visited table regroupingRules (.apply op [lhs, rhs]) := by
    have kept :
        visited table rules (.apply op [lhs, rhs]) = .apply op [lhs, rhs] :=
      visited_of_waits fun rule member =>
        regroups.waits lhsCombines rhsCombines rule (before member)
    rw [visited_append, kept]
  rcases stored with rfl | rfl
  · rw [waiting lhsCombines rhsCombines]
    exact regroups.visited_regroupingRules lhsCombines rhsCombines
  · rw [waiting rhsCombines lhsCombines]
    exact regroups.of_sameOperands
      (regroups.visited_regroupingRules rhsCombines lhsCombines)
      (.of_perm List.perm_append_comm)

/-- Visiting a combination makes the canonical chain of its operands, whichever part comes first. -/
theorem visited_pair
    (regroups : Regroups table op kind idempotent)
    (lhsCombines : Combines op kind lhs)
    (rhsCombines : Combines op kind rhs)
    {node : Expr}
    (stored : node = .apply op [lhs, rhs] ∨ node = .apply op [rhs, lhs]) :
    IsCanonicalChain op kind idempotent
      (Chain.flatten op lhs ++ Chain.flatten op rhs)
      (visited table catalogue node) := by
  have visits :
      visited table catalogue node =
        visited table (rulesBeforeRegrouping ++ regroupingRules)
          (Transform.commutativeOrder?.result table node) :=
    rfl
  rw [visits]
  apply regroups.visited_stored lhsCombines rhsCombines ?_ (List.Subset.refl _)
  rcases stored with rfl | rfl
  · exact result_commutativeOrder (regroups.stores lhsCombines rhsCombines)
  · exact (result_commutativeOrder
      (regroups.stores rhsCombines lhsCombines)).symm

/-! ## Canonical chains -/

theorem isCanonical_of_isCanonicalChain
    (regroups : Regroups table op kind idempotent)
    (canonical : IsCanonicalChain op kind idempotent items expr) :
    IsCanonical op kind idempotent expr := by
  apply regroups.of_sameOperands canonical
  rw [canonical.isChain.flatten_eq]
  have same := sameOperands_canonicalOperands idempotent items
  cases idempotent with
  | false =>
      exact List.Perm.symm same
  | true =>
      exact fun item => (same item).symm

/-- Canonical chains of the same operands are the same. -/
theorem eq_of_sameOperands
    (regroups : Regroups table op kind idempotent)
    {expr' : Expr}
    (canonical : IsCanonical op kind idempotent expr)
    (canonical' : IsCanonical op kind idempotent expr')
    (same :
      SameOperands idempotent (Chain.flatten op expr)
        (Chain.flatten op expr')) :
    expr = expr' :=
  (regroups.of_sameOperands canonical same).isChain.unique canonical'.isChain

/-- The first operand of a canonical chain is single, and the others are a canonical chain. -/
theorem parts_of_isCanonical
    (regroups : Regroups table op kind idempotent)
    (canonical : IsCanonical op kind idempotent (.apply op [lhs, rhs])) :
    kind lhs ∧ IsCanonical op kind idempotent rhs := by
  have isNested := canonical.isChain.isNested
  simp only [Chain.isRightNested, if_true, Bool.and_eq_true, Bool.not_eq_true']
    at isNested
  obtain ⟨single, rhsNested⟩ := isNested
  have flat :
      Chain.flatten op (.apply op [lhs, rhs]) =
        lhs :: Chain.flatten op rhs := by
    rw [Chain.flatten_pair, Chain.flatten_of_not_isApplyOf single]
    rfl
  have rhsOperands :
      canonicalOperands idempotent (Chain.flatten op rhs) =
        Chain.flatten op rhs := by
    apply canonicalOperands_eq_self_of_sublist
      (regroups.plainlyNamed_of_mem_flatten canonical.combines)
      canonical.isChain.flatten_eq.symm
    rw [flat]
    exact List.sublist_cons_self _ _
  have isApplication : (Expr.apply op [lhs, rhs]).isApplyOf op = true :=
    decide_eq_true rfl
  cases canonical.combines with
  | operand isKind =>
      cases (regroups.single isKind).symm.trans isApplication
  | node lhsCombines rhsCombines =>
      refine ⟨?_, rhsCombines, rhsOperands.symm, rhsNested⟩
      cases lhsCombines with
      | operand isKind =>
          exact isKind
      | @node first second _ _ =>
          have lhsIsApplication :
              (Expr.apply op [first, second]).isApplyOf op = true :=
            decide_eq_true rfl
          cases single.symm.trans lhsIsApplication

/-! ## Passes over combinations -/

theorem canonicalChain_operand
    (regroups : Regroups table op kind idempotent)
    (isKind : kind expr) :
    IsCanonicalChain op kind idempotent [expr] expr := by
  have alone : canonicalOperands idempotent [expr] = [expr] := by
    cases idempotent <;> rfl
  refine ⟨.operand isKind, ?_⟩
  rw [alone]
  exact isChainOf_singleton (regroups.single isKind)

/-- The canonical chain of two canonical chains is that of all their operands. -/
theorem of_append
    (regroups : Regroups table op kind idempotent)
    {lhsItems rhsItems : List Expr}
    (lhsCanonical : IsCanonicalChain op kind idempotent lhsItems lhs)
    (rhsCanonical : IsCanonicalChain op kind idempotent rhsItems rhs)
    (canonical :
      IsCanonicalChain op kind idempotent
        (Chain.flatten op lhs ++ Chain.flatten op rhs) expr) :
    IsCanonicalChain op kind idempotent (lhsItems ++ rhsItems) expr := by
  apply regroups.of_sameOperands canonical
  rw [lhsCanonical.isChain.flatten_eq, rhsCanonical.isChain.flatten_eq]
  exact (sameOperands_canonicalOperands idempotent lhsItems).append
    (sameOperands_canonicalOperands idempotent rhsItems)

/--
A pass over a combination makes the canonical chain of all operands that it makes of the single ones.
-/
theorem exists_pass
    (regroups : Regroups table op kind idempotent)
    (each :
      ∀ item,
        kind item →
          ∃ next,
            pass table catalogue item = .ok next ∧
              IsCanonical op kind idempotent next)
    (combines : Combines op kind expr) :
    ∃ next,
      pass table catalogue expr = .ok next ∧
        IsCanonicalChain op kind idempotent
          ((Chain.flatten op expr).flatMap fun item =>
            Chain.flatten op (passed table item)) next := by
  induction combines with
  | operand isKind =>
      obtain ⟨next, passes, canonical⟩ := each _ isKind
      refine ⟨next, passes, ?_⟩
      rw [Chain.flatten_of_not_isApplyOf (regroups.single isKind),
        List.flatMap_singleton, passed_eq passes]
      exact canonical
  | @node lhs rhs lhsCombines rhsCombines lhsHypothesis rhsHypothesis =>
      obtain ⟨lhs', lhsPassed, lhsCanonical⟩ := lhsHypothesis
      obtain ⟨rhs', rhsPassed, rhsCanonical⟩ := rhsHypothesis
      obtain ⟨node, shape, passes⟩ :=
        exists_pass_pair regroups.isLeaf lhsPassed rhsPassed
          (regroups.stores lhsCanonical.combines rhsCanonical.combines)
      have stored :
          node = .apply op [lhs', rhs'] ∨ node = .apply op [rhs', lhs'] := by
        rcases shape with rfl | rfl
        · exact .inl rfl
        · exact (sortBy_pair_cases (operandCompare op) lhs' rhs').imp
            (congrArg _) (congrArg _)
      refine ⟨_, passes, ?_⟩
      rw [Chain.flatten_pair, List.flatMap_append]
      exact regroups.of_append lhsCanonical rhsCanonical
        (regroups.visited_pair lhsCanonical.combines rhsCanonical.combines
          stored)

/-- A pass over a combination of fixed points makes the canonical chain of its operands. -/
theorem exists_pass_of_fixed
    (regroups : Regroups table op kind idempotent)
    (fixed : ∀ item, kind item → pass table catalogue item = .ok item)
    (combines : Combines op kind expr) :
    ∃ next,
      pass table catalogue expr = .ok next ∧
        IsCanonicalChain op kind idempotent (Chain.flatten op expr) next := by
  have single
      (item : Expr)
      (isKind : kind item) :
      Chain.flatten op item = [item] :=
    Chain.flatten_of_not_isApplyOf (regroups.single isKind)
  obtain ⟨next, passes, canonical⟩ :=
    regroups.exists_pass
      (fun item isKind =>
        ⟨item, fixed item isKind,
          regroups.isCanonical_of_isCanonicalChain
            (regroups.canonicalChain_operand isKind)⟩)
      combines
  have operands :
      ((Chain.flatten op expr).flatMap fun item =>
          Chain.flatten op (passed table item)) =
        Chain.flatten op expr := by
    refine Eq.trans (List.flatMap_congr ?_) (List.flatMap_singleton' _)
    intro item member
    have isKind := combines.kind_of_mem_flatten regroups.single member
    rw [passed_eq (fixed item isKind), single item isKind]
  rw [operands] at canonical
  exact ⟨next, passes, canonical⟩

/-- A canonical chain of fixed points is a fixed point. -/
theorem pass_eq_self
    (regroups : Regroups table op kind idempotent)
    (fixed : ∀ item, kind item → pass table catalogue item = .ok item)
    (canonical : IsCanonicalChain op kind idempotent items expr) :
    pass table catalogue expr = .ok expr := by
  obtain ⟨next, passes, nextCanonical⟩ :=
    regroups.exists_pass_of_fixed fixed canonical.combines
  rw [canonical.isChain.flatten_eq] at nextCanonical
  have again :=
    regroups.of_sameOperands nextCanonical
      (sameOperands_canonicalOperands idempotent items)
  rw [passes, again.isChain.unique canonical.isChain]

/-- Applying the operator to canonical chains of fixed points makes the canonical chain of all operands. -/
theorem exists_apply
    {workspace : Workspace}
    (regroups : Regroups workspace.table op kind idempotent)
    (enough : 2 ≤ workspace.ceiling)
    (fixed :
      ∀ item, kind item → pass workspace.table catalogue item = .ok item)
    {lhsItems rhsItems : List Expr}
    (lhsCanonical : IsCanonicalChain op kind idempotent lhsItems lhs)
    (rhsCanonical : IsCanonicalChain op kind idempotent rhsItems rhs) :
    ∃ result,
      workspace.apply op [lhs, rhs] = .ok result ∧
        IsCanonicalChain op kind idempotent (lhsItems ++ rhsItems) result := by
  have stores := regroups.stores lhsCanonical.combines rhsCanonical.combines
  obtain ⟨combines, permuted⟩ :
      Combines op kind
          (.apply op (sortBy (operandCompare op) [lhs, rhs])) ∧
        (Chain.flatten op
          (.apply op (sortBy (operandCompare op) [lhs, rhs]))).Perm
          (Chain.flatten op lhs ++ Chain.flatten op rhs) := by
    rcases sortBy_pair_cases (operandCompare op) lhs rhs with same | swapped
    · rw [same, Chain.flatten_pair]
      exact ⟨.node lhsCanonical.combines rhsCanonical.combines, .refl _⟩
    · rw [swapped, Chain.flatten_pair]
      exact ⟨.node rhsCanonical.combines lhsCanonical.combines,
        List.perm_append_comm⟩
  obtain ⟨next, passes, canonical⟩ :=
    regroups.exists_pass_of_fixed fixed combines
  have nextFixed := regroups.pass_eq_self fixed canonical
  refine ⟨next, ?_, ?_⟩
  · rw [apply_eq_simplify stores rfl]
    exact simplify_of_pass enough passes nextFixed
  · exact regroups.of_append lhsCanonical rhsCanonical
      (regroups.of_sameOperands canonical (.of_perm permuted))

end Regroups

end SymbolicAlgebra
