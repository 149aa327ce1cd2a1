import Mathlib.Data.List.Forall2
import SymbolicAlgebra.Proofs.Traversal
import SymbolicAlgebra.Simplification

/-!
# What simplification keeps

A relation between an expression and what becomes of it is kept by a whole simplification if it is
reflexive and transitive, survives building an application anew from related parts, and holds between
a node and what any rule makes of it.
-/

namespace SymbolicAlgebra

theorem ok_bind
    {ε α β : Type}
    (value : α)
    (next : α → Except ε β) :
    (Except.ok value >>= next) = next value :=
  rfl

/-- Two steps succeed only if the first one does, and the second one with its result. -/
theorem exists_of_bind_eq_ok
    {ε α β : Type}
    {first : Except ε α}
    {next : α → Except ε β}
    {result : β}
    (succeeds : first >>= next = .ok result) :
    ∃ value, first = .ok value ∧ next value = .ok result := by
  cases first with
  | error error =>
      cases succeeds
  | ok value =>
      exact ⟨value, rfl, succeeds⟩

/-- Two steps fail only if the first one does, or else the second one with its result. -/
theorem of_bind_eq_error
    {ε α β : Type}
    {first : Except ε α}
    {next : α → Except ε β}
    {error : ε}
    (fails : first >>= next = .error error) :
    first = .error error ∨ ∃ value, first = .ok value ∧ next value = .error error := by
  cases first with
  | error other =>
      cases fails
      exact .inl rfl
  | ok value =>
      exact .inr ⟨value, rfl, fails⟩

theorem eq_ok_of_toOption
    {ε α : Type}
    {outcome : Except ε α}
    {value : α}
    (succeeds : outcome.toOption = some value) :
    outcome = .ok value := by
  cases outcome with
  | error error =>
      cases succeeds
  | ok other =>
      cases succeeds
      rfl

/-- The relation survives building an application anew from related parts. -/
structure Builder.Respects
    (build : Builder)
    (related : Expr → Expr → Prop) : Prop where
  refl :
    ∀ expr, related expr expr
  trans :
    ∀ {first second third},
      related first second → related second third → related first third
  built :
    ∀ {head head' args args' result},
      related head head' → List.Forall₂ related args args' →
        build head' args' = .ok result → related (.apply head args) result

/-- The rule replaces no node by an unrelated one. -/
def Rule.Respects
    (rule : Rule)
    (table : SymbolTable)
    (related : Expr → Expr → Prop) : Prop :=
  ∀ {node replacement},
    rule.transform? table table.construct node = some replacement →
      related node replacement

section Walk

variable {build : Builder} {related : Expr → Expr → Prop}

/-- A walk through arguments relates each of them to what it makes of it, if walks over them do so. -/
theorem forall₂_of_walkArgs
    {visit : Expr → Except ExprError (Option Expr)}
    {args : List Expr}
    {args' : Option (List Expr)}
    (each :
      ∀ arg ∈ args, ∀ arg',
        arg.walk build visit = .ok arg' → related arg (arg'.getD arg))
    (walked : Expr.walkArgs build visit args = .ok args') :
    List.Forall₂ related args (args'.getD args) := by
  induction args generalizing args' with
  | nil =>
      cases walked
      exact .nil
  | cons arg rest inductionHypothesis =>
      obtain ⟨first, later⟩ := List.forall_mem_cons.mp each
      obtain ⟨arg', argWalked, walked⟩ := exists_of_bind_eq_ok walked
      obtain ⟨rest', restWalked, walked⟩ := exists_of_bind_eq_ok walked
      cases walked
      rw [Expr.getD_replacedArgs]
      exact .cons (first arg' argWalked) (inductionHypothesis later restWalked)

/-- An application is kept if none of its parts was replaced, and built anew otherwise. -/
theorem rebuild_eq_ok
    {head : Expr}
    {args : List Expr}
    {head' : Option Expr}
    {args' : Option (List Expr)}
    {rebuilt : Option Expr}
    (outcome : Expr.rebuild build head args head' args' = .ok rebuilt) :
    (head' = none ∧ args' = none ∧ rebuilt = none) ∨
      ∃ result,
        build (head'.getD head) (args'.getD args) = .ok result ∧
          rebuilt = some result := by
  unfold Expr.rebuild at outcome
  split at outcome
  · rename_i untouched
    rw [Bool.and_eq_true, Option.isNone_iff_eq_none,
      Option.isNone_iff_eq_none] at untouched
    cases outcome
    exact .inl ⟨untouched.1, untouched.2, rfl⟩
  · obtain ⟨result, constructed, same⟩ := exists_of_bind_eq_ok outcome
    exact .inr ⟨result, constructed, (Except.ok.inj same).symm⟩

theorem getD_orElse
    {α : Type}
    (first second : Option α)
    (default : α) :
    (first <|> second).getD default = first.getD (second.getD default) := by
  cases first <;> rfl

/-- A walk over an application walks its parts, puts together what they become and visits that. -/
theorem exists_of_walk_apply
    {visit : Expr → Except ExprError (Option Expr)}
    {head : Expr}
    {args : List Expr}
    {replaced : Option Expr}
    (walked : (Expr.apply head args).walk build visit = .ok replaced) :
    ∃ head' args' rebuilt replacement,
      head.walk build visit = .ok head' ∧
        Expr.walkArgs build visit args = .ok args' ∧
          Expr.rebuild build head args head' args' = .ok rebuilt ∧
            visit (rebuilt.getD (.apply head args)) = .ok replacement ∧
              replaced.getD (.apply head args) =
                replacement.getD (rebuilt.getD (.apply head args)) := by
  obtain ⟨head', headWalked, walked⟩ := exists_of_bind_eq_ok walked
  obtain ⟨args', argsWalked, walked⟩ := exists_of_bind_eq_ok walked
  obtain ⟨rebuilt, rebuiltOutcome, walked⟩ := exists_of_bind_eq_ok walked
  obtain ⟨replacement, visited, walked⟩ := exists_of_bind_eq_ok walked
  cases walked
  exact ⟨head', args', rebuilt, replacement, headWalked, argsWalked, rebuiltOutcome,
    visited, getD_orElse ..⟩

theorem related_rebuild
    (respects : build.Respects related)
    {head : Expr}
    {args : List Expr}
    {head' : Option Expr}
    {args' : Option (List Expr)}
    {rebuilt : Option Expr}
    (headRelated : related head (head'.getD head))
    (argsRelated : List.Forall₂ related args (args'.getD args))
    (outcome : Expr.rebuild build head args head' args' = .ok rebuilt) :
    related (.apply head args) (rebuilt.getD (.apply head args)) := by
  rcases rebuild_eq_ok outcome with ⟨-, -, rfl⟩ | ⟨result, constructed, rfl⟩
  · exact respects.refl (.apply head args)
  · exact respects.built headRelated argsRelated constructed

/-- A walk relates an expression to what it makes of it, if each visit does so. -/
theorem related_walk
    {visit : Expr → Except ExprError (Option Expr)}
    (respects : build.Respects related)
    (visited :
      ∀ {node replacement},
        visit node = .ok (some replacement) → related node replacement)
    {expr : Expr}
    {replaced : Option Expr}
    (walked : expr.walk build visit = .ok replaced) :
    related expr (replaced.getD expr) := by
  have visitedGetD
      {node : Expr}
      {replacement : Option Expr}
      (outcome : visit node = .ok replacement) :
      related node (replacement.getD node) := by
    cases replacement with
    | none =>
        exact respects.refl node
    | some after =>
        exact visited outcome
  induction expr generalizing replaced with
  | apply head args headHypothesis argsHypothesis =>
      obtain ⟨head', args', rebuilt, replacement, headWalked, argsWalked,
        rebuiltOutcome, nodeVisited, same⟩ := exists_of_walk_apply walked
      rw [same]
      have partsRelated :=
        related_rebuild respects (headHypothesis headWalked)
          (forall₂_of_walkArgs
            (fun arg member _ => argsHypothesis arg member) argsWalked)
          rebuiltOutcome
      exact respects.trans partsRelated (visitedGetD nodeVisited)
  | _ =>
      exact visitedGetD walked

theorem Expr.walkArgs_pair
    {visit : Expr → Except ExprError (Option Expr)}
    {lhs rhs : Expr}
    {lhs' rhs' : Option Expr}
    (lhsWalked : lhs.walk build visit = .ok lhs')
    (rhsWalked : rhs.walk build visit = .ok rhs') :
    walkArgs build visit [lhs, rhs] =
      .ok (if lhs'.isNone && rhs'.isNone then
          none
        else
          some [lhs'.getD lhs, rhs'.getD rhs]) := by
  simp only [walkArgs, lhsWalked, rhsWalked, ok_bind, pure_bind]
  cases lhs' <;> cases rhs' <;> rfl

/-- An application of which an argument is replaced is built anew. -/
theorem Expr.walk_pair
    {visit : Expr → Except ExprError (Option Expr)}
    {head lhs rhs result : Expr}
    {lhs' rhs' : Option Expr}
    (headWalked : head.walk build visit = .ok none)
    (lhsWalked : lhs.walk build visit = .ok lhs')
    (rhsWalked : rhs.walk build visit = .ok rhs')
    (replaced : (lhs'.isNone && rhs'.isNone) = false)
    (built : build head [lhs'.getD lhs, rhs'.getD rhs] = .ok result)
    (untouched : visit result = .ok none) :
    (apply head [lhs, rhs]).walk build visit = .ok (some result) := by
  have rebuilt :
      rebuild build head [lhs, rhs] none
          (some [lhs'.getD lhs, rhs'.getD rhs]) =
        .ok (some result) := by
    unfold rebuild
    rw [Option.getD_none, Option.getD_some, built]
    rfl
  simp only [walk, headWalked, walkArgs_pair lhsWalked rhsWalked, replaced,
    Bool.false_eq_true, if_false, rebuilt, ok_bind, Option.getD_some, untouched]
  rfl

end Walk

/-- Repeating a pass relates an expression to the fixed point, if each pass does so. -/
theorem related_settle?
    {build : Builder}
    {related : Expr → Expr → Prop}
    {pass : Expr → Except ExprError Expr}
    (respects : build.Respects related)
    (passed :
      ∀ {expr next}, pass expr = .ok next → related expr next)
    {expr : Expr}
    {done ceiling : Nat}
    {settled : Expr × Nat}
    (outcome : Expr.settle? pass done expr ceiling = .ok (some settled)) :
    related expr settled.1 := by
  induction ceiling generalizing expr done with
  | zero =>
      cases outcome
  | succ ceiling inductionHypothesis =>
      obtain ⟨next, nextOutcome, outcome⟩ := exists_of_bind_eq_ok outcome
      have nextRelated := passed nextOutcome
      split at outcome
      · cases outcome
        exact nextRelated
      · exact respects.trans nextRelated (inductionHypothesis outcome)

/-- Rules run one after the other relate a node to the last replacement, if each rule does so. -/
theorem related_transformAll?
    {build : Builder}
    {related : Expr → Expr → Prop}
    (respects : build.Respects related)
    {transforms : List (Expr → Option Expr)}
    (each :
      ∀ transform? ∈ transforms, ∀ {node replacement},
        transform? node = some replacement → related node replacement)
    {node replacement : Expr}
    (outcome : transformAll? transforms node = some replacement) :
    related node replacement := by
  induction transforms generalizing node replacement with
  | nil =>
      cases outcome
  | cons transform? rest inductionHypothesis =>
      obtain ⟨first, later⟩ := List.forall_mem_cons.mp each
      rw [transformAll?] at outcome
      cases transformed : transform? node with
      | none =>
          rw [transformed] at outcome
          exact inductionHypothesis later outcome
      | some after =>
          rw [transformed] at outcome
          cases outcome
          have firstRelated := first transformed
          cases laterOutcome : transformAll? rest after with
          | none =>
              exact firstRelated
          | some last =>
              exact respects.trans firstRelated
                (inductionHypothesis later laterOutcome)

/-- Every rule of the catalogue leaves leaves alone. -/
theorem transform?_of_isLeaf
    {rule : Rule}
    (member : rule ∈ catalogue)
    (table : SymbolTable)
    (builder : Builder)
    {node : Expr}
    (isLeaf : node.isLeaf = true) :
    rule.transform? table builder node = none := by
  simp only [catalogue, List.mem_cons, List.not_mem_nil, or_false] at member
  rcases member with rfl | rfl | rfl | rfl | rfl | rfl | rfl | rfl | rfl | rfl |
      rfl | rfl <;>
    cases node with
    | apply head args =>
        cases isLeaf
    | _ =>
        rfl

section Outcome

variable {workspace : Workspace} {expr result : Expr}

/-- Simplification with rules returns what their passes end with. -/
theorem settle?_of_fixedPoint
    {table : SymbolTable}
    {rules : List Rule}
    {ceiling : Nat}
    {settled : Expr × Nat}
    (outcome : fixedPoint table rules ceiling expr = .ok settled) :
    Expr.settle? (pass table rules) 0 expr ceiling = .ok (some settled) := by
  obtain ⟨ends, settles, outcome⟩ := exists_of_bind_eq_ok outcome
  cases ends with
  | none =>
      cases outcome
  | some ends =>
      cases outcome
      exact settles

theorem exists_fixedPoint_of_simplify
    (simplified : workspace.simplify expr = .ok result) :
    ∃ passes,
      fixedPoint workspace.table catalogue workspace.ceiling expr =
        .ok (result, passes) := by
  unfold Workspace.simplify at simplified
  cases fixed : fixedPoint workspace.table catalogue workspace.ceiling expr with
  | error failure =>
      rw [fixed] at simplified
      cases simplified
  | ok settled =>
      rw [fixed] at simplified
      cases simplified
      exact ⟨settled.2, rfl⟩

/-- Applying a head keeps a raw term that is a leaf and simplifies any other one. -/
theorem exists_raw_of_apply
    {head : Expr}
    {args : List Expr}
    (outcome : workspace.apply head args = .ok result) :
    ∃ raw,
      workspace.table.construct head args = .ok raw ∧
        (raw.isLeaf = true ∧ result = raw ∨
          workspace.simplify raw = .ok result) := by
  obtain ⟨raw, constructed, outcome⟩ := exists_of_bind_eq_ok outcome
  refine ⟨raw, constructed, ?_⟩
  split at outcome
  · rename_i isLeaf
    exact .inl ⟨isLeaf, (Except.ok.inj outcome).symm⟩
  · exact .inr outcome

end Outcome

section Catalogue

variable {related : Expr → Expr → Prop}

/-- A pass of rules relates an expression to what it makes of it, if the rules do so. -/
theorem related_pass
    {table : SymbolTable}
    {rules : List Rule}
    (respects : Builder.Respects table.construct related)
    (each : ∀ rule ∈ rules, rule.Respects table related)
    {expr next : Expr}
    (outcome : pass table rules expr = .ok next) :
    related expr next := by
  obtain ⟨replaced, walked, outcome⟩ := exists_of_bind_eq_ok outcome
  cases outcome
  refine related_walk respects ?_ walked
  intro node replacement visited
  refine related_transformAll? respects ?_ (Except.ok.inj visited)
  intro transform? member
  obtain ⟨rule, ruleMember, rfl⟩ := List.mem_map.mp member
  exact each rule ruleMember

/-- Simplification with rules relates an expression to its fixed point, if the rules do so. -/
theorem related_fixedPoint
    {table : SymbolTable}
    {rules : List Rule}
    (respects : Builder.Respects table.construct related)
    (each : ∀ rule ∈ rules, rule.Respects table related)
    {ceiling passes : Nat}
    {expr result : Expr}
    (outcome :
      fixedPoint table rules ceiling expr = .ok (result, passes)) :
    related expr result :=
  related_settle? respects (related_pass respects each) (settle?_of_fixedPoint outcome)

/-- A term in simplified form is related to the raw term it was made from. -/
theorem exists_construct_of_apply
    {workspace : Workspace}
    (respects : Builder.Respects workspace.table.construct related)
    (each : ∀ rule ∈ catalogue, rule.Respects workspace.table related)
    {head result : Expr}
    {args : List Expr}
    (outcome : workspace.apply head args = .ok result) :
    ∃ raw,
      workspace.table.construct head args = .ok raw ∧ related raw result := by
  obtain ⟨raw, constructed, ⟨-, rfl⟩ | simplified⟩ := exists_raw_of_apply outcome
  · exact ⟨result, constructed, respects.refl result⟩
  · obtain ⟨passes, fixed⟩ := exists_fixedPoint_of_simplify simplified
    exact ⟨raw, constructed, related_fixedPoint respects each fixed⟩

end Catalogue

end SymbolicAlgebra
