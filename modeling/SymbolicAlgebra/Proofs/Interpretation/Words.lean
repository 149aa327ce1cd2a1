import SymbolicAlgebra.Number.Integral
import SymbolicAlgebra.Proofs.Interpretation.Basic

/-!
# Machine words as values

The 64-bit words, with their own operations for the standard operators, obey everything that these
operators declare.  Literals are taken modulo `2 ^ 64`.
-/

namespace SymbolicAlgebra

/-- What a standard operator does to words.  Division and comparison are unsigned. -/
def wordOperation : (name : String) → List (BitVec 64) → BitVec 64
  | "+", words => words.foldr (· + ·) 0#64
  | "*", words => words.foldr (· * ·) 1#64
  | "&", words => words.foldr (· &&& ·) (BitVec.allOnes 64)
  | "|", words => words.foldr (· ||| ·) 0#64
  | "^", words => words.foldr (· ^^^ ·) 0#64
  | "-", [lhs, rhs] => lhs - rhs
  | "/", [lhs, rhs] => lhs / rhs
  | "**", [lhs, rhs] => lhs ^ rhs.toNat
  | "<<", [lhs, rhs] => lhs <<< rhs
  | ">>", [lhs, rhs] => lhs.sshiftRight rhs.toNat
  | "<", [lhs, rhs] => if lhs < rhs then 1#64 else 0#64
  | ">", [lhs, rhs] => if rhs < lhs then 1#64 else 0#64
  | "<=", [lhs, rhs] => if lhs ≤ rhs then 1#64 else 0#64
  | ">=", [lhs, rhs] => if rhs ≤ lhs then 1#64 else 0#64
  | _, _ => 0#64

/-- Words as values, under values of the symbols. -/
def Interpretation.ofWords
    (symbols : String → BitVec 64) : Interpretation (BitVec 64) where
  leaf
    | .symbol name => symbols name
    | .wildcard identity => BitVec.ofNat 64 identity.id
    | .number value => BitVec.ofInt 64 ((integer? value).getD 0)
    | .boolean value => if value then 1#64 else 0#64
    | .apply .. => 0#64
  apply
    | .symbol name, words => wordOperation name words
    | _, _ => 0#64

/-- Folding with a commutative and associative operation obeys what an operator declares, if its
identity is neutral and its zero absorbing. -/
theorem Interpretation.Obeys.of_fold
    {Carrier : Type*}
    {interpretation : Interpretation Carrier}
    {head : Expr}
    {spec : OperatorSpec}
    {operation : Carrier → Carrier → Carrier}
    {unit : Carrier}
    (comm : ∀ first second, operation first second = operation second first)
    (assoc :
      ∀ first second third,
        operation (operation first second) third =
          operation first (operation second third))
    (unit_operation : ∀ value, operation unit value = value)
    (folds :
      ∀ values,
        interpretation.apply head values = values.foldr operation unit)
    (neutral :
      ∀ {identity},
        spec.effectiveLeftIdentity = some identity ∨
            spec.effectiveRightIdentity = some identity →
          interpretation.value identity = unit)
    (absorbs :
      ∀ {zero},
        spec.zero = some zero → ∀ value,
          operation (interpretation.value zero) value =
            interpretation.value zero) :
    interpretation.Obeys head spec where
  commutative _ {values values'} permuted := by
    rw [folds, folds]
    refine permuted.foldr_eq' ?_ unit
    intro first _ second _ rest
    rw [← assoc, ← assoc, comm second]
  associative _ := by
    refine ⟨operation, assoc, fun values last => ?_⟩
    rw [folds, List.foldr_append, List.foldr_cons, List.foldr_nil, comm last,
      unit_operation]
  leftIdentity declared value := by
    rw [neutral (.inl declared), folds, List.foldr_cons, List.foldr_cons,
      List.foldr_nil, unit_operation, comm, unit_operation]
  rightIdentity declared value := by
    rw [neutral (.inr declared), folds, List.foldr_cons, List.foldr_cons,
      List.foldr_nil, unit_operation, comm, unit_operation]
  zero {zero} declared {values} member := by
    rw [folds]
    induction values with
    | nil =>
        cases member
    | cons value rest inductionHypothesis =>
        rcases List.mem_cons.mp member with same | inRest
        · rw [List.foldr_cons, ← same, absorbs declared]
        · rw [List.foldr_cons, inductionHypothesis inRest, comm,
            absorbs declared]

/-- An operator without commutativity, associativity and zero needs only its right identity. -/
theorem Interpretation.Obeys.of_rightIdentity
    {Carrier : Type*}
    {interpretation : Interpretation Carrier}
    {head : Expr}
    {spec : OperatorSpec}
    (plain :
      spec.commutative = false ∧ spec.associative = false ∧
        spec.effectiveLeftIdentity = none ∧ spec.zero = none)
    (neutral :
      ∀ {identity},
        spec.effectiveRightIdentity = some identity → ∀ value,
          interpretation.apply head [value, interpretation.value identity] =
            value) :
    interpretation.Obeys head spec where
  commutative commutative := by
    cases plain.1.symm.trans commutative
  associative associative := by
    cases plain.2.1.symm.trans associative
  leftIdentity declared := by
    cases plain.2.2.1.symm.trans declared
  rightIdentity := neutral
  zero declared := by
    cases plain.2.2.2.symm.trans declared

/-- Only the standard operators have properties in the table that records no others. -/
theorem SymbolTable.specOf?_empty
    {head : Expr}
    {spec : OperatorSpec}
    (found : ({} : SymbolTable).specOf? head = some spec) :
    ∃ name, head = .symbol name ∧ standardSpec? name = some spec := by
  cases head with
  | symbol name =>
      refine ⟨name, rfl, ?_⟩
      simp only [specOf?, spec?, lookup?] at found
      cases standard : standardSpec? name with
      | none =>
          rw [standard] at found
          cases found
      | some recorded =>
          rw [standard] at found
          exact found
  | _ =>
      cases found

/-- The words obey the properties of the standard operators. -/
theorem Interpretation.ofWords_models
    (symbols : String → BitVec 64) :
    (Interpretation.ofWords symbols).Models {} := by
  have zeroWord : (Interpretation.ofWords symbols).value (.number 0) = 0#64 := by
    change BitVec.ofInt 64 ((integer? 0).getD 0) = 0#64
    decide +kernel
  have oneWord : (Interpretation.ofWords symbols).value (.number 1) = 1#64 := by
    change BitVec.ofInt 64 ((integer? 1).getD 0) = 1#64
    decide +kernel
  intro head spec found
  obtain ⟨name, rfl, standard⟩ := SymbolTable.specOf?_empty found
  unfold standardSpec? at standard
  split at standard <;> cases standard
  case h_1 =>
    refine .of_fold BitVec.add_comm BitVec.add_assoc BitVec.zero_add
      (fun _ => rfl) ?_ nofun
    rintro _ (declared | declared) <;> cases declared <;> exact zeroWord
  case h_3 =>
    refine .of_fold BitVec.mul_comm BitVec.mul_assoc BitVec.one_mul
      (fun _ => rfl) ?_ ?_
    · rintro _ (declared | declared) <;> cases declared <;> exact oneWord
    · intro zero declared value
      cases declared
      rw [zeroWord, BitVec.zero_mul]
  case h_6 =>
    refine .of_fold BitVec.and_comm BitVec.and_assoc
      (fun _ => BitVec.allOnes_and) (fun _ => rfl) ?_ ?_
    · rintro _ (declared | declared) <;> cases declared
    · intro zero declared value
      cases declared
      rw [zeroWord, BitVec.zero_and]
  case h_7 =>
    refine .of_fold BitVec.or_comm BitVec.or_assoc (fun _ => BitVec.zero_or)
      (fun _ => rfl) ?_ nofun
    rintro _ (declared | declared) <;> cases declared <;> exact zeroWord
  case h_8 =>
    refine .of_fold BitVec.xor_comm BitVec.xor_assoc (fun _ => BitVec.zero_xor)
      (fun _ => rfl) ?_ nofun
    rintro _ (declared | declared) <;> cases declared <;> exact zeroWord
  all_goals
    refine .of_rightIdentity ⟨rfl, rfl, rfl, rfl⟩ fun declared value => ?_
    cases declared
  case h_2 =>
    rw [zeroWord]
    exact BitVec.sub_zero value
  case h_4 =>
    rw [oneWord]
    exact BitVec.udiv_one
  case h_5 =>
    rw [oneWord]
    exact BitVec.pow_one
  case h_9 =>
    rw [zeroWord]
    exact BitVec.shiftLeft_zero value
  case h_10 =>
    rw [zeroWord]
    exact BitVec.sshiftRight_zero

end SymbolicAlgebra
