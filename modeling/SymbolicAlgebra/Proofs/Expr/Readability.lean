import SymbolicAlgebra.Proofs.Expr.Order
import SymbolicAlgebra.Proofs.Number.Text

/-!
# Reading printed expressions

The canonical text of an expression can be read in one way only, provided that no wildcard occurs, that the
names of symbols are words which are no literals, and that literal numbers with the same text are the same.
An expression is a word or an infix application, to which lists of arguments are applied one after the
other.  A word ends at the first separator, an infix application starts with a parenthesis, and each list
of arguments starts with another one, so that where a part ends is seen from what follows.
-/

namespace SymbolicAlgebra

open SymbolicAlgebra.Expr

/-! ## Words -/

/-- The characters that end a word. -/
def separators : List Char :=
  [' ', ',', '(', ')']

/-- The text is empty or starts with a separator. -/
def Separated
    (text : List Char) : Prop :=
  ∀ char ∈ text.head?, char ∈ separators

/-- The text is empty or starts with a separator behind which no arguments follow. -/
def Ends
    (text : List Char) : Prop :=
  ∀ char ∈ text.head?, char ∈ [' ', ',', ')']

/-- A text that is not empty and has no separators. -/
structure IsWord
    (text : List Char) : Prop where
  nonempty :
    text ≠ []
  unseparated :
    ∀ char ∈ text, char ∉ separators

theorem isWord_of_all
    {text : List Char}
    (nonempty : text ≠ [])
    (unseparated : text.all (!separators.contains ·) = true) :
    IsWord text where
  nonempty :=
    nonempty
  unseparated char member isSeparator := by
    have plain := List.all_eq_true.mp unseparated char member
    rw [List.contains_iff_mem.mpr isSeparator] at plain
    cases plain

theorem Ends.separated
    {text : List Char}
    (ends : Ends text) :
    Separated text := by
  intro char isFirst
  have among := ends char isFirst
  simp only [List.mem_cons, List.not_mem_nil, or_false] at among
  rcases among with rfl | rfl | rfl <;> decide

theorem separated_cons
    {char : Char}
    (isSeparator : char ∈ separators)
    (text : List Char) :
    Separated (char :: text) := by
  intro other isFirst
  cases isFirst
  exact isSeparator

theorem ends_cons
    {char : Char}
    (isEnd : char ∈ [' ', ',', ')'])
    (text : List Char) :
    Ends (char :: text) := by
  intro other isFirst
  cases isFirst
  exact isEnd

/-- Where texts without separators end is seen from what follows. -/
theorem eq_of_append_eq
    {first second rest rest' : List Char}
    (firstPlain : ∀ char ∈ first, char ∉ separators)
    (secondPlain : ∀ char ∈ second, char ∉ separators)
    (separated : Separated rest)
    (separated' : Separated rest')
    (same : first ++ rest = second ++ rest') :
    first = second ∧ rest = rest' := by
  induction first generalizing second with
  | nil =>
      cases second with
      | nil =>
          exact ⟨rfl, same⟩
      | cons char more =>
          have starts : rest = char :: (more ++ rest') := same
          have isSeparator : char ∈ separators :=
            separated char (by rw [starts]; rfl)
          exact (secondPlain char List.mem_cons_self isSeparator).elim
  | cons char more inductionHypothesis =>
      obtain ⟨charPlain, morePlain⟩ := List.forall_mem_cons.mp firstPlain
      cases second with
      | nil =>
          have starts : rest' = char :: (more ++ rest) := same.symm
          have isSeparator : char ∈ separators :=
            separated' char (by rw [starts]; rfl)
          exact (charPlain isSeparator).elim
      | cons char' more' =>
          obtain ⟨-, morePlain'⟩ := List.forall_mem_cons.mp secondPlain
          obtain ⟨rfl, sameRest⟩ := List.cons.inj same
          obtain ⟨rfl, rests⟩ :=
            inductionHypothesis morePlain morePlain' sameRest
          exact ⟨rfl, rests⟩

/-! ## Leaves -/

/-- A name that is a word and the text of no literal. -/
structure IsReadableName
    (name : String) : Prop where
  isWord :
    IsWord name.toList
  notNumber :
    ∀ value, NumberFormat.chars {} value ≠ name.toList
  notBoolean :
    name ≠ "True" ∧ name ≠ "False"

/-- A word with a character that no literal number has is readable, unless it is a truth value. -/
theorem isReadableName_of_char
    {name : String}
    (isWord : IsWord name.toList)
    (notNumeral : name.toList.all isNumeral = false)
    (notBoolean : name ≠ "True" ∧ name ≠ "False") :
    IsReadableName name where
  isWord :=
    isWord
  notNumber value same := by
    rw [← same, List.all_eq_true.mpr (isNumerals_chars value).all] at notNumeral
    cases notNumeral
  notBoolean :=
    notBoolean

theorem isWord_of_isNumerals
    {text : List Char}
    (numerals : IsNumerals text) :
    IsWord text where
  nonempty :=
    numerals.nonempty
  unseparated char member isSeparator := by
    have isNumeral := numerals.all char member
    simp only [separators, List.mem_cons, List.not_mem_nil, or_false] at isSeparator
    rcases isSeparator with rfl | rfl | rfl | rfl <;> exact absurd isNumeral (by decide)

/-- No literal number is written like a truth value. -/
theorem numberChars_ne_boolean
    (value : Float)
    (truth : Bool) :
    NumberFormat.chars {} value ≠ (boolean truth).canonicalChars := by
  intro same
  have numerals := (isNumerals_chars value).all
  rw [same] at numerals
  cases truth with
  | true =>
      exact absurd (numerals 'T' (by decide)) (by decide)
  | false =>
      exact absurd (numerals 'F' (by decide)) (by decide)

/-- An expression without wildcards of which all symbols have readable names. -/
structure Expr.IsReadable
    (expr : Expr) : Prop where
  wildcardFree :
    expr.hasWildcards = false
  names :
    ∀ name, expr.contains (.symbol name) = true → IsReadableName name

/-- A readable expression of which all literal numbers are of the given kind. -/
structure Expr.ReadsAs
    (kind : Float → Prop)
    (expr : Expr) : Prop extends expr.IsReadable where
  numbers :
    ∀ value, expr.contains (.number value) = true → kind value

/-- Literal numbers of two kinds are the same if their texts are. -/
def ToldApart
    (firstKind secondKind : Float → Prop) : Prop :=
  ∀ {value value'},
    firstKind value → secondKind value' →
      NumberFormat.chars {} value = NumberFormat.chars {} value' → value = value'

theorem argsHaveWildcards_eq_false
    {args : List Expr} :
    argsHaveWildcards args = false ↔ ∀ arg ∈ args, arg.hasWildcards = false := by
  induction args with
  | nil =>
      simp [argsHaveWildcards]
  | cons arg rest inductionHypothesis =>
      simp [argsHaveWildcards, inductionHypothesis]

theorem closedUnderParts_readsAs
    (kind : Float → Prop) :
    ClosedUnderParts (ReadsAs kind) where
  head := by
    intro head args reads
    have wildcardFree := reads.wildcardFree
    rw [hasWildcards, Bool.or_eq_false_iff] at wildcardFree
    exact
      { wildcardFree := wildcardFree.1
        names := fun name isPart =>
          reads.names name (contains_apply.mpr (.inr (.inl isPart)))
        numbers := fun value isPart =>
          reads.numbers value (contains_apply.mpr (.inr (.inl isPart))) }
  arg := by
    intro head args arg reads isArg
    have wildcardFree := reads.wildcardFree
    rw [hasWildcards, Bool.or_eq_false_iff, argsHaveWildcards_eq_false]
      at wildcardFree
    exact
      { wildcardFree := wildcardFree.2 arg isArg
        names := fun name isPart =>
          reads.names name (contains_apply.mpr (.inr (.inr ⟨arg, isArg, isPart⟩)))
        numbers := fun value isPart =>
          reads.numbers value
            (contains_apply.mpr (.inr (.inr ⟨arg, isArg, isPart⟩))) }

section Leaves

variable {kind firstKind secondKind : Float → Prop} {first second expr : Expr}

/-- A readable leaf is printed as a word. -/
theorem isWord_of_isLeaf
    (isLeaf : expr.isLeaf = true)
    (reads : expr.ReadsAs kind) :
    IsWord expr.canonicalChars := by
  cases expr with
  | symbol name =>
      have isWord := (reads.names name (by simp [contains])).isWord
      simpa [canonicalChars, chars, charsBefore] using isWord
  | wildcard identity =>
      cases reads.wildcardFree
  | number value =>
      have isWord := isWord_of_isNumerals (isNumerals_chars value)
      simpa [canonicalChars, chars, charsBefore] using isWord
  | boolean truth =>
      cases truth <;> exact isWord_of_all (by decide) (by decide)
  | apply head args =>
      cases isLeaf

theorem canonicalChars_symbol
    (name : String) :
    (symbol name).canonicalChars = name.toList := by
  simp [canonicalChars, chars, charsBefore]

theorem canonicalChars_number
    (value : Float) :
    (number value).canonicalChars = NumberFormat.chars {} value := by
  simp [canonicalChars, chars, charsBefore]

/-- A symbol with a readable name is printed like no literal. -/
theorem IsReadableName.ne_literal
    {name : String}
    (readable : IsReadableName name)
    (isLeaf : expr.isLeaf = true)
    (notSymbol : expr.symbol? = none)
    (wildcardFree : expr.hasWildcards = false) :
    (symbol name).canonicalChars ≠ expr.canonicalChars := by
  rw [canonicalChars_symbol]
  intro same
  cases expr with
  | symbol other =>
      cases notSymbol
  | wildcard identity =>
      cases wildcardFree
  | number value =>
      rw [canonicalChars_number] at same
      exact readable.notNumber value same.symm
  | boolean truth =>
      cases truth with
      | true =>
          exact readable.notBoolean.1 (String.toList_inj.mp same)
      | false =>
          exact readable.notBoolean.2 (String.toList_inj.mp same)
  | apply head args =>
      cases isLeaf

/-- Readable leaves with the same text are the same. -/
theorem eq_of_leaves
    (determined : ToldApart firstKind secondKind)
    (firstLeaf : first.isLeaf = true)
    (secondLeaf : second.isLeaf = true)
    (firstReads : first.ReadsAs firstKind)
    (secondReads : second.ReadsAs secondKind)
    (same : first.canonicalChars = second.canonicalChars) :
    first = second := by
  cases first with
  | symbol name =>
      have readable := firstReads.names name (by simp [contains])
      cases second with
      | symbol name' =>
          rw [canonicalChars_symbol, canonicalChars_symbol] at same
          rw [String.toList_inj.mp same]
      | _ =>
          exact (readable.ne_literal secondLeaf rfl secondReads.wildcardFree
            same).elim
  | wildcard identity =>
      cases firstReads.wildcardFree
  | number value =>
      cases second with
      | symbol name =>
          have readable := secondReads.names name (by simp [contains])
          exact (readable.ne_literal firstLeaf rfl firstReads.wildcardFree
            same.symm).elim
      | wildcard identity =>
          cases secondReads.wildcardFree
      | number value' =>
          rw [canonicalChars_number, canonicalChars_number] at same
          rw [determined (firstReads.numbers value (by simp [contains]))
            (secondReads.numbers value' (by simp [contains])) same]
      | boolean truth =>
          rw [canonicalChars_number] at same
          exact (numberChars_ne_boolean value truth same).elim
      | apply head args =>
          cases secondLeaf
  | boolean truth =>
      cases second with
      | symbol name =>
          have readable := secondReads.names name (by simp [contains])
          exact (readable.ne_literal firstLeaf rfl firstReads.wildcardFree
            same.symm).elim
      | wildcard identity =>
          cases secondReads.wildcardFree
      | number value' =>
          rw [canonicalChars_number] at same
          exact (numberChars_ne_boolean value' truth same.symm).elim
      | boolean truth' =>
          cases truth <;> cases truth' <;>
            first
            | rfl
            | exact absurd same (by decide)
      | apply head args =>
          cases secondLeaf
  | apply head args =>
      cases firstLeaf

end Leaves

/-! ## Calls -/

/-- An application that is printed with its symbol between the operands. -/
def Expr.isInfix : Expr → Bool
  | apply (symbol name) [_, _] => isInfixName name
  | _ => false

/-- The application of an expression to one list of arguments after the other. -/
def Expr.applyAll
    (base : Expr) : (calls : List (List Expr)) → Expr
  | [] => base
  | args :: calls => (apply base args).applyAll calls

/-- The characters of lists of arguments, followed by `rest`. -/
def callsBefore : (calls : List (List Expr)) → (rest : List Char) → List Char
  | [], rest => rest
  | args :: calls, rest =>
      '(' :: argCharsBefore {} args (')' :: callsBefore calls rest)

theorem exists_of_isInfix
    {expr : Expr}
    (infixed : expr.isInfix = true) :
    ∃ name lhs rhs,
      expr = .apply (.symbol name) [lhs, rhs] ∧ isInfixName name = true := by
  unfold isInfix at infixed
  split at infixed
  · exact ⟨_, _, _, rfl, infixed⟩
  · cases infixed

theorem charsBefore_of_isInfixName
    {name : String}
    {lhs rhs : Expr}
    (infixed : isInfixName name = true)
    (rest : List Char) :
    (apply (symbol name) [lhs, rhs]).charsBefore {} rest =
      '(' :: lhs.charsBefore {}
        (' ' :: (name.toList ++ ' ' :: rhs.charsBefore {} (')' :: rest))) := by
  rw [charsBefore, if_pos infixed]

/-- Every other application is printed as a call of its head. -/
theorem charsBefore_call
    {head : Expr}
    {args : List Expr}
    (called : (apply head args).isInfix = false)
    (rest : List Char) :
    (apply head args).charsBefore {} rest =
      head.charsBefore {} (callsBefore [args] rest) := by
  rw [charsBefore.eq_def]
  dsimp only
  split
  · rename_i name lhs rhs
    rw [if_neg (by simpa [isInfix] using called)]
    simp [charsBefore, callsBefore, argCharsBefore]
  · rfl

/-- A called expression is a leaf or an infix application, called with further lists of arguments. -/
theorem exists_calls
    (expr : Expr)
    (later : List (List Expr)) :
    ∃ (base : Expr) (calls : List (List Expr)),
      (base.isLeaf = true ∨ base.isInfix = true) ∧
        expr.applyAll later = base.applyAll calls ∧
          ∀ rest,
            expr.charsBefore {} (callsBefore later rest) =
              base.charsBefore {} (callsBefore calls rest) := by
  induction expr generalizing later with
  | apply head args headHypothesis argsHypothesis =>
      cases infixed : (apply head args).isInfix with
      | true =>
          exact ⟨apply head args, later, .inr infixed, rfl, fun rest => rfl⟩
      | false =>
          obtain ⟨base, calls, isBase, same, text⟩ := headHypothesis (args :: later)
          refine ⟨base, calls, isBase, same, fun rest => ?_⟩
          rw [charsBefore_call infixed, ← text]
          rfl
  | _ =>
      exact ⟨_, later, .inl rfl, rfl, fun rest => rfl⟩

/-- The base and the arguments of calls are parts. -/
theorem Expr.ClosedUnderParts.of_applyAll
    {family : Expr → Prop}
    (closed : ClosedUnderParts family)
    {base : Expr}
    {calls : List (List Expr)}
    (member : family (base.applyAll calls)) :
    family base ∧ ∀ args ∈ calls, ∀ arg ∈ args, family arg := by
  induction calls generalizing base with
  | nil =>
      exact ⟨member, nofun⟩
  | cons args calls inductionHypothesis =>
      obtain ⟨applied, later⟩ := inductionHypothesis member
      exact ⟨closed.head applied,
        List.forall_mem_cons.mpr ⟨fun arg isArg => closed.arg applied isArg, later⟩⟩

theorem separated_callsBefore
    (calls : List (List Expr))
    {rest : List Char}
    (ends : Ends rest) :
    Separated (callsBefore calls rest) := by
  cases calls with
  | nil =>
      exact ends.separated
  | cons args calls =>
      exact separated_cons (by decide) _

/-- The text of a readable expression does not start with a character that could end one. -/
theorem exists_first
    {kind : Float → Prop}
    {expr : Expr}
    (reads : expr.ReadsAs kind)
    (rest : List Char) :
    ∃ char more,
      expr.charsBefore {} rest = char :: more ∧ char ∉ [' ', ',', ')'] := by
  induction expr generalizing rest with
  | apply head args headHypothesis argsHypothesis =>
      cases infixed : (apply head args).isInfix with
      | true =>
          obtain ⟨name, lhs, rhs, same, isName⟩ := exists_of_isInfix infixed
          rw [same, charsBefore_of_isInfixName isName]
          exact ⟨'(', _, rfl, by decide⟩
      | false =>
          rw [charsBefore_call infixed]
          exact headHypothesis ((closedUnderParts_readsAs kind).head reads) _
  | _ =>
      obtain ⟨nonempty, unseparated⟩ := isWord_of_isLeaf rfl reads
      obtain ⟨char, more, starts⟩ := List.exists_cons_of_ne_nil nonempty
      rw [charsBefore_eq_append, show chars {} _ = _ from starts]
      refine ⟨char, more ++ rest, rfl, fun isEnd => ?_⟩
      refine unseparated char (starts ▸ List.mem_cons_self) ?_
      simp only [List.mem_cons, List.not_mem_nil, or_false] at isEnd
      rcases isEnd with rfl | rfl | rfl <;> decide

/-! ## Unique reading -/

/-- The text of an expression is the text of no other readable one, whatever follows behind its end. -/
def Expr.ReadsUniquely
    (kind : Float → Prop)
    (first : Expr) : Prop :=
  ∀ {second : Expr} {rest rest' : List Char},
    second.ReadsAs kind → Ends rest → Ends rest' →
      first.charsBefore {} rest = second.charsBefore {} rest' →
        first = second ∧ rest = rest'

/-- The text behind the first of several arguments. -/
def otherArgsBefore : (args : List Expr) → (rest : List Char) → List Char
  | [], rest => rest
  | arg :: others, rest => ',' :: argCharsBefore {} (arg :: others) rest

theorem argCharsBefore_cons
    (arg : Expr)
    (others : List Expr)
    (rest : List Char) :
    argCharsBefore {} (arg :: others) rest =
      arg.charsBefore {} (otherArgsBefore others rest) := by
  cases others <;> rfl

theorem ends_otherArgsBefore
    (others : List Expr)
    (rest : List Char) :
    Ends (otherArgsBefore others (')' :: rest)) := by
  cases others with
  | nil =>
      exact ends_cons (by decide) _
  | cons arg others =>
      exact ends_cons (by decide) _

section Reading

variable {kind firstKind secondKind : Float → Prop}

/-- No argument list is read where another one ends. -/
theorem argCharsBefore_ne_nil
    {arg : Expr}
    {others : List Expr}
    (reads : arg.ReadsAs kind)
    (rest rest' : List Char) :
    ')' :: rest ≠ argCharsBefore {} (arg :: others) rest' := by
  obtain ⟨char, more, starts, notEnd⟩ :=
    exists_first reads (otherArgsBefore others rest')
  rw [argCharsBefore_cons, starts]
  intro same
  cases same
  exact notEnd (by decide)

/-- Arguments are read uniquely up to the closing parenthesis if each of them is. -/
theorem eq_of_argCharsBefore_eq
    {first second : List Expr}
    {rest rest' : List Char}
    (firstReads : ∀ arg ∈ first, arg.ReadsAs firstKind)
    (unique : ∀ arg ∈ first, arg.ReadsUniquely secondKind)
    (secondReads : ∀ arg ∈ second, arg.ReadsAs secondKind)
    (same :
      argCharsBefore {} first (')' :: rest) =
        argCharsBefore {} second (')' :: rest')) :
    first = second ∧ rest = rest' := by
  induction first generalizing second with
  | nil =>
      cases second with
      | nil =>
          exact ⟨rfl, List.tail_eq_of_cons_eq same⟩
      | cons arg others =>
          exact (argCharsBefore_ne_nil (secondReads arg List.mem_cons_self) _ _
            same).elim
  | cons arg others inductionHypothesis =>
      obtain ⟨argReads, othersRead⟩ := List.forall_mem_cons.mp firstReads
      obtain ⟨argUnique, othersUnique⟩ := List.forall_mem_cons.mp unique
      cases second with
      | nil =>
          exact (argCharsBefore_ne_nil argReads _ _ same.symm).elim
      | cons arg' others' =>
          obtain ⟨argReads', othersRead'⟩ := List.forall_mem_cons.mp secondReads
          rw [argCharsBefore_cons, argCharsBefore_cons] at same
          obtain ⟨rfl, sameOthers⟩ :=
            argUnique argReads' (ends_otherArgsBefore _ _)
              (ends_otherArgsBefore _ _) same
          cases others with
          | nil =>
              cases others' with
              | nil =>
                  exact ⟨rfl, List.tail_eq_of_cons_eq sameOthers⟩
              | cons next' later' =>
                  cases sameOthers
          | cons next later =>
              cases others' with
              | nil =>
                  cases sameOthers
              | cons next' later' =>
                  obtain ⟨sameArgs, rests⟩ :=
                    inductionHypothesis othersRead othersUnique othersRead'
                      (List.tail_eq_of_cons_eq sameOthers)
                  exact ⟨by rw [sameArgs], rests⟩

/-- Lists of arguments are read uniquely up to the end of the calls. -/
theorem eq_of_callsBefore_eq
    {first second : List (List Expr)}
    {rest rest' : List Char}
    (firstReads : ∀ args ∈ first, ∀ arg ∈ args, arg.ReadsAs firstKind)
    (unique : ∀ args ∈ first, ∀ arg ∈ args, arg.ReadsUniquely secondKind)
    (secondReads : ∀ args ∈ second, ∀ arg ∈ args, arg.ReadsAs secondKind)
    (ends : Ends rest)
    (ends' : Ends rest')
    (same : callsBefore first rest = callsBefore second rest') :
    first = second ∧ rest = rest' := by
  have notOpen
      {rest : List Char}
      (ends : Ends rest)
      (more : List Char) :
      rest ≠ '(' :: more := by
    rintro rfl
    exact absurd (ends '(' rfl) (by decide)
  induction first generalizing second with
  | nil =>
      cases second with
      | nil =>
          exact ⟨rfl, same⟩
      | cons args calls =>
          exact (notOpen ends _ same).elim
  | cons args calls inductionHypothesis =>
      cases second with
      | nil =>
          exact (notOpen ends' _ same.symm).elim
      | cons args' calls' =>
          obtain ⟨argsRead, callsRead⟩ := List.forall_mem_cons.mp firstReads
          obtain ⟨argsUnique, callsUnique⟩ := List.forall_mem_cons.mp unique
          obtain ⟨argsRead', callsRead'⟩ := List.forall_mem_cons.mp secondReads
          obtain ⟨rfl, sameCalls⟩ :=
            eq_of_argCharsBefore_eq argsRead argsUnique argsRead'
              (List.tail_eq_of_cons_eq same)
          obtain ⟨rfl, rests⟩ :=
            inductionHypothesis callsRead callsUnique callsRead' sameCalls
          exact ⟨rfl, rests⟩

section Bases

variable {first second : Expr} {rest rest' : List Char}

/-- No leaf is read where an infix application is. -/
theorem charsBefore_leaf_ne_of_isInfix
    (isLeaf : first.isLeaf = true)
    (reads : first.ReadsAs kind)
    (infixed : second.isInfix = true) :
    first.charsBefore {} rest ≠ second.charsBefore {} rest' := by
  obtain ⟨nonempty, unseparated⟩ := isWord_of_isLeaf isLeaf reads
  obtain ⟨char, more, starts⟩ := List.exists_cons_of_ne_nil nonempty
  obtain ⟨name, lhs, rhs, rfl, isName⟩ := exists_of_isInfix infixed
  rw [charsBefore_eq_append, show first.chars {} = _ from starts,
    charsBefore_of_isInfixName isName]
  intro same
  obtain ⟨rfl, -⟩ := List.cons.inj same
  exact unseparated '(' (starts ▸ List.mem_cons_self) (by decide)

/-- Infix applications are read uniquely if their operands are. -/
theorem eq_of_isInfix
    (firstInfix : first.isInfix = true)
    (secondInfix : second.isInfix = true)
    (firstReads : first.ReadsAs firstKind)
    (secondReads : second.ReadsAs secondKind)
    (unique : ∀ arg ∈ first.args, arg.ReadsUniquely secondKind)
    (same : first.charsBefore {} rest = second.charsBefore {} rest') :
    first = second ∧ rest = rest' := by
  obtain ⟨name, lhs, rhs, rfl, isName⟩ := exists_of_isInfix firstInfix
  obtain ⟨name', lhs', rhs', rfl, isName'⟩ := exists_of_isInfix secondInfix
  obtain ⟨lhsUnique, rhsUnique⟩ : lhs.ReadsUniquely secondKind ∧
      rhs.ReadsUniquely secondKind := by
    simpa [args] using unique
  have closed := closedUnderParts_readsAs secondKind
  have isWord := (firstReads.names name (by simp [contains])).isWord
  have isWord' := (secondReads.names name' (by simp [contains])).isWord
  rw [charsBefore_of_isInfixName isName, charsBefore_of_isInfixName isName'] at same
  obtain ⟨rfl, sameNames⟩ :=
    lhsUnique (closed.arg secondReads (by simp)) (ends_cons (by decide) _)
      (ends_cons (by decide) _) (List.tail_eq_of_cons_eq same)
  obtain ⟨sameName, sameRhs⟩ :=
    eq_of_append_eq isWord.unseparated isWord'.unseparated
      (separated_cons (by decide) _) (separated_cons (by decide) _)
      (List.tail_eq_of_cons_eq sameNames)
  obtain ⟨rfl, rests⟩ :=
    rhsUnique (closed.arg secondReads (by simp)) (ends_cons (by decide) _)
      (ends_cons (by decide) _) (List.tail_eq_of_cons_eq sameRhs)
  exact ⟨by rw [String.toList_inj.mp sameName], List.tail_eq_of_cons_eq rests⟩

/-- Leaves and infix applications are read uniquely, whatever they are called with. -/
theorem eq_of_bases
    (determined : ToldApart firstKind secondKind)
    (firstBase : first.isLeaf = true ∨ first.isInfix = true)
    (secondBase : second.isLeaf = true ∨ second.isInfix = true)
    (firstReads : first.ReadsAs firstKind)
    (secondReads : second.ReadsAs secondKind)
    (unique : ∀ arg ∈ first.args, arg.ReadsUniquely secondKind)
    (separated : Separated rest)
    (separated' : Separated rest')
    (same : first.charsBefore {} rest = second.charsBefore {} rest') :
    first = second ∧ rest = rest' := by
  rcases firstBase with firstLeaf | firstInfix
  · rcases secondBase with secondLeaf | secondInfix
    · have firstWord := isWord_of_isLeaf firstLeaf firstReads
      have secondWord := isWord_of_isLeaf secondLeaf secondReads
      rw [charsBefore_eq_append, charsBefore_eq_append _ second] at same
      obtain ⟨sameWord, rests⟩ :=
        eq_of_append_eq firstWord.unseparated secondWord.unseparated separated
          separated' same
      exact ⟨eq_of_leaves determined firstLeaf secondLeaf firstReads secondReads
        sameWord, rests⟩
    · exact (charsBefore_leaf_ne_of_isInfix firstLeaf firstReads secondInfix same).elim
  · rcases secondBase with secondLeaf | secondInfix
    · exact (charsBefore_leaf_ne_of_isInfix secondLeaf secondReads firstInfix
        same.symm).elim
    · exact eq_of_isInfix firstInfix secondInfix firstReads secondReads unique same

end Bases

/-- A called leaf or infix application is read uniquely if its operands and the arguments are. -/
theorem eq_of_calledBase
    (determined : ToldApart firstKind secondKind)
    {base second : Expr}
    {calls : List (List Expr)}
    {rest rest' : List Char}
    (isBase : base.isLeaf = true ∨ base.isInfix = true)
    (reads : base.ReadsAs firstKind)
    (unique : ∀ arg ∈ base.args, arg.ReadsUniquely secondKind)
    (callsRead : ∀ args ∈ calls, ∀ arg ∈ args, arg.ReadsAs firstKind)
    (callsUnique :
      ∀ args ∈ calls, ∀ arg ∈ args, arg.ReadsUniquely secondKind)
    (secondReads : second.ReadsAs secondKind)
    (ends : Ends rest)
    (ends' : Ends rest')
    (same :
      base.charsBefore {} (callsBefore calls rest) =
        second.charsBefore {} rest') :
    base.applyAll calls = second ∧ rest = rest' := by
  obtain ⟨base', calls', isBase', shape, text⟩ := exists_calls second []
  have secondShape : second = base'.applyAll calls' := shape
  obtain ⟨baseReads', callsRead'⟩ :=
    (closedUnderParts_readsAs secondKind).of_applyAll (secondShape ▸ secondReads)
  obtain ⟨rfl, sameCalls⟩ :=
    eq_of_bases determined isBase isBase' reads baseReads' unique
      (separated_callsBefore calls ends) (separated_callsBefore calls' ends')
      (same.trans (text rest'))
  obtain ⟨rfl, rests⟩ :=
    eq_of_callsBefore_eq callsRead callsUnique callsRead' ends ends' sameCalls
  exact ⟨secondShape.symm, rests⟩

/-- A called expression is read uniquely if the arguments are.

By induction on the expression: a call adds its arguments to those that follow, until the base is reached;
without calls the induction hypothesis says that operands and arguments are read uniquely. -/
theorem eq_of_called
    (determined : ToldApart firstKind secondKind)
    {first second : Expr}
    {calls : List (List Expr)}
    {rest rest' : List Char}
    (reads : first.ReadsAs firstKind)
    (callsRead : ∀ args ∈ calls, ∀ arg ∈ args, arg.ReadsAs firstKind)
    (callsUnique :
      ∀ args ∈ calls, ∀ arg ∈ args, arg.ReadsUniquely secondKind)
    (secondReads : second.ReadsAs secondKind)
    (ends : Ends rest)
    (ends' : Ends rest')
    (same :
      first.charsBefore {} (callsBefore calls rest) =
        second.charsBefore {} rest') :
    first.applyAll calls = second ∧ rest = rest' := by
  induction first generalizing calls second rest rest' with
  | apply head args headHypothesis argsHypothesis =>
      have closed := closedUnderParts_readsAs firstKind
      have argsRead : ∀ arg ∈ args, arg.ReadsAs firstKind :=
        fun arg isArg => closed.arg reads isArg
      have argsUnique : ∀ arg ∈ args, arg.ReadsUniquely secondKind := by
        intro arg isArg second rest rest' secondReads ends ends' same
        exact @argsHypothesis arg isArg second [] rest rest' (argsRead arg isArg)
          nofun nofun secondReads ends ends' same
      cases infixed : (Expr.apply head args).isInfix with
      | true =>
          exact eq_of_calledBase determined (.inr infixed) reads argsUnique callsRead
            callsUnique secondReads ends ends' same
      | false =>
          rw [charsBefore_call infixed] at same
          exact @headHypothesis second (args :: calls) rest rest'
            (closed.head reads) (List.forall_mem_cons.mpr ⟨argsRead, callsRead⟩)
            (List.forall_mem_cons.mpr ⟨argsUnique, callsUnique⟩) secondReads ends
            ends' same
  | _ =>
      exact eq_of_calledBase determined (.inl rfl) reads nofun callsRead callsUnique
        secondReads ends ends' same

end Reading

/--
The canonical text of an expression can be read in one way only: without wildcards, with readable names of
symbols and with literal numbers that are told apart by their texts, expressions have the same text exactly
if they are the same.
-/
theorem canonicalText_inj
    {first second : Expr}
    (firstReadable : first.IsReadable)
    (secondReadable : second.IsReadable)
    (determined :
      ∀ {value value'},
        first.contains (.number value) = true →
          second.contains (.number value') = true →
            NumberFormat.chars {} value = NumberFormat.chars {} value' →
              value = value') :
    first.canonicalText = second.canonicalText ↔ first = second := by
  refine ⟨fun same => ?_, congrArg canonicalText⟩
  have ends : Ends [] := nofun
  have sameChars : first.chars {} = second.chars {} := String.ofList_inj.mp same
  exact (@eq_of_called
    (fun value => first.contains (.number value) = true)
    (fun value => second.contains (.number value) = true)
    @determined first second [] [] [] ⟨firstReadable, fun _ isPart => isPart⟩ nofun
    nofun ⟨secondReadable, fun _ isPart => isPart⟩ ends ends sameChars).1

/-- A number applied to a sum, and to an application of `+` as a prefix with another argument behind it. -/
theorem canonicalText_inj_call :
    let sum := Expr.symbol "+"
    let x := Expr.symbol "x"
    let first := Expr.apply (.number 2) [.apply sum [x, sum]]
    let second := Expr.apply (.number 2) [.apply sum [x], sum]
    first.IsReadable ∧ second.IsReadable ∧
      first.canonicalText ≠ second.canonicalText := by
  intro sum x first second
  have readable
      {name : String}
      (isName : name = "+" ∨ name = "x") :
      IsReadableName name := by
    rcases isName with rfl | rfl <;>
      exact isReadableName_of_char (isWord_of_all (by decide) (by decide))
        (by decide) (by decide)
  have firstReadable : first.IsReadable := by
    refine ⟨by decide, fun name isPart => readable ?_⟩
    have among : "+" = name ∨ "x" = name ∨ "+" = name := by
      simpa [first, sum, x, contains, argsContain] using isPart
    rcases among with rfl | rfl | rfl <;> decide
  have secondReadable : second.IsReadable := by
    refine ⟨by decide, fun name isPart => readable ?_⟩
    have among : ("+" = name ∨ "x" = name) ∨ "+" = name := by
      simpa [second, sum, x, contains, argsContain] using isPart
    rcases among with (rfl | rfl) | rfl <;> decide
  have different : first ≠ second := by
    decide
  refine ⟨firstReadable, secondReadable, fun same => different ?_⟩
  refine (canonicalText_inj firstReadable secondReadable ?_).mp same
  intro value value' isPart isPart' _
  have isTwo : 2 = value := by
    simpa [first, sum, x, contains, argsContain] using isPart
  have isTwo' : 2 = value' := by
    simpa [second, sum, x, contains, argsContain] using isPart'
  rw [← isTwo, ← isTwo']

end SymbolicAlgebra
