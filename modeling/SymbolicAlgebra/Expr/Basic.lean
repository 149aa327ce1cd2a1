import SymbolicAlgebra.Number.Binary

/-!
# Expressions

An expression is a leaf (a symbol, a wildcard, a literal number or a literal truth value) or an
application of a head to a list of arguments.  The head is an expression of its own: usually an
operator symbol, but a wildcard, a number or another application is just as possible.

Two expressions are the same exactly when they are built the same way, which is decidable.  What a
symbol means as an operator is not part of the expression; a symbol table says it.
-/

namespace SymbolicAlgebra

/-- A pattern placeholder.  The identity tells wildcards apart; the name is only printed. -/
structure Wildcard where
  id : Nat
  name : String
deriving DecidableEq, Repr

/-- A symbolic expression. -/
inductive Expr where
  | symbol (name : String)
  | wildcard (identity : Wildcard)
  | number (value : Float)
  | boolean (value : Bool)
  | apply (head : Expr) (args : List Expr)
deriving Inhabited

namespace Expr

mutual

/-- Decides whether two expressions are the same. -/
def decEq : (first second : Expr) → Decidable (first = second)
  | symbol first, symbol second =>
    decidable_of_iff (first = second) ⟨congrArg symbol, symbol.inj⟩
  | wildcard first, wildcard second =>
    decidable_of_iff (first = second) ⟨congrArg wildcard, wildcard.inj⟩
  | number first, number second =>
    decidable_of_iff (first = second) ⟨congrArg number, number.inj⟩
  | boolean first, boolean second =>
    decidable_of_iff (first = second) ⟨congrArg boolean, boolean.inj⟩
  | apply head args, apply head' args' =>
    match decEq head head' with
    | isFalse differ => isFalse fun same => differ (apply.inj same).1
    | isTrue sameHead =>
      match decEqArgs args args' with
      | isFalse differ => isFalse fun same => differ (apply.inj same).2
      | isTrue sameArgs => isTrue (by rw [sameHead, sameArgs])
  | symbol _, wildcard _ | symbol _, number _ | symbol _, boolean _ | symbol _, apply .. =>
    isFalse nofun
  | wildcard _, symbol _ | wildcard _, number _ | wildcard _, boolean _ | wildcard _, apply .. =>
    isFalse nofun
  | number _, symbol _ | number _, wildcard _ | number _, boolean _ | number _, apply .. =>
    isFalse nofun
  | boolean _, symbol _ | boolean _, wildcard _ | boolean _, number _ | boolean _, apply .. =>
    isFalse nofun
  | apply .., symbol _ | apply .., wildcard _ | apply .., number _ | apply .., boolean _ =>
    isFalse nofun

/-- Decides whether two argument lists are the same. -/
def decEqArgs : (first second : List Expr) → Decidable (first = second)
  | [], [] => isTrue rfl
  | first :: rest, second :: rest' =>
    match decEq first second with
    | isFalse differ => isFalse fun same => differ (List.cons.inj same).1
    | isTrue sameFirst =>
      match decEqArgs rest rest' with
      | isFalse differ => isFalse fun same => differ (List.cons.inj same).2
      | isTrue sameRest => isTrue (by rw [sameFirst, sameRest])
  | [], _ :: _ | _ :: _, [] => isFalse nofun

end

instance : DecidableEq Expr := decEq

/-- The literal of a float.  Zero has one form, without a sign. -/
def ofFloat
    (value : Float) : Expr :=
  number (if value == 0 then 0 else value)

/-- The literal of an integer. -/
def ofInt
    (value : Int) : Expr :=
  ofFloat (floatOfInt value)

/-- The head of an application; a leaf is its own head. -/
def head : Expr → Expr
  | apply head _ => head
  | leaf => leaf

/-- The arguments of an application; a leaf has none. -/
def args : Expr → List Expr
  | apply _ args => args
  | _ => []

/-- Whether the expression is not an application. -/
def isLeaf : Expr → Bool
  | apply .. => false
  | _ => true

/-- The value of a literal number. -/
def number? : Expr → Option Float
  | number value => some value
  | _ => none

/-- The value of a literal truth value. -/
def boolean? : Expr → Option Bool
  | boolean value => some value
  | _ => none

/-- The name of a symbol. -/
def symbol? : Expr → Option String
  | symbol name => some name
  | _ => none

/-- The wildcard that the expression is. -/
def wildcard? : Expr → Option Wildcard
  | wildcard identity => some identity
  | _ => none

/-- Whether the expression is a literal number. -/
def isNumber
    (expr : Expr) : Bool :=
  expr.number?.isSome

/-- Both arguments of an application to two. -/
def binaryArgs? : Expr → Option (Expr × Expr)
  | apply _ [lhs, rhs] => some (lhs, rhs)
  | _ => none

/-- Whether the expression is an application of the given head. -/
def isApplyOf
    (expr op : Expr) : Bool :=
  match expr with
  | apply head _ => decide (head = op)
  | _ => false

/-- Both arguments, if the expression applies the given head to two. -/
def operands?
    (expr op : Expr) : Option (Expr × Expr) :=
  match expr with
  | apply head [lhs, rhs] => if head = op then some (lhs, rhs) else none
  | _ => none

/-- Whether the expression applies the given head to two arguments. -/
def isBinaryOf
    (expr op : Expr) : Bool :=
  (expr.operands? op).isSome

end Expr

end SymbolicAlgebra
