import SymbolicAlgebra.Expr.Printer

/-!
# Matching

A pattern is an expression with wildcards.  A wildcard takes whatever it faces, a repeated wildcard
has to face equal parts each time, and everything else has to agree.  Wildcards of the subject are
ordinary leaves.
-/

namespace SymbolicAlgebra

/-- The values of wildcards, oldest binding first; no wildcard is bound twice. -/
structure Bindings where
  entries : List (Wildcard × Expr) := []
deriving DecidableEq

namespace Bindings

/-- The value of a wildcard. -/
def valueOf?
    (bindings : Bindings)
    (wildcard : Wildcard) : Option Expr :=
  bindings.entries.lookup wildcard

/-- The value of an expression that is a bound wildcard. -/
def get?
    (bindings : Bindings) : Expr → Option Expr
  | .wildcard wildcard => bindings.valueOf? wildcard
  | _ => none

/-- The earlier created of two bound wildcards. -/
def older
    (first second : Wildcard × Expr) : Wildcard × Expr :=
  if second.1.id < first.1.id then second else first

/-- The value of the earliest created bound wildcard with a name. -/
def byName?
    (bindings : Bindings)
    (name : String) : Option Expr :=
  match bindings.entries.filter (fun entry => entry.1.name == name) with
  | [] => none
  | entry :: rest => some (rest.foldl older entry).2

/-- The number of bound wildcards. -/
def size
    (bindings : Bindings) : Nat :=
  bindings.entries.length

/-- Binds a wildcard to a value; `none` if it is bound to another one. -/
def bind?
    (bindings : Bindings)
    (wildcard : Wildcard)
    (value : Expr) : Option Bindings :=
  match bindings.valueOf? wildcard with
  | some bound => if bound = value then some bindings else none
  | none => some ⟨bindings.entries ++ [(wildcard, value)]⟩

/-- What is said when a wildcard that is not bound is asked for. -/
def unboundMessage
    (format : NumberFormat)
    (wildcard : Expr) : String :=
  "wildcard " ++ wildcard.text format ++ " is not bound"

end Bindings

mutual

/-- Extends bindings so that the pattern becomes the subject; `none` if that is impossible. -/
def unify?
    (subject pattern : Expr)
    (bindings : Bindings) : Option Bindings :=
  match pattern with
  | .wildcard wildcard => bindings.bind? wildcard subject
  | .apply head args =>
    match subject with
    | .apply head' args' =>
      if args'.length = args.length then
        match unify? head' head bindings with
        | some extended => unifyArgs? args' args extended
        | none => none
      else
        none
    | _ => none
  | leaf => if subject = leaf then some bindings else none

/-- Extends bindings so that the patterns become the subjects, from left to right. -/
def unifyArgs?
    (subjects patterns : List Expr)
    (bindings : Bindings) : Option Bindings :=
  match patterns with
  | [] => some bindings
  | pattern :: patterns =>
    match subjects with
    | [] => some bindings
    | subject :: subjects =>
      match unify? subject pattern bindings with
      | some extended => unifyArgs? subjects patterns extended
      | none => none

end

/-- The bindings under which a pattern is the subject. -/
def captures?
    (subject pattern : Expr) : Option Bindings :=
  unify? subject pattern {}

/-- Matches a subject against a pattern.  The bindings handed in are replaced: by those of the match,
or by none at all if it fails. -/
def matchPattern
    (subject pattern : Expr)
    (_prior : Bindings) : Bool × Bindings :=
  match captures? subject pattern with
  | some bindings => (true, bindings)
  | none => (false, {})

/-- Matches the first expression against the second, then the second against the first. -/
def matchEither
    (first second : Expr)
    (prior : Bindings) : Bool × Bindings :=
  match matchPattern first second prior with
  | (true, bindings) => (true, bindings)
  | (false, bindings) => matchPattern second first bindings

end SymbolicAlgebra
