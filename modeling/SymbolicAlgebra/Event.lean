import SymbolicAlgebra.Error

/-!
# Events

What the library reports while it works: changes made by rules, simplifications that end, and
requests that are refused or disagree with the symbol table.  A report gives an event a level, a
message and named details.
-/

namespace SymbolicAlgebra

/-- Something worth recording. -/
inductive Event where
  /-- A rule changed a node. -/
  | fired (rule : String) (before after : Expr)
  /-- A simplification reached its fixed point. -/
  | settled (passes changes : Nat) (result : Expr)
  /-- A simplification used up its passes. -/
  | abandoned (passes : Nat) (subject : Expr)
  /-- A request arrived during a simplification. -/
  | refused (subject : Expr)
  /-- A name was requested with properties other than the recorded ones. -/
  | specConflict (symbol : String)
deriving DecidableEq

/-- How much an event matters. -/
inductive Level where
  | trace
  | debug
  | warn
deriving DecidableEq, Repr

/-- An event put into words. -/
structure Report where
  level : Level
  message : String
  details : List (String × String)
deriving DecidableEq

namespace Level

/-- The name of a level. -/
def name : Level → String
  | trace => "TRACE"
  | debug => "DEBUG"
  | warn => "WARN"

end Level

namespace Event

/-- The report of an event; expressions in it are written in the given format. -/
def report
    (format : NumberFormat) : Event → Report
  | fired rule before after =>
    { level := .trace
      message := "rule fired"
      details := [("rule", rule), ("before", before.text format), ("after", after.text format)] }
  | settled passes changes result =>
    { level := .debug
      message := "simplification reached a fixed point"
      details := [("passes", toString passes), ("rewrites", toString changes),
        ("result", result.text format)] }
  | abandoned passes subject =>
    { level := .warn
      message := "non-terminating simplification"
      details := [("passes", toString passes), ("expr", subject.text format)] }
  | refused subject =>
    { level := .trace
      message := "simplification already active on this thread; returning input"
      details := [("expr", subject.text format)] }
  | specConflict symbol =>
    { level := .warn
      message := "symbol already interned with a different operator spec; keeping the first"
      details := [("symbol", symbol)] }

end Event

end SymbolicAlgebra
