import SymbolicAlgebra.Expr.Names
import SymbolicAlgebra.Expr.Query
import SymbolicAlgebra.Number.Reading
import SymbolicAlgebra.Script
import SymbolicAlgebra.Proofs.Expr.Structure
import SymbolicAlgebra.Proofs.Bitwise.Evaluation
import SymbolicAlgebra.Proofs.Construction
import SymbolicAlgebra.Proofs.Matching
import SymbolicAlgebra.Proofs.Expr.Printer
import SymbolicAlgebra.Proofs.ArgumentOrder
import SymbolicAlgebra.Proofs.Substitution
import SymbolicAlgebra.Proofs.Interpretation.Rules
import SymbolicAlgebra.Proofs.Expr.Linearity
import SymbolicAlgebra.Proofs.Linear.Decision
import SymbolicAlgebra.Proofs.Chain.Free
import SymbolicAlgebra.Proofs.Monotone.Decision
import SymbolicAlgebra.Proofs.Rejection
import SymbolicAlgebra.Proofs.Closure.Family
import SymbolicAlgebra.Proofs.Closure.Rules
import SymbolicAlgebra.Proofs.Closure.LikeTerms
import SymbolicAlgebra.Proofs.Closure.Parts
import SymbolicAlgebra.Proofs.Finiteness
import SymbolicAlgebra.Proofs.Occurrence
import SymbolicAlgebra.Proofs.Stability.Client
import SymbolicAlgebra.Proofs.Stability.Obtained
import SymbolicAlgebra.Proofs.Exclusion.Decision
import SymbolicAlgebra.Proofs.Session.Reentrancy
import SymbolicAlgebra.Proofs.Instantiation
import SymbolicAlgebra.Proofs.Symbols
import SymbolicAlgebra.Proofs.Agreement.Simplification
import SymbolicAlgebra.Proofs.Valuation.Sums
import SymbolicAlgebra.Proofs.Valuation.Quotients
import SymbolicAlgebra.Proofs.Shifts
import SymbolicAlgebra.Proofs.Factor.Sharing
import SymbolicAlgebra.Proofs.Factor.Cancellation
import SymbolicAlgebra.Proofs.Repetition.Simplification
import SymbolicAlgebra.Proofs.Powers.Evaluation
import SymbolicAlgebra.Proofs.Identities
import SymbolicAlgebra.Proofs.Expr.Readability
import SymbolicAlgebra.Proofs.Evaluator.Bitwise
import SymbolicAlgebra.Proofs.Chain.Building
import SymbolicAlgebra.Proofs.Number.Unit
import SymbolicAlgebra.Proofs.Factor.Normalization
