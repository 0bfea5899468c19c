import TypeKernel.Atom
import TypeKernel.Bench
import TypeKernel.Check.Basic
import TypeKernel.Check.Elimination
import TypeKernel.Check.Formation
import TypeKernel.Check.Introduction
import TypeKernel.Check.Judgments
import TypeKernel.Check.Renaming
import TypeKernel.Context.Basic
import TypeKernel.Context.Fresh
import TypeKernel.Conversion
import TypeKernel.Entry
import TypeKernel.Environment
import TypeKernel.Error
import TypeKernel.Eval.Basic
import TypeKernel.Eval.Eliminate
import TypeKernel.Eval.Request
import TypeKernel.Expr.Alpha
import TypeKernel.Expr.Basic
import TypeKernel.Expr.Layout
import TypeKernel.Expr.Printer
import TypeKernel.Expr.Record
import TypeKernel.Expr.Scope
import TypeKernel.Log
import TypeKernel.Machine.Basic
import TypeKernel.Machine.ByName
import TypeKernel.Machine.ByNeed
import TypeKernel.ReadBack
import TypeKernel.RoundTrip
import TypeKernel.Settings
import TypeKernel.Text.Blank
import TypeKernel.Text.DecimalDigit
import TypeKernel.Text.Integer
import TypeKernel.Text.Letter
import TypeKernel.Text.Numeral
import TypeKernel.Text.Printable
import TypeKernel.Text.Quoted
import TypeKernel.Text.Spans
import TypeKernel.Text.Subscript
import TypeKernel.Toplevel
import TypeKernel.Value.Basic
import TypeKernel.Value.Record
import TypeKernel.Proofs.Elaboration
import TypeKernel.Proofs.Fresh
import TypeKernel.Proofs.Scope
import TypeKernel.Proofs.History
import TypeKernel.Proofs.Hygiene
import TypeKernel.Proofs.Answer
import TypeKernel.Proofs.Lockstep
import TypeKernel.Proofs.Nameless
import TypeKernel.Proofs.Reads
import TypeKernel.Proofs.Renamed
import TypeKernel.Proofs.Tracking
import TypeKernel.Proofs.SameAnswer
import TypeKernel.Proofs.Agree
import TypeKernel.Proofs.Declared
import TypeKernel.Proofs.Denotes
import TypeKernel.Proofs.Eliminators
import TypeKernel.Proofs.ExactNeutrals
import TypeKernel.Proofs.Gluing
import TypeKernel.Proofs.GluingNeutrals
import TypeKernel.Proofs.Memo
import TypeKernel.Proofs.ReadByNeed
import TypeKernel.Proofs.Judged
import TypeKernel.Proofs.JudgedByName
import TypeKernel.Proofs.Established
import TypeKernel.Proofs.Attains
import TypeKernel.Proofs.Within
import TypeKernel.Proofs.Tidy
import TypeKernel.Proofs.Meaning
import TypeKernel.Proofs.Telescopes
import TypeKernel.Proofs.Families
import TypeKernel.Proofs.FamilyEliminators
import TypeKernel.Proofs.Soundness
import TypeKernel.Proofs.Comparisons
import TypeKernel.Proofs.Normalization
import TypeKernel.Proofs.Memoization
import TypeKernel.Proofs.Prepared
import TypeKernel.Proofs.PreparedReading
import TypeKernel.Proofs.ElaboratedForm
import TypeKernel.Proofs.NeutralRoles
import TypeKernel.Proofs.TrackedChecking
import TypeKernel.Proofs.CheckedByNeed
import TypeKernel.Proofs.Coherence
import TypeKernel.Proofs.Isolation
import TypeKernel.Proofs.TrackedByName
import TypeKernel.Proofs.Rechecking
import TypeKernel.Proofs.Completeness
import TypeKernel.Proofs.Reacceptance
import TypeKernel.Proofs.Composed
import TypeKernel.Proofs.OtherNames
import TypeKernel.Proofs.Substitution
import TypeKernel.Proofs.Lags
import TypeKernel.Proofs.LaggingEvaluation
import TypeKernel.Proofs.LaggingReadBack
import TypeKernel.Proofs.BetaEta
import TypeKernel.Proofs.Sameness
import TypeKernel.Proofs.Data
import TypeKernel.Proofs.Bounds
import TypeKernel.Proofs.NormalForms
import TypeKernel.Proofs.BetaNormal
import TypeKernel.Proofs.OutOfReach
import TypeKernel.Proofs.FreeVariables
import TypeKernel.Proofs.Faults
import TypeKernel.Proofs.Unambiguous
import TypeKernel.Proofs.Folds
import TypeKernel.Proofs.Origins
import TypeKernel.Proofs.WriteOnce
import TypeKernel.Proofs.Invariants
import TypeKernel.Proofs.Visibility
import TypeKernel.Proofs.LeastSubscript
import TypeKernel.Proofs.LineBreaks
