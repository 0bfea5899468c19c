/-
# TypeKernel.Machine.Basic — what evaluation needs from the monad it runs in

Evaluation, read-back and checking are written once, for every monad that is a `Machine`: it can
stop without a result, suspend an expression in a memo cell, look into a cell and fill it, and take
reports. The machine alone decides what a cell remembers, so one set of rules gives evaluation by
need (`Machine.ByNeed`) and by name (`Machine.ByName`).
-/
import TypeKernel.Log

namespace TypeKernel

set_option autoImplicit false

/-- A monad in which the kernel runs. -/
class Machine (m : Type → Type) extends Monad m where
  /-- End without a result. -/
  stop {α : Type} : Stop → m α
  /-- Run a computation and go on with its outcome; whatever it did to cells stays done. -/
  attempt {α : Type} : m α → m (Except Stop α)
  /-- Postpone an expression: a delayed value with a cell of its own. -/
  suspend : Env → Expr → m Value
  /-- The result that a cell holds, if it holds one. -/
  peek : Nat → m (Option Value)
  /-- Leave a result in a cell that holds none. -/
  keep : Nat → Value → m Unit
  /-- Report an event. -/
  report : Event → m Unit

namespace Machine

variable {m : Type → Type} [Machine m] {α : Type}

/-- Fail because of malformed input. -/
def defect (d : Defect) : m α :=
  stop (.failed (.defect d))

/-- Fail because a judgment rejects its expression. -/
def reject (r : Rejection) : m α :=
  stop (.failed (.rejection r))

/-- The answer of a comparison or a search, which has none if it met a form without known parts. -/
def answered : Option Bool → m Bool
  | some answer => return answer
  | none => defect .noParts

/-- The outcome of reading and writing numerals. -/
def numeral : Except Text.NumeralError α → m α
  | .ok a => return a
  | .error e => defect (.numeral e)

/-- Fail because an eliminator cannot take apart a value. -/
def irreducible (eliminator : Eliminator) (v : Value) : m α :=
  defect (.irreducible eliminator v.shape)

end Machine

end TypeKernel
