/-
# TypeKernel.Eval.Basic — evaluation

`Eval.step` answers one request by asking others. `run n` answers requests with at most `n` requests
nested in each other and stops as `exhausted` beyond that; a finished answer does not depend on `n`.

Parts that may never be needed are postponed (`later`): operands, parts of canonical forms and the
arguments of eliminators other than the target. A variable, an atom and a form without parts are
cheap and are evaluated at once.
-/
import TypeKernel.Eval.Eliminate

namespace TypeKernel

set_option autoImplicit false

open Machine

namespace Eval

variable {m : Type → Type} [Machine m] (ask : Request → m Value)

/-- Postpone an expression, unless it is cheap. -/
def later (ρ : Env) : Expr → m Value
  | .var x => ask (.eval ρ (.var x))
  | .quote a => ask (.eval ρ (.quote a))
  | .const c => ask (.eval ρ (.const c))
  | e => suspend ρ e

/-- Split an annotated argument into the value of its type and its own postponed value. -/
def annotated (ρ : Env) : Expr → m (Option Value × Value)
  | .the type e => do
      let type ← ask (.eval ρ type)
      let v ← later ask ρ e
      return (some type, v)
  | e => do
      let v ← later ask ρ e
      return (none, v)

/-- The value of an expression. -/
def evaluate (ρ : Env) : Expr → m Value
  | .var x =>
      match ρ.get? x with
      | some v => return v
      | none => defect (.unboundLookup x)
  | .quote a => return .quote a
  | .const c => return .const c
  | .unary u e => do
      let v ← later ask ρ e
      return .unary u v
  | .binary b e₁ e₂ => do
      let v₁ ← later ask ρ e₁
      let v₂ ← later ask ρ e₂
      return .binary b v₁ v₂
  | .equal type left right => do
      let type ← later ask ρ type
      let left ← later ask ρ left
      let right ← later ask ρ right
      return .equal type left right
  | .quant q x domain range => do
      let domain ← later ask ρ domain
      return .quant q x domain (.code ρ x range)
  | .lam x body => return .lam x (.code ρ x body)
  | .the _ e => ask (.eval ρ e)
  | .app fn arg => do
      let fn ← ask (.eval ρ fn)
      let arg ← later ask ρ arg
      call ask fn arg
  | .proj p target => do
      let target ← ask (.eval ρ target)
      project ask p target
  | .fold f target base step => do
      let (type, base) ← annotated ask ρ base
      let target ← ask (.eval ρ target)
      let step ← later ask ρ step
      ask (.fold f target type base step)
  | .induct i target motive base step => do
      let target ← ask (.eval ρ target)
      let motive ← later ask ρ motive
      let base ← later ask ρ base
      let step ← later ask ρ step
      ask (.induct i target motive base step)
  | .transport k target motive base => do
      let target ← ask (.eval ρ target)
      let motive ← later ask ρ motive
      let base ← later ask ρ base
      transport ask k target motive base
  | .indAbsurd target motive => do
      let target ← ask (.eval ρ target)
      let motive ← ask (.eval ρ motive)
      indAbsurd ask target motive
  | .indVec length target motive base step => do
      let length ← later ask ρ length
      let target ← ask (.eval ρ target)
      let motive ← later ask ρ motive
      let base ← later ask ρ base
      let step ← later ask ρ step
      ask (.indVec length target motive base step)
  | .trans left right => do
      let left ← ask (.eval ρ left)
      let right ← ask (.eval ρ right)
      trans ask left right
  | .cong target fn => do
      let (type, fn) ← annotated ask ρ fn
      let target ← ask (.eval ρ target)
      cong ask target type fn
  | .todo => reject (.incomplete none)
  | .malformed m => defect (.noEvaluationRule m)

/-- The canonical or neutral form of a value. The result of a delayed value is kept in its cell. -/
def force : Value → m Value
  | .delayed cell ρ e => do
      match ← peek cell with
      | some v => return v
      | none => do
          let v ← ask (.eval ρ e)
          let v ← ask (.force v)
          keep cell v
          return v
  | v => return v

/-- The value of a closure at an argument. -/
def apply (arg : Value) : Closure → m Value
  | .code ρ x body => ask (.eval (ρ.extend x arg) body)
  | .family _ f => applyFamily ask arg f

/-- Answer a request by asking others. -/
def step : Request → m Value
  | .eval ρ e => evaluate ask ρ e
  | .force v => force ask v
  | .apply c v => apply ask v c
  | .fold f target type base step => fold ask f target type base step
  | .induct i target motive base step => induct ask i target motive base step
  | .indVec length target motive base step => indVec ask length target motive base step

end Eval

variable {m : Type → Type} [Machine m]

/-- Answer a request, with requests nested at most `n` deep. -/
def run : Nat → Request → m Value
  | 0, _ => stop .exhausted
  | n + 1, request => Eval.step (run n) request

def Env.eval (n : Nat) (ρ : Env) (e : Expr) : m Value :=
  run n (.eval ρ e)

def Value.force (n : Nat) (v : Value) : m Value :=
  run n (.force v)

def Closure.apply (n : Nat) (c : Closure) (v : Value) : m Value :=
  run n (.apply c v)

def Value.call (n : Nat) (fn arg : Value) : m Value :=
  Eval.call (run n) fn arg

def Value.callBoth (n : Nat) (fn arg₁ arg₂ : Value) : m Value :=
  Eval.callBoth (run n) fn arg₁ arg₂

end TypeKernel
