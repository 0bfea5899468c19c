/-
# TypeKernel.Environment — extending an environment by expressions

An environment is extended by the value of an expression in it. Only a name can be bound; a front
end that gives a bare text instead is told so, after the expression has been evaluated.
-/
import TypeKernel.Eval.Basic

namespace TypeKernel

set_option autoImplicit false

open Machine

/-- What a front end gives as the name of a binding. -/
inductive Key where
  | name (x : Name)
  | text (s : String)
  deriving DecidableEq, Repr

variable {m : Type → Type} [Machine m]

def Env.bind (ρ : Env) (v : Value) : Key → m Env
  | .name x => return ρ.extend x v
  | .text s => defect (.notAName s)

/-- Bind the value of an expression. -/
def Env.enter (n : Nat) (ρ : Env) (key : Key) (e : Expr) : m Env := do
  let v ← ρ.eval n e
  ρ.bind v key

end TypeKernel
