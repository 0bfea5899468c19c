/-
# TypeKernel.Entry — contexts from expressions

A context is written as a list of entries. Each entry's type must be a type in the context so far, a
definition must have its type, and both are evaluated there.
-/
import TypeKernel.Check.Basic

namespace TypeKernel

set_option autoImplicit false

open Machine

/-- A line of a written context. -/
inductive Entry where
  | free (x : Name) (type : Expr)
  | claim (x : Name) (type : Expr)
  | definition (x : Name) (type e : Expr)
  deriving DecidableEq, Repr

variable {m : Type → Type} [Machine m] (n : Nat)

/-- The value of an expression that must be a type. -/
def typeValue (Γ : Context) (type : Expr) : m Value := do
  let core ← isType n Γ type .empty
  Γ.env.eval n core

/-- The value of an expression that must have the given type. -/
def valueAt (Γ : Context) (e : Expr) (type : Value) : m Value := do
  let core ← check n Γ e type .empty
  Γ.env.eval n core

def Context.add (Γ : Context) : Entry → m Context
  | .free x type => do
      let t ← typeValue n Γ type
      return Γ.bindFree x t
  | .claim x type => do
      let t ← typeValue n Γ type
      return Γ.bindClaim x t
  | .definition x type e => do
      let t ← typeValue n Γ type
      let v ← valueAt n Γ e t
      return Γ.bindDefinition x t v

def Context.addAll (Γ : Context) : List Entry → m Context
  | [] => return Γ
  | entry :: entries => do
      let Γ' ← Γ.add n entry
      Γ'.addAll entries

end TypeKernel
