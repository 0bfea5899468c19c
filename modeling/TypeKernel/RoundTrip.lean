/-
# TypeKernel.RoundTrip — normalizing twice

A round trip elaborates an expression, takes its normal form, and normalizes that once more at the
same type. Normal forms are stable if the two differ at most in the names of bound variables.
-/
import TypeKernel.Check.Basic

namespace TypeKernel

set_option autoImplicit false

open Machine

/-- The head form of an expression's value, its normal form, and the normal form of that. -/
structure RoundTrip where
  head : Shape
  once : Expr
  twice : Expr
  stable : Bool
  deriving DecidableEq, Repr

variable {m : Type → Type} [Machine m]

/-- Normalize an expression twice. -/
def roundTrip (n : Nat) (Γ : Context) (e : Expr) : m RoundTrip := do
  let (core, type) ← synthesize n Γ e .empty
  let v ← Γ.env.eval n core
  let forced ← v.force n
  let once ← readBack n Γ type v
  let w ← Γ.env.eval n once
  let twice ← readBack n Γ type w
  let stable ← answered (once.alphaEquiv twice)
  return ⟨forced.shape, once, twice, stable⟩

end TypeKernel
