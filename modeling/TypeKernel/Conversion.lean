/-
# TypeKernel.Conversion — definitional equality

Two values of a type are the same if their normal forms differ at most in the names of bound
variables. Read-back gives every function, pair, and element of `Trivial` and `Absurd` its one
shape, so the equality includes the η-laws of these types.
-/
import TypeKernel.Expr.Alpha
import TypeKernel.ReadBack

namespace TypeKernel

set_option autoImplicit false

open Machine

variable {m : Type → Type} [Machine m]

/-- Whether two values of a type are the same. -/
def convert (n : Nat) (Γ : Context) (type v w : Value) : m Bool := do
  let e₁ ← readBack n Γ type v
  let e₂ ← readBack n Γ type w
  answered (e₁.alphaEquiv e₂)

def sameType (n : Nat) (Γ : Context) (v w : Value) : m Bool :=
  convert n Γ .univ v w

end TypeKernel
