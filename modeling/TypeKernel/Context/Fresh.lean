/-
# TypeKernel.Context.Fresh — names that a context does not use

A fresh name is the hint itself if the context does not use it. Otherwise it is the hint's base
with the first subscript above the hint's own that gives an unused name. A context of `n` names
cannot use `n + 1` different candidates, so the search looks at no more than that.

There is no fresh name if the hint's subscript is too long to be read, or the subscript found is too
long to be written. Subscripts only grow during the search, so it is enough to look at the last.
-/
import TypeKernel.Context.Basic
import TypeKernel.Text.Subscript

namespace TypeKernel

set_option autoImplicit false

/-- The first of `m`, `m + 1`, … that gives an unused name as a subscript of `base`; the number of
tries left bounds the search. -/
def firstUnused (used : List Name) (base : String) : Nat → Nat → Nat
  | 0, m => m
  | tries + 1, m =>
      if base ++ Text.subscriptNumeral m ∈ used then firstUnused used base tries (m + 1) else m

/-- A name after `hint` that is not in the list. -/
def freshAmong (used : List Name) (hint : Name) : Except Text.NumeralError Name :=
  if hint ∈ used then do
    let (base, n) ← Text.splitSubscript hint
    let numeral ← Text.subscript (firstUnused used base used.length (n + 1))
    return base ++ numeral
  else .ok hint

namespace Context

/-- A name after `hint` that the context does not bind. -/
def fresh (Γ : Context) (hint : Name) : Except Text.NumeralError Name :=
  freshAmong Γ.names hint

/-- Fresh names one after the other, each bound at the given type before the next is chosen. -/
def freshSeries (Γ : Context) (type : Value) : List Name → Except Text.NumeralError (List Name)
  | [] => .ok []
  | hint :: hints => do
      let x ← Γ.fresh hint
      let xs ← (Γ.bindFree x type).freshSeries type hints
      return x :: xs

end Context

end TypeKernel
