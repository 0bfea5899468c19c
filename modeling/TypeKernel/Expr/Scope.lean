/-
# TypeKernel.Expr.Scope — free occurrences

`occursFree x e` says whether the variable `x` occurs in `e` outside every binder for it. Parts are
searched from left to right. An unknown form has no parts to search, so the search has no answer
(`none`) when it meets one before an occurrence.
-/
import TypeKernel.Expr.Basic

namespace TypeKernel.Expr

set_option autoImplicit false

/-- Two searches one after the other: the second is asked only if the first finds nothing. -/
def orSearch : Option Bool → Option Bool → Option Bool
  | some false, second => second
  | first, _ => first

/-- Whether `x` occurs free in an expression. -/
def occursFree (x : Name) : Expr → Option Bool
  | .var y => some (y == x)
  | .quote _ | .const _ | .todo => some false
  | .unary _ e => e.occursFree x
  | .binary _ e₁ e₂ => orSearch (e₁.occursFree x) (e₂.occursFree x)
  | .equal t l r => orSearch (t.occursFree x) (orSearch (l.occursFree x) (r.occursFree x))
  | .quant _ y d r => orSearch (d.occursFree x) (if y = x then some false else r.occursFree x)
  | .lam y b => if y = x then some false else b.occursFree x
  | .the t e => orSearch (t.occursFree x) (e.occursFree x)
  | .app f a => orSearch (f.occursFree x) (a.occursFree x)
  | .proj _ t => t.occursFree x
  | .fold _ t b s => orSearch (t.occursFree x) (orSearch (b.occursFree x) (s.occursFree x))
  | .induct _ t m b s =>
      orSearch (t.occursFree x)
        (orSearch (m.occursFree x) (orSearch (b.occursFree x) (s.occursFree x)))
  | .transport _ t m b => orSearch (t.occursFree x) (orSearch (m.occursFree x) (b.occursFree x))
  | .indAbsurd t m => orSearch (t.occursFree x) (m.occursFree x)
  | .indVec n t m b s =>
      orSearch (n.occursFree x) (orSearch (t.occursFree x)
        (orSearch (m.occursFree x) (orSearch (b.occursFree x) (s.occursFree x))))
  | .trans l r => orSearch (l.occursFree x) (r.occursFree x)
  | .cong t f => orSearch (t.occursFree x) (f.occursFree x)
  | .malformed .unknown => none
  | .malformed _ => some false

end TypeKernel.Expr
