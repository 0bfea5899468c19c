/-
# TypeKernel.Expr.Alpha — equality up to the names of bound variables

Each binder is numbered by its depth. Two expressions are equivalent when they have the same forms
in the same places, bound variables refer to binders of one depth and free variables have one
name. Any two `(the Absurd _)` are equivalent, because all elements of `Absurd` are the same.

Parts are compared from left to right. Two unknown forms have no parts to compare, so the
comparison has no answer (`none`) when it meets two of them before a difference.
-/
import TypeKernel.Expr.Basic

namespace TypeKernel.Expr

set_option autoImplicit false

/-- Two comparisons one after the other: the second is asked only if the first finds no
difference. -/
def andCompare : Option Bool → Option Bool → Option Bool
  | some true, second => second
  | first, _ => first

/-- The depths of the binders around an expression, innermost first. -/
abbrev Depths := List (Name × Nat)

/-- Variables agree when both are bound at one depth, or both are free and have one name. -/
def sameVar (ls rs : Depths) (x y : Name) : Bool :=
  match ls.lookup x, rs.lookup y with
  | none, none => x == y
  | i, j => i == j

/-- Equivalence below binders: `ls` and `rs` give the depths of the names bound on either side. -/
def alphaUnder (ls rs : Depths) (depth : Nat) : Expr → Expr → Option Bool
  | .var x, .var y => some (sameVar ls rs x y)
  | .quote a, .quote b => some (a == b)
  | .const c, .const d => some (c == d)
  | .unary u a, .unary v b => if u = v then alphaUnder ls rs depth a b else some false
  | .binary u a₁ a₂, .binary v b₁ b₂ =>
      if u = v then
        andCompare (alphaUnder ls rs depth a₁ b₁) (alphaUnder ls rs depth a₂ b₂)
      else some false
  | .equal t l r, .equal t' l' r' =>
      andCompare (alphaUnder ls rs depth t t')
        (andCompare (alphaUnder ls rs depth l l') (alphaUnder ls rs depth r r'))
  | .quant q x d r, .quant q' x' d' r' =>
      if q = q' then
        andCompare (alphaUnder ls rs depth d d')
          (alphaUnder ((x, depth) :: ls) ((x', depth) :: rs) (depth + 1) r r')
      else some false
  | .lam x b, .lam x' b' =>
      alphaUnder ((x, depth) :: ls) ((x', depth) :: rs) (depth + 1) b b'
  | .the t e, .the t' e' =>
      if t = .absurd ∧ t' = .absurd then some true
      else andCompare (alphaUnder ls rs depth t t') (alphaUnder ls rs depth e e')
  | .app f a, .app f' a' =>
      andCompare (alphaUnder ls rs depth f f') (alphaUnder ls rs depth a a')
  | .proj p t, .proj p' t' => if p = p' then alphaUnder ls rs depth t t' else some false
  | .fold f t b s, .fold f' t' b' s' =>
      if f = f' then
        andCompare (alphaUnder ls rs depth t t')
          (andCompare (alphaUnder ls rs depth b b') (alphaUnder ls rs depth s s'))
      else some false
  | .induct i t m b s, .induct i' t' m' b' s' =>
      if i = i' then
        andCompare (alphaUnder ls rs depth t t') (andCompare (alphaUnder ls rs depth m m')
          (andCompare (alphaUnder ls rs depth b b') (alphaUnder ls rs depth s s')))
      else some false
  | .transport k t m b, .transport k' t' m' b' =>
      if k = k' then
        andCompare (alphaUnder ls rs depth t t')
          (andCompare (alphaUnder ls rs depth m m') (alphaUnder ls rs depth b b'))
      else some false
  | .indAbsurd t m, .indAbsurd t' m' =>
      andCompare (alphaUnder ls rs depth t t') (alphaUnder ls rs depth m m')
  | .indVec n t m b s, .indVec n' t' m' b' s' =>
      andCompare (alphaUnder ls rs depth n n') (andCompare (alphaUnder ls rs depth t t')
        (andCompare (alphaUnder ls rs depth m m')
          (andCompare (alphaUnder ls rs depth b b') (alphaUnder ls rs depth s s'))))
  | .trans l r, .trans l' r' =>
      andCompare (alphaUnder ls rs depth l l') (alphaUnder ls rs depth r r')
  | .cong t f, .cong t' f' =>
      andCompare (alphaUnder ls rs depth t t') (alphaUnder ls rs depth f f')
  | .todo, .todo => some true
  | .malformed .unknown, .malformed .unknown => none
  | .malformed m, .malformed m' => some (m == m')
  | _, _ => some false

/-- Equivalence of two expressions up to the names of bound variables. -/
def alphaEquiv (e₁ e₂ : Expr) : Option Bool :=
  alphaUnder [] [] 0 e₁ e₂

end TypeKernel.Expr
