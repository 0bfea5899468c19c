/-
# TypeKernel.Check.Formation — rules of the type formers

A type former has two rules. As an element of `U` its parts must be elements of `U`; as a type its
parts need only be types. The two rules build the same contexts and elaborate alike.
-/
import TypeKernel.Check.Judgments

namespace TypeKernel.Check

set_option autoImplicit false

open Machine

variable {m : Type → Type} [Machine m] (n : Nat)

/-- A form without parts, of the given type. -/
def constRule (c : Const) (type : Value) (_ : Context) (_ : Renaming) : m (Expr × Value) :=
  return (.const c, type)

/-- The universe is a type and has none. -/
def univ : Judgments m :=
  ofFormation n .univ (fun _ _ => reject .universeUntyped) (fun _ _ => return .univ)

def quant (q : Quantifier) (x : Name) (d r : Expr) (domain range : Judgments m) : Judgments m :=
  ofFormation n (.quant q x d r)
    (fun Γ ren => do
      let domainCore ← domain.check Γ ren .univ
      let type ← valueOf n Γ domainCore
      let (y, Γ', ren') ← bindFresh Γ ren x type
      let rangeCore ← range.check Γ' ren' .univ
      return (.quant q y domainCore rangeCore, .univ))
    (fun Γ ren => do
      let domainCore ← domain.isType Γ ren
      let type ← valueOf n Γ domainCore
      let (y, Γ', ren') ← bindFresh Γ ren x type
      let rangeCore ← range.isType Γ' ren'
      return .quant q y domainCore rangeCore)

def list (a : Expr) (entry : Judgments m) : Judgments m :=
  ofFormation n (.list a)
    (fun Γ r => do
      let core ← entry.check Γ r .univ
      return (.list core, .univ))
    (fun Γ r => do
      let core ← entry.isType Γ r
      return .list core)

def vec (a k : Expr) (entry length : Judgments m) : Judgments m :=
  ofFormation n (.vec a k)
    (fun Γ r => do
      let entryCore ← entry.check Γ r .univ
      let lengthCore ← length.check Γ r .nat
      return (.vec entryCore lengthCore, .univ))
    (fun Γ r => do
      let entryCore ← entry.isType Γ r
      let lengthCore ← length.check Γ r .nat
      return .vec entryCore lengthCore)

def either (a b : Expr) (left right : Judgments m) : Judgments m :=
  ofFormation n (.either a b)
    (fun Γ r => do
      let leftCore ← left.check Γ r .univ
      let rightCore ← right.check Γ r .univ
      return (.either leftCore rightCore, .univ))
    (fun Γ r => do
      let leftCore ← left.isType Γ r
      let rightCore ← right.isType Γ r
      return .either leftCore rightCore)

def equal (t a b : Expr) (type left right : Judgments m) : Judgments m :=
  ofFormation n (.equal t a b)
    (fun Γ r => do
      let typeCore ← type.check Γ r .univ
      let carrier ← valueOf n Γ typeCore
      let leftCore ← left.check Γ r carrier
      let rightCore ← right.check Γ r carrier
      return (.equal typeCore leftCore rightCore, .univ))
    (fun Γ r => do
      let typeCore ← type.isType Γ r
      let carrier ← valueOf n Γ typeCore
      let leftCore ← left.check Γ r carrier
      let rightCore ← right.check Γ r carrier
      return .equal typeCore leftCore rightCore)

end TypeKernel.Check
