/-
# TypeKernel.Check.Introduction — rules of the constructors

A constructor is checked against a type of the form that it constructs. Numbers, atoms and `sole`
also show their type themselves, and so does a nonempty list through its first entry.
-/
import TypeKernel.Atom
import TypeKernel.Check.Judgments

namespace TypeKernel.Check

set_option autoImplicit false

open Machine

variable {m : Type → Type} [Machine m] (n : Nat)

/-- Insist that the length of a vector type is a successor, and give its predecessor. -/
def nonemptyLength (Γ : Context) (what : String) (entry length : Value) : m Value := do
  match ← length.force n with
  | .add1 smaller => return smaller
  | _ => do
      let t ← readBackType n Γ (.vec entry length)
      reject (.maybeEmpty what t)

def lam (x : Name) (b : Expr) (body : Judgments m) : Judgments m :=
  ofChecking (.lam x b) fun Γ r expected => do
    match ← expected.force n with
    | .pi _ domain range => do
        let (y, Γ', r') ← bindFresh Γ r x domain
        let type ← range.apply n (.ofVar y domain)
        let core ← body.check Γ' r' type
        return .lam y core
    | expected => wrongConstructor n Γ expected (.lam x b)

def cons (a d : Expr) (first second : Judgments m) : Judgments m :=
  ofChecking (.cons a d) fun Γ r expected => do
    match ← expected.force n with
    | .sigma _ domain range => do
        let firstCore ← first.check Γ r domain
        let v ← valueOf n Γ firstCore
        let type ← range.apply n v
        let secondCore ← second.check Γ r type
        return .cons firstCore secondCore
    | expected => wrongConstructor n Γ expected (.cons a d)

def add1 (a : Expr) (smaller : Judgments m) : Judgments m :=
  ofSynthesis n (.add1 a) fun Γ r => do
    let core ← smaller.check Γ r .nat
    return (.add1 core, .nat)

def quote (atom : String) : Judgments m :=
  ofSynthesis n (.quote atom) fun _ _ =>
    if isAtom atom then return (.quote atom, .atom) else reject (.invalidAtom atom)

def nil : Judgments m :=
  ofChecking .nil fun Γ _ expected => do
    match ← expected.force n with
    | .list _ => return .nil
    | expected => wrongConstructor n Γ expected .nil

def listCons (a d : Expr) (head tail : Judgments m) : Judgments m :=
  ofBoth n (.listCons a d)
    (fun Γ r => do
      let (headCore, entry) ← head.synth Γ r
      let tailCore ← tail.check Γ r (.list entry)
      return (.listCons headCore tailCore, .list entry))
    (fun Γ r expected => do
      match ← expected.force n with
      | .list entry => do
          let headCore ← head.check Γ r entry
          let tailCore ← tail.check Γ r (.list entry)
          return .listCons headCore tailCore
      | expected => wrongConstructor n Γ expected (.listCons a d))

def vecNil : Judgments m :=
  ofChecking .vecNil fun Γ _ expected => do
    match ← expected.force n with
    | .vec _ length => do
        requireSame n Γ .nat .zero length
        return .vecNil
    | expected => wrongConstructor n Γ expected .vecNil

def vecCons (a d : Expr) (head tail : Judgments m) : Judgments m :=
  ofChecking (.vecCons a d) fun Γ r expected => do
    match ← expected.force n with
    | .vec entry length => do
        let smaller ← nonemptyLength n Γ "vec::" entry length
        let headCore ← head.check Γ r entry
        let tailCore ← tail.check Γ r (.vec entry smaller)
        return .vecCons headCore tailCore
    | expected => wrongConstructor n Γ expected (.vecCons a d)

def left (a : Expr) (inner : Judgments m) : Judgments m :=
  ofChecking (.left a) fun Γ r expected => do
    match ← expected.force n with
    | .either l _ => do
        let core ← inner.check Γ r l
        return .left core
    | expected => wrongConstructor n Γ expected (.left a)

def right (a : Expr) (inner : Judgments m) : Judgments m :=
  ofChecking (.right a) fun Γ r expected => do
    match ← expected.force n with
    | .either _ t => do
        let core ← inner.check Γ r t
        return .right core
    | expected => wrongConstructor n Γ expected (.right a)

def same (a : Expr) (inner : Judgments m) : Judgments m :=
  ofChecking (.same a) fun Γ r expected => do
    match ← expected.force n with
    | .equal type start finish => do
        let core ← inner.check Γ r type
        let v ← valueOf n Γ core
        requireSame n Γ type start v
        requireSame n Γ type v finish
        return .same core
    | expected => wrongConstructor n Γ expected (.same a)

end TypeKernel.Check
