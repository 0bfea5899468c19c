/-
# TypeKernel.ReadBack — from values back to expressions

Read-back turns a value into an expression in normal form. It looks at the type first: at `Π`, `Σ`,
`Trivial` and `Absurd` the normal form has one shape whatever the value looks like (every function
reads back as a `λ`, every pair as a `cons`). Only at other types does the value's own form
decide. Binders get names that the context does not use, so nothing is captured.

As in evaluation, the three kinds of reading call each other without bound. `ReadBack.step` does one
reading by asking for others, and `readings n` nests them at most `n` deep.
-/
import TypeKernel.Context.Fresh
import TypeKernel.Eval.Basic

namespace TypeKernel

set_option autoImplicit false

open Machine

/-- What can be read back. -/
inductive Reading where
  /-- A value at its type. -/
  | value (type v : Value)
  /-- A type. -/
  | type (v : Value)
  /-- A neutral form. -/
  | neutral (stuck : Neutral)

/-- Reading a typed value. -/
def Typed.reading : Typed → Reading
  | .mk type v => .value type v

/-- Choose a name after `hint` that the context does not bind. -/
def freshName {m : Type → Type} [Machine m] (Γ : Context) (hint : Name) : m Name :=
  numeral (Γ.fresh hint)

namespace ReadBack

variable {m : Type → Type} [Machine m] (ask : Request → m Value)
  (read : Context → Reading → m Expr)

/-- A typed value with its type as annotation, from which evaluation can rebuild the neutral form. -/
def readAnnotated (Γ : Context) : Typed → m Expr
  | .mk type v => do
      let t ← read Γ (.type type)
      let e ← read Γ (.value type v)
      return .the t e

/-- A canonical value at a type whose elements are compared by their form. -/
def readCanonical (Γ : Context) : Value → Value → m Expr
  | .nat, .zero => return .zero
  | .nat, .add1 smaller => do
      let e ← read Γ (.value .nat smaller)
      return .add1 e
  | .atom, .quote a => return .quote a
  | .list _, .nil => return .nil
  | .list entry, .listCons v vs => do
      let e ← read Γ (.value entry v)
      let es ← read Γ (.value (.list entry) vs)
      return .listCons e es
  | .vec _ _, .vecNil => return .vecNil
  | .vec entry length, .vecCons v vs => do
      match ← ask (.force length) with
      | .add1 smaller => do
          let e ← read Γ (.value entry v)
          let es ← read Γ (.value (.vec entry smaller) vs)
          return .vecCons e es
      | length => defect (.vecLength length.shape)
  | .either l _, .left v => do
      let e ← read Γ (.value l v)
      return .left e
  | .either _ r, .right v => do
      let e ← read Γ (.value r v)
      return .right e
  | .equal type _ _, .same v => do
      let e ← read Γ (.value type v)
      return .same e
  | _, v => defect (.unreadable v.shape)

/-- The name suggested for the parameter of a function: its own, or that of its type. -/
def hint (x : Name) : Value → Name
  | .lam y _ => y
  | _ => x

/-- A value at a canonical type. -/
def readElement (Γ : Context) (v : Value) : Value → m Expr
  | .univ => read Γ (.type v)
  | .pi x domain range => do
      let fn ← ask (.force v)
      let y ← freshName Γ (hint x fn)
      let result ← ask (.apply range (.ofVar y domain))
      let body ← Eval.call ask fn (.ofVar y domain)
      let e ← read (Γ.bindFree y domain) (.value result body)
      return .lam y e
  | .sigma _ domain range => do
      let a ← Eval.car ask v
      let d ← Eval.cdr ask v
      let left ← read Γ (.value domain a)
      let rest ← ask (.apply range a)
      let right ← read Γ (.value rest d)
      return .cons left right
  | .trivial => return .sole
  | .absurd => do
      match ← ask (.force v) with
      | .neutral _ stuck => do
          let e ← read Γ (.neutral stuck)
          return .the .absurd e
      | v => defect (.absurdElement v.shape)
  | type => do
      match ← ask (.force v) with
      | .neutral _ stuck => read Γ (.neutral stuck)
      | v => readCanonical ask read Γ type v

def readValue (Γ : Context) (type v : Value) : m Expr := do
  let type ← ask (.force type)
  readElement ask read Γ v type

/-- A canonical type. -/
def readFormer (Γ : Context) : Value → m Expr
  | .univ => return .univ
  | .nat => return .nat
  | .atom => return .const .atom
  | .trivial => return .const .trivial
  | .absurd => return .absurd
  | .quant q x domain range => do
      let y ← freshName Γ x
      let d ← read Γ (.type domain)
      let result ← ask (.apply range (.ofVar y domain))
      let r ← read (Γ.bindFree y domain) (.type result)
      return .quant q y d r
  | .list entry => do
      let e ← read Γ (.type entry)
      return .list e
  | .vec entry length => do
      let e ← read Γ (.type entry)
      let n ← read Γ (.value .nat length)
      return .vec e n
  | .either l r => do
      let l ← read Γ (.type l)
      let r ← read Γ (.type r)
      return .either l r
  | .equal type left right => do
      let t ← read Γ (.type type)
      let l ← read Γ (.value type left)
      let r ← read Γ (.value type right)
      return .equal t l r
  | .neutral _ stuck => read Γ (.neutral stuck)
  | v => defect (.notAType v.shape)

def readType (Γ : Context) (v : Value) : m Expr := do
  let type ← ask (.force v)
  readFormer ask read Γ type

def readNeutral (Γ : Context) : Neutral → m Expr
  | .var x => return .var x
  | .app fn arg => do
      let f ← read Γ (.neutral fn)
      let a ← read Γ arg.reading
      return .app f a
  | .proj p target => do
      let t ← read Γ (.neutral target)
      return .proj p t
  | .fold f target base step => do
      let t ← read Γ (.neutral target)
      let b ← readAnnotated read Γ base
      let s ← read Γ step.reading
      return .fold f t b s
  | .induct i target motive base step => do
      let t ← read Γ (.neutral target)
      let mo ← read Γ motive.reading
      let b ← read Γ base.reading
      let s ← read Γ step.reading
      return .induct i t mo b s
  | .transport k target motive base => do
      let t ← read Γ (.neutral target)
      let mo ← read Γ motive.reading
      let b ← read Γ base.reading
      return .transport k t mo b
  | .indAbsurd target (.mk _ motive) => do
      let t ← read Γ (.neutral target)
      let mo ← read Γ (.type motive)
      return .indAbsurd (.the .absurd t) mo
  | .indVec length target motive base step => do
      let n ← read Γ length.reading
      let t ← read Γ (.neutral target)
      let mo ← read Γ motive.reading
      let b ← read Γ base.reading
      let s ← read Γ step.reading
      return .indVec n t mo b s
  | .trans left right => do
      let l ← read Γ left.reading
      let r ← read Γ right.reading
      return .trans l r
  | .cong target fn => do
      let t ← read Γ (.neutral target)
      let f ← readAnnotated read Γ fn
      return .cong t f

/-- Do one reading by asking for others. -/
def step (Γ : Context) : Reading → m Expr
  | .value type v => readValue ask read Γ type v
  | .type v => readType ask read Γ v
  | .neutral stuck => readNeutral read Γ stuck

end ReadBack

variable {m : Type → Type} [Machine m]

/-- Read back, with readings nested at most `n` deep. -/
def readings : Nat → Context → Reading → m Expr
  | 0, _, _ => stop .exhausted
  | n + 1, Γ, reading => ReadBack.step (run n) (readings n) Γ reading

/-- The normal form of a value at a type. -/
def readBack (n : Nat) (Γ : Context) (type v : Value) : m Expr :=
  readings n Γ (.value type v)

def readBackType (n : Nat) (Γ : Context) (v : Value) : m Expr :=
  readings n Γ (.type v)

def readBackNeutral (n : Nat) (Γ : Context) (stuck : Neutral) : m Expr :=
  readings n Γ (.neutral stuck)

/-- The normal forms of a type and of a value at it. -/
def normalize (n : Nat) (Γ : Context) (type v : Value) : m (Expr × Expr) := do
  let t ← readBackType n Γ type
  let e ← readBack n Γ type v
  return (t, e)

end TypeKernel
