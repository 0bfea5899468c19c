/-
# TypeKernel.Check.Basic — checking expressions

`judge` gives the judgments of every expression, form by form, by recursion on the expression. The
number of nested requests that evaluation may use is its only bound.
-/
import TypeKernel.Check.Elimination
import TypeKernel.Check.Formation

namespace TypeKernel

set_option autoImplicit false

open Machine

variable {m : Type → Type} [Machine m] (n : Nat)

namespace Check

/-- A variable has the type of its binding; a claim does not make it usable. -/
def var (x : Name) : Judgments m :=
  ofSynthesis n (.var x) fun Γ r =>
    match Γ.lookup (r.rename x) with
    | some (.free type) => return (.var (r.rename x), type)
    | some (.definition type _) => return (.var (r.rename x), type)
    | _ => reject (.unboundVariable x)

def the (t e : Expr) (type inner : Judgments m) : Judgments m :=
  ofSynthesis n (.the t e) fun Γ r => do
    let typeCore ← type.isType Γ r
    let expected ← valueOf n Γ typeCore
    let core ← inner.check Γ r expected
    return (.the typeCore core, expected)

/-- A hole is reported with the type that is expected there. -/
def todo : Judgments m where
  synth _ _ := do
    report (.synthesizing .todo)
    reject (.incomplete none)
  check Γ _ expected := do
    report (.checking .todo)
    let t ← readBackType n Γ expected
    reject (.incomplete (some t))
  isType _ _ := reject (.incomplete (some .univ))

/-- The judgments of a form without parts. -/
def const : Const → Judgments m
  | .univ => univ n
  | .nat => ofSynthesis n (.const .nat) (constRule .nat .univ)
  | .atom => ofSynthesis n (.const .atom) (constRule .atom .univ)
  | .trivial => ofSynthesis n (.const .trivial) (constRule .trivial .univ)
  | .absurd => ofSynthesis n (.const .absurd) (constRule .absurd .univ)
  | .zero => ofSynthesis n (.const .zero) (constRule .zero .nat)
  | .sole => ofSynthesis n (.const .sole) (constRule .sole .trivial)
  | .nil => nil n
  | .vecNil => vecNil n

def unary (u : Unary) (a : Expr) (inner : Judgments m) : Judgments m :=
  match u with
  | .list => list n a inner
  | .add1 => add1 n a inner
  | .left => left n a inner
  | .right => right n a inner
  | .same => same n a inner

def binary (b : Binary) (e₁ e₂ : Expr) (first second : Judgments m) : Judgments m :=
  match b with
  | .vec => vec n e₁ e₂ first second
  | .either => either n e₁ e₂ first second
  | .cons => cons n e₁ e₂ first second
  | .listCons => listCons n e₁ e₂ first second
  | .vecCons => vecCons n e₁ e₂ first second

/-- The judgments of what is no expression, or of no known form. -/
def malformed : Malformed → Judgments m
  | .unknown => ofDefect (.noSynthesisRule .unknown)
  | item => ofDefect (.notAnExpression item)

end Check

/-- The judgments of an expression. -/
def judge : Expr → Judgments m
  | .var x => Check.var n x
  | .quote atom => Check.quote n atom
  | .const c => Check.const n c
  | .unary u e => Check.unary n u e (judge e)
  | .binary b e₁ e₂ => Check.binary n b e₁ e₂ (judge e₁) (judge e₂)
  | .equal t a b => Check.equal n t a b (judge t) (judge a) (judge b)
  | .quant q x d r => Check.quant n q x d r (judge d) (judge r)
  | .lam x b => Check.lam n x b (judge b)
  | .the t e => Check.the n t e (judge t) (judge e)
  | .app f a => Check.app n f a (judge f) (judge a)
  | .proj p t => Check.proj n p t (judge t)
  | .fold f t b s => Check.fold n f t b s (judge t) (judge b) (judge s)
  | .induct i t mo b s => Check.induct n i t mo b s (judge t) (judge mo) (judge b) (judge s)
  | .transport k t mo b => Check.transport n k t mo b (judge t) (judge mo) (judge b)
  | .indAbsurd t mo => Check.indAbsurd n t mo (judge t) (judge mo)
  | .indVec k t mo b s =>
      Check.indVec n k t mo b s (judge k) (judge t) (judge mo) (judge b) (judge s)
  | .trans a b => Check.trans n a b (judge a) (judge b)
  | .cong t f => Check.cong n t f (judge t) (judge f)
  | .todo => Check.todo n
  | .malformed item => Check.malformed item

/-- The elaborated form and the type of an expression. -/
def synthesize (Γ : Context) (e : Expr) (r : Renaming) : m (Expr × Value) :=
  (judge n e).synth Γ r

/-- The elaborated form of an expression of the given type. -/
def check (Γ : Context) (e : Expr) (expected : Value) (r : Renaming) : m Expr :=
  (judge n e).check Γ r expected

/-- The elaborated form of a type. -/
def isType (Γ : Context) (e : Expr) (r : Renaming) : m Expr :=
  (judge n e).isType Γ r

end TypeKernel
