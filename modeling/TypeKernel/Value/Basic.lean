/-
# TypeKernel.Value.Basic — values, environments and closures

Evaluation turns expressions into values. A value is canonical, stuck on a free variable
(`neutral`, with its type), or `delayed`: an expression that has not been needed yet, with its
environment. A delayed value also names the memo cell that will hold its result. All copies of a
delayed value name the same cell, so they all see one result.

Closures are data. `code` is the body of a binder with its environment. `family` is a type
computed from values without an expression of its own; the types of eliminator arguments are built
from these.
-/
import TypeKernel.Expr.Basic

namespace TypeKernel

set_option autoImplicit false

mutual

/-- Values. -/
inductive Value where
  | const (c : Const)
  | quote (atom : String)
  | unary (u : Unary) (v : Value)
  | binary (b : Binary) (v₁ v₂ : Value)
  | equal (type left right : Value)
  | quant (q : Quantifier) (x : Name) (domain : Value) (range : Closure)
  | lam (x : Name) (body : Closure)
  | neutral (type : Value) (stuck : Neutral)
  | delayed (cell : Nat) (env : Env) (e : Expr)

/-- Eliminators whose target is stuck on a free variable. Every other argument carries the type at
which it reads back. -/
inductive Neutral where
  | var (x : Name)
  | app (fn : Neutral) (arg : Typed)
  | proj (p : Projection) (target : Neutral)
  | fold (f : Fold) (target : Neutral) (base step : Typed)
  | induct (i : Induction) (target : Neutral) (motive base step : Typed)
  | transport (k : Transport) (target : Neutral) (motive base : Typed)
  | indAbsurd (target : Neutral) (motive : Typed)
  | indVec (length : Typed) (target : Neutral) (motive base step : Typed)
  | trans (left right : Typed)
  | cong (target : Neutral) (fn : Typed)

/-- A value with its type. -/
inductive Typed where
  | mk (type value : Value)

/-- Functions from values to values. -/
inductive Closure where
  | code (env : Env) (x : Name) (body : Expr)
  | family (x : Name) (f : Family)

/-- Types that depend on one value: the ranges of the function types that eliminators ask of their
motives and steps. `motive` is always a function into `U`. -/
inductive Family where
  /-- The same type for every value. -/
  | always (type : Value)
  /-- The motive at a value fixed beforehand. -/
  | fixed (motive v : Value)
  /-- The motive at two values fixed beforehand. -/
  | fixedBoth (motive v w : Value)
  /-- The motive at the value wrapped in a constructor. -/
  | wrapped (u : Unary) (motive : Value)
  /-- Given a number, from the motive there to the motive at its successor. -/
  | natStep (motive : Value)
  /-- Given an entry, and then a list, from the motive there to the motive at the longer list. -/
  | listStep (entry motive : Value)
  | listStepTail (motive head : Value)
  /-- Given a length, the functions from vectors of that length into `U`. -/
  | vecMotive (entry : Value)
  /-- Given a length, an entry and a vector, from the motive there to the motive at the longer
  vector. -/
  | vecStep (entry motive : Value)
  | vecStepHead (entry motive length : Value)
  | vecStepTail (motive length head : Value)
  /-- Given an endpoint, the functions from proofs of equality with `left` into `U`. -/
  | equalMotive (type left : Value)

/-- Values of variables, nearest binding last. -/
inductive Env where
  | empty
  | extend (outer : Env) (x : Name) (v : Value)

end

namespace Value

@[match_pattern] abbrev univ : Value := .const .univ
@[match_pattern] abbrev nat : Value := .const .nat
@[match_pattern] abbrev atom : Value := .const .atom
@[match_pattern] abbrev trivial : Value := .const .trivial
@[match_pattern] abbrev absurd : Value := .const .absurd
@[match_pattern] abbrev zero : Value := .const .zero
@[match_pattern] abbrev nil : Value := .const .nil
@[match_pattern] abbrev vecNil : Value := .const .vecNil

@[match_pattern] abbrev list (v : Value) : Value := .unary .list v
@[match_pattern] abbrev add1 (v : Value) : Value := .unary .add1 v
@[match_pattern] abbrev left (v : Value) : Value := .unary .left v
@[match_pattern] abbrev right (v : Value) : Value := .unary .right v
@[match_pattern] abbrev same (v : Value) : Value := .unary .same v

@[match_pattern] abbrev vec (e n : Value) : Value := .binary .vec e n
@[match_pattern] abbrev either (l r : Value) : Value := .binary .either l r
@[match_pattern] abbrev cons (a d : Value) : Value := .binary .cons a d
@[match_pattern] abbrev listCons (e es : Value) : Value := .binary .listCons e es
@[match_pattern] abbrev vecCons (e es : Value) : Value := .binary .vecCons e es

@[match_pattern] abbrev pi (x : Name) (domain : Value) (range : Closure) : Value :=
  .quant .pi x domain range
@[match_pattern] abbrev sigma (x : Name) (domain : Value) (range : Closure) : Value :=
  .quant .sigma x domain range

/-- The free variable `x` of the given type. -/
abbrev ofVar (x : Name) (type : Value) : Value :=
  .neutral type (.var x)

/-- The function type from `domain` into a family. -/
abbrev piFamily (x : Name) (domain : Value) (range : Family) : Value :=
  .pi x domain (.family x range)

end Value

/-- The head form of a value; what an error says about the value at fault. -/
inductive Shape where
  | const (c : Const)
  | quote
  | unary (u : Unary)
  | binary (b : Binary)
  | equal
  | quant (q : Quantifier)
  | lam
  | neutral
  | delayed
  deriving DecidableEq, Repr

def Value.shape : Value → Shape
  | .const c => .const c
  | .quote _ => .quote
  | .unary u _ => .unary u
  | .binary b _ _ => .binary b
  | .equal _ _ _ => .equal
  | .quant q _ _ _ => .quant q
  | .lam _ _ => .lam
  | .neutral _ _ => .neutral
  | .delayed _ _ _ => .delayed

namespace Env

/-- The value of the nearest binding of a name. -/
def get? : Env → Name → Option Value
  | .empty, _ => none
  | .extend outer y v, x => if y = x then some v else outer.get? x

@[simp] theorem get?_empty (x : Name) : Env.empty.get? x = none := rfl

@[simp] theorem get?_extend_self (ρ : Env) (x : Name) (v : Value) :
    (ρ.extend x v).get? x = some v := by
  simp [get?]

theorem get?_extend_of_ne {x y : Name} (ρ : Env) (v : Value) (h : y ≠ x) :
    (ρ.extend y v).get? x = ρ.get? x := by
  simp [get?, h]

/-- The bindings, nearest first. -/
def toList : Env → List (Name × Value)
  | .empty => []
  | .extend outer x v => (x, v) :: outer.toList

/-- The bound names, nearest first and with repetitions. -/
def names (ρ : Env) : List Name :=
  ρ.toList.map Prod.fst

/-- How many bindings there are from the nearest one of a name to the outermost of all. -/
def depth? : Env → Name → Option Nat
  | .empty, _ => none
  | .extend outer y v, x =>
      if y = x then some (Env.extend outer y v).toList.length else outer.depth? x

end Env

end TypeKernel
