/-
# TypeKernel.Expr.Basic — expressions

The expressions of the language, with names for variables. Forms that differ only in their head
share one constructor: the head is an enumeration of its own (`Const`, `Unary`, `Fold`, …), so a
traversal treats a whole group at once and a rule still matches one form (`.add1 n`,
`.recNat t b s`) through the patterns below.

Two constructors bind: `quant` and `lam` bind their name in their last part. `malformed`
holds what a broken front end may put where an expression belongs; no rule accepts it.
-/

namespace TypeKernel

set_option autoImplicit false

/-- Names of variables and binders, compared as texts. -/
abbrev Name := String

/-- Canonical forms without parts. -/
inductive Const where
  | univ | nat | atom | trivial | absurd | zero | sole | nil | vecNil
  deriving DecidableEq, Repr

/-- Canonical forms with one part. -/
inductive Unary where
  | list | add1 | left | right | same
  deriving DecidableEq, Repr

/-- Canonical forms with two parts. -/
inductive Binary where
  | vec | either | cons | listCons | vecCons
  deriving DecidableEq, Repr

/-- The binding type formers. -/
inductive Quantifier where
  | pi | sigma
  deriving DecidableEq, Repr

/-- Eliminators that take a target alone. -/
inductive Projection where
  | car | cdr | head | tail | symm
  deriving DecidableEq, Repr

/-- Eliminators into one fixed type, with a base and a step. -/
inductive Fold where
  | whichNat | iterNat | recNat | recList
  deriving DecidableEq, Repr

/-- Eliminators with a motive and two cases. -/
inductive Induction where
  | indNat | indList | indEither
  deriving DecidableEq, Repr

/-- Eliminators of equality with a motive and a base. -/
inductive Transport where
  | replace | indEqual
  deriving DecidableEq, Repr

/-- What may stand in the place of an expression without being one. `unknown` is an expression of
a kind that no rule knows. -/
inductive Malformed where
  | int (n : Int)
  | text (s : String)
  | unknown
  deriving DecidableEq, Repr

/-- Expressions. -/
inductive Expr where
  | var (x : Name)
  | quote (atom : String)
  | const (c : Const)
  | unary (u : Unary) (e : Expr)
  | binary (b : Binary) (e₁ e₂ : Expr)
  | equal (type left right : Expr)
  | quant (q : Quantifier) (x : Name) (domain range : Expr)
  | lam (x : Name) (body : Expr)
  | the (type e : Expr)
  | app (fn arg : Expr)
  | proj (p : Projection) (target : Expr)
  | fold (f : Fold) (target base step : Expr)
  | induct (i : Induction) (target motive base step : Expr)
  | transport (k : Transport) (target motive base : Expr)
  | indAbsurd (target motive : Expr)
  | indVec (length target motive base step : Expr)
  | trans (left right : Expr)
  | cong (target fn : Expr)
  | todo
  | malformed (m : Malformed)
  deriving DecidableEq, Repr

namespace Expr

@[match_pattern] abbrev univ : Expr := .const .univ
@[match_pattern] abbrev nat : Expr := .const .nat
@[match_pattern] abbrev absurd : Expr := .const .absurd
@[match_pattern] abbrev zero : Expr := .const .zero
@[match_pattern] abbrev sole : Expr := .const .sole
@[match_pattern] abbrev nil : Expr := .const .nil
@[match_pattern] abbrev vecNil : Expr := .const .vecNil

@[match_pattern] abbrev list (e : Expr) : Expr := .unary .list e
@[match_pattern] abbrev add1 (e : Expr) : Expr := .unary .add1 e
@[match_pattern] abbrev left (e : Expr) : Expr := .unary .left e
@[match_pattern] abbrev right (e : Expr) : Expr := .unary .right e
@[match_pattern] abbrev same (e : Expr) : Expr := .unary .same e

@[match_pattern] abbrev vec (e n : Expr) : Expr := .binary .vec e n
@[match_pattern] abbrev either (l r : Expr) : Expr := .binary .either l r
@[match_pattern] abbrev cons (a d : Expr) : Expr := .binary .cons a d
@[match_pattern] abbrev listCons (e es : Expr) : Expr := .binary .listCons e es
@[match_pattern] abbrev vecCons (e es : Expr) : Expr := .binary .vecCons e es

@[match_pattern] abbrev pi (x : Name) (domain range : Expr) : Expr := .quant .pi x domain range
@[match_pattern] abbrev sigma (x : Name) (domain range : Expr) : Expr :=
  .quant .sigma x domain range

/-- The numeral of `n`: that many `add1`s around `zero`. -/
def numeral : Nat → Expr
  | 0 => .zero
  | n + 1 => .add1 (numeral n)

end Expr

/-- A negative number has no numeral. -/
structure NegativeNumeral where
  value : Int
  deriving DecidableEq, Repr

def NegativeNumeral.message (e : NegativeNumeral) : String :=
  "Natural numbers are non-negative, got " ++ toString e.value

/-- The numeral of an integer, if it is not negative. -/
def Expr.ofInt : Int → Except NegativeNumeral Expr
  | .ofNat n => .ok (numeral n)
  | .negSucc n => .error ⟨.negSucc n⟩

end TypeKernel
