/-
# TypeKernel.Eval.Request — what evaluation is asked for

Evaluating, forcing, applying a closure and running a recursive eliminator call each other without
bound. Each such call is a `Request`, and every request is answered by a value. The rules below are
written against a function `ask` that answers requests; `Eval.Basic` ties the knot.

This module also names the types that eliminators ask of their motives and steps.
-/
import TypeKernel.Machine.Basic

namespace TypeKernel

set_option autoImplicit false

/-- What can be asked of evaluation. -/
inductive Request where
  /-- The value of an expression in an environment. -/
  | eval (env : Env) (e : Expr)
  /-- The canonical or neutral form of a value. -/
  | force (v : Value)
  /-- The value of a closure at an argument. -/
  | apply (c : Closure) (v : Value)
  /-- The value of a fold; the type of its base is known if the base was annotated. -/
  | fold (f : Fold) (target : Value) (baseType : Option Value) (base step : Value)
  /-- The value of an induction. -/
  | induct (i : Induction) (target motive base step : Value)
  /-- The value of an induction over a vector of the given length. -/
  | indVec (length target motive base step : Value)

namespace Value

/-- The step of a number fold that gives `base` values. -/
def whichNatStep (base : Value) : Value :=
  piFamily "n" nat (.always base)

def iterNatStep (base : Value) : Value :=
  piFamily "x" base (.always base)

def recNatStep (base : Value) : Value :=
  piFamily "n" nat (.always (piFamily "x" base (.always base)))

/-- The step of a list fold over entries of the given type. -/
def recListStep (entry base : Value) : Value :=
  piFamily "e" entry (.always
    (piFamily "es" (list entry) (.always (piFamily "ih" base (.always base)))))

/-- Predicates on numbers. -/
def natMotive : Value :=
  piFamily "x" nat (.always univ)

def indNatStep (motive : Value) : Value :=
  piFamily "n-1" nat (.natStep motive)

/-- Predicates on lists. -/
def listMotive (entry : Value) : Value :=
  piFamily "xs" (list entry) (.always univ)

def indListStep (entry motive : Value) : Value :=
  piFamily "e" entry (.listStep entry motive)

/-- Predicates on vectors of any length. -/
def vecMotive (entry : Value) : Value :=
  piFamily "k" nat (.vecMotive entry)

def indVecStep (entry motive : Value) : Value :=
  piFamily "k" nat (.vecStep entry motive)

/-- Predicates on the elements of a type, named `x`. -/
def simpleMotive (type : Value) : Value :=
  piFamily "x" type (.always univ)

/-- The case of an `Either` for one of its constructors. -/
def eitherCase (u : Unary) (type motive : Value) : Value :=
  piFamily "x" type (.wrapped u motive)

/-- Predicates on an endpoint and a proof that it equals `left`. -/
def equalMotive (type left : Value) : Value :=
  piFamily "to" type (.equalMotive type left)

end Value

end TypeKernel
