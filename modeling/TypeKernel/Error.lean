/-
# TypeKernel.Error — why a computation fails

A `Rejection` is a judgment's verdict that an expression is not acceptable. A `Defect` says that
the input was malformed or was never accepted by a judgment, so no rule applies to it. Each cause is
a constructor; `message` gives the wording, and `fields` the parts of a rejection by name.
-/
import TypeKernel.Expr.Printer
import TypeKernel.Text.Numeral
import TypeKernel.Value.Record

namespace TypeKernel

set_option autoImplicit false

/-- The eliminators, as errors name them. -/
inductive Eliminator where
  | application
  | proj (p : Projection)
  | fold (f : Fold)
  | induct (i : Induction)
  | transport (k : Transport)
  | indAbsurd
  | indVec
  | trans
  | cong
  deriving DecidableEq, Repr

def Eliminator.word : Eliminator → String
  | .application => "application"
  | .proj p => p.word
  | .fold f => f.word
  | .induct i => i.word
  | .transport k => k.word
  | .indAbsurd => "ind-Absurd"
  | .indVec => "ind-Vec"
  | .trans => "trans"
  | .cong => "cong"

/-- The head of the type that an eliminator's target must have. -/
inductive TypeHead where
  | nat | absurd | list | vec | either | equal | pi
  deriving DecidableEq, Repr

def TypeHead.word : TypeHead → String
  | .nat => "Nat"
  | .absurd => "Absurd"
  | .list => "List"
  | .vec => "Vec"
  | .either => "Either"
  | .equal => "="
  | .pi => "Π"

/-- Failures of input that no judgment has accepted. -/
inductive Defect where
  /-- Something that is no expression was given to a judgment. -/
  | notAnExpression (m : Malformed)
  /-- A judgment met an unknown form. -/
  | noSynthesisRule (m : Malformed)
  /-- Evaluation met something that it has no rule for. -/
  | noEvaluationRule (m : Malformed)
  /-- Evaluation met a variable without a value. -/
  | unboundLookup (x : Name)
  /-- An eliminator met a value that it cannot take apart. -/
  | irreducible (eliminator : Eliminator) (shape : Shape)
  /-- An eliminator is stuck and does not know the type of its base. -/
  | untypedBase (eliminator : Eliminator)
  /-- A value is not canonical at its type. -/
  | unreadable (shape : Shape)
  /-- A value is not a type. -/
  | notAType (shape : Shape)
  /-- A canonical value stands at type `Absurd`. -/
  | absurdElement (shape : Shape)
  /-- A nonempty vector stands at a length that is not a successor. -/
  | vecLength (shape : Shape)
  /-- Something other than a name was to be bound. -/
  | notAName (text : String)
  /-- An unknown form has no parts to look at. -/
  | noParts
  /-- Something that is no declaration was given to the top level. -/
  | notADeclaration (text : String)
  /-- The subscript of a name is too long. -/
  | numeral (e : Text.NumeralError)
  deriving DecidableEq, Repr

/-- The wording of a defect. -/
def Defect.message : Defect → String
  | .notAnExpression m => "Not a core expression: " ++ m.label
  | .noSynthesisRule m => "No synthesis rule for " ++ m.label
  | .noEvaluationRule m => "No evaluation rule for " ++ m.label
  | .unboundLookup x => "Cannot lookup unbound variable " ++ x
  | .irreducible e s => e.word ++ " cannot reduce " ++ s.tag
  | .untypedBase e =>
      e.word ++ " on a neutral target needs a `the`-annotated base; evaluate elaborated core"
  | .unreadable s => "Cannot read back " ++ s.tag
  | .notAType s => "Not a type: " ++ s.tag
  | .absurdElement s => "A value of type Absurd must be neutral, got " ++ s.tag
  | .vecLength s => "vec:: at a length without add1 on top: " ++ s.tag
  | .notAName text => "Cannot bind " ++ Text.quoted text ++ ": not a symbol"
  | .noParts => "must be called with a dataclass type or instance"
  | .notADeclaration text => "Not a declaration: " ++ Text.quoted text
  | .numeral e => e.message

/-- Verdicts that an expression is not acceptable. -/
inductive Rejection where
  /-- A variable that is not in scope. -/
  | unboundVariable (x : Name)
  /-- The target of an eliminator has a type of another head. -/
  | wrongTarget (eliminator : Eliminator) (expected : TypeHead) (found : Expr)
  /-- Something that is not a function is applied. -/
  | notAFunction (found : Expr)
  /-- Something that is not a pair is projected. -/
  | notAPair (p : Projection) (found : Expr)
  /-- Something that is not a type stands in the place of one. -/
  | notAUniverse (e found : Expr)
  /-- Two types or two values that should be the same are not. -/
  | mismatch (expected found : Expr)
  /-- A constructor is checked against a type that it does not construct. -/
  | wrongConstructor (expected e : Expr)
  /-- A vector that must not be empty may be. -/
  | maybeEmpty (what : String) (found : Expr)
  /-- A function type that must not be dependent is. -/
  | dependentFunction (found : Expr)
  /-- A name is taken. -/
  | nameInUse (x : Name)
  /-- A hole, with the type expected there if one is known. -/
  | incomplete (expected : Option Expr)
  /-- The type of an expression cannot be found from the expression alone. -/
  | undetermined (e : Expr)
  /-- A quoted atom is not made of letters and hyphens. -/
  | invalidAtom (atom : String)
  /-- The universe is asked for its type. -/
  | universeUntyped
  deriving DecidableEq, Repr

/-- What a rejection calls a constructor. -/
def constructorPhrase : Expr → String
  | .lam _ _ => "A λ-expression"
  | .cons _ _ => "A cons-pair"
  | .nil => "nil"
  | .listCons _ _ => "A ::-expression"
  | .vecNil => "vecnil"
  | .vecCons _ _ => "A vec::-expression"
  | .left _ => "A left-expression"
  | .right _ => "A right-expression"
  | .same _ => "A same-expression"
  | e => e.render

/-- The wording shared by all mismatches between a target and its eliminator. -/
def targetMessage (eliminator expected found : String) : String :=
  eliminator ++ " expected a target of type " ++ expected ++ ", but its type is " ++ found

def Rejection.message : Rejection → String
  | .unboundVariable x => "Unknown variable " ++ x
  | .wrongTarget e expected found => targetMessage e.word expected.word found.render
  | .notAFunction found => targetMessage Eliminator.application.word "Π" found.render
  | .notAPair p found => targetMessage p.word "Σ" found.render
  | .notAUniverse e found => "Expected U, but " ++ e.render ++ " has type " ++ found.render
  | .mismatch expected found => "Expected " ++ expected.render ++ ", but got " ++ found.render
  | .wrongConstructor expected e =>
      constructorPhrase e ++ " cannot be checked against " ++ expected.render
  | .maybeEmpty what found => what ++ " requires a non-empty Vec, but got " ++ found.render
  | .dependentFunction found =>
      "cong expects a non-dependent function type, but got " ++ found.render
  | .nameInUse x => "The name " ++ x ++ " is already in use"
  | .incomplete none => "TODO: incomplete term"
  | .incomplete (some type) => "TODO: incomplete term of type " ++ type.render
  | .undetermined e => "Can't determine a type for " ++ e.render ++ "; add a `the`"
  | .invalidAtom atom => "Invalid atom: '" ++ atom
  | .universeUntyped => "U is a type, but it does not have a type"

/-- The parts of a rejection, each with its name. -/
def Rejection.fields : Rejection → List (String × String)
  | .unboundVariable x => [("name", x)]
  | .wrongTarget e expected found =>
      [("eliminator", e.word), ("expected", expected.word), ("found", found.render)]
  | .notAFunction found =>
      [("eliminator", Eliminator.application.word), ("expected", "Π"), ("found", found.render)]
  | .notAPair p found => [("eliminator", p.word), ("expected", "Σ"), ("found", found.render)]
  | .notAUniverse e found => [("expr", e.render), ("found", found.render)]
  | .mismatch expected found => [("expected", expected.render), ("found", found.render)]
  | .wrongConstructor expected e => [("expected", expected.render), ("found", e.render)]
  | .maybeEmpty _ found =>
      [("expected", "a Vec whose length is an add1"), ("found", found.render)]
  | .dependentFunction found =>
      [("expected", "a non-dependent function type"), ("found", found.render)]
  | .nameInUse x => [("name", x)]
  | .incomplete none => []
  | .incomplete (some type) => [("expected", type.render)]
  | .undetermined e => [("expr", e.render)]
  | .invalidAtom atom => [("atom", atom)]
  | .universeUntyped => []

/-- Why a computation fails. -/
inductive Error where
  | defect (d : Defect)
  | rejection (r : Rejection)
  deriving DecidableEq, Repr

def Error.message : Error → String
  | .defect d => d.message
  | .rejection r => r.message

/-- Why a computation stops without a result: it fails, or it has used up the steps it was given. -/
inductive Stop where
  | exhausted
  | failed (e : Error)
  deriving DecidableEq, Repr

end TypeKernel
