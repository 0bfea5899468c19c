/-
# TypeKernel.Toplevel — declarations

The top level processes declarations one at a time against a growing context: claims, definitions,
checks that two expressions are the same, and requests for a normal form. A rejected declaration is
reported with its position and leaves the context as it was; the next one is processed as if it had
never been tried. A defect is no verdict on the declaration and ends the run.
-/
import TypeKernel.Entry
import TypeKernel.Machine.ByNeed

namespace TypeKernel

set_option autoImplicit false

open Machine

/-- What can be declared. -/
inductive Declaration where
  | claim (x : Name) (type : Expr)
  | define (x : Name) (e : Expr)
  | checkSame (type left right : Expr)
  | normalize (e : Expr)
  | malformed (text : String)
  deriving DecidableEq, Repr

/-- A declaration with the position that its front end gives it. -/
structure Statement where
  declaration : Declaration
  location : Option Location
  deriving DecidableEq, Repr

/-- What becomes of a declaration: its result if it has one, or why it is rejected. -/
inductive Outcome where
  | accepted (result : Option Expr)
  | rejected (reason : Rejection) (location : Option Location)
  deriving DecidableEq, Repr

def Outcome.isAccepted : Outcome → Bool
  | .accepted _ => true
  | .rejected _ _ => false

section

variable {m : Type → Type} [Machine m] (n : Nat)

/-- Record the type of a name that will be defined later. -/
def claim (Γ : Context) (x : Name) (type : Expr) : m Context := do
  if (Γ.lookup x).isSome then reject (.nameInUse x)
  else do
    let core ← isType n Γ type .empty
    let t ← Γ.env.eval n core
    report (.claimed x core)
    return Γ.bindClaim x t

/-- The elaborated form, type and value of a definition. It is checked against its claim if there is
one. -/
def defining (Γ : Context) (x : Name) (e : Expr) : m (Expr × Value) :=
  match Γ.lookup x with
  | none => synthesize n Γ e .empty
  | some (.claim type) => do
      let core ← check n Γ e type .empty
      return (core, type)
  | some _ => reject (.nameInUse x)

def define (Γ : Context) (x : Name) (e : Expr) : m (Context × Expr) := do
  let (core, type) ← defining n Γ x e
  let v ← Γ.env.eval n core
  report (.defined x)
  return (Γ.bindDefinition x type v, core)

/-- Insist that two expressions are the same element of a type. -/
def checkSame (Γ : Context) (type left right : Expr) : m Unit := do
  let t ← typeValue n Γ type
  let l ← valueAt n Γ left t
  let r ← valueAt n Γ right t
  Check.requireSame n Γ t l r

/-- The normal form of an expression, annotated with the normal form of its type. -/
def rep (Γ : Context) (e : Expr) : m Expr := do
  let (core, type) ← synthesize n Γ e .empty
  let v ← Γ.env.eval n core
  let (typeForm, form) ← normalize n Γ type v
  return .the typeForm form

def normType (Γ : Context) (type : Expr) : m Expr := do
  let v ← typeValue n Γ type
  let (_, form) ← normalize n Γ .univ v
  return form

/-- Process a declaration: the context after it, and its result. -/
def process (Γ : Context) : Declaration → m (Context × Option Expr)
  | .claim x type => do
      let Γ' ← claim n Γ x type
      return (Γ', none)
  | .define x e => do
      let (Γ', core) ← define n Γ x e
      return (Γ', some core)
  | .checkSame type left right => do
      checkSame n Γ type left right
      return (Γ, none)
  | .normalize e => do
      let form ← rep n Γ e
      return (Γ, some form)
  | .malformed text => defect (.notADeclaration text)

/-- Process a statement. A rejection is an outcome like any other. -/
def submit (Γ : Context) (s : Statement) : m (Context × Outcome) := do
  match ← attempt (process n Γ s.declaration) with
  | .ok (Γ', result) => return (Γ', .accepted result)
  | .error (.failed (.rejection reason)) => do
      report (.rejected s.location reason)
      return (Γ, .rejected reason s.location)
  | .error reason => stop reason

/-- Process statements in order: the context after them, and one outcome for each. -/
def submitAll (Γ : Context) : List Statement → m (Context × List Outcome)
  | [] => return (Γ, [])
  | s :: rest => do
      let (Γ', outcome) ← submit n Γ s
      let (Γ'', outcomes) ← submitAll Γ' rest
      return (Γ'', outcome :: outcomes)

end

/-- A top level that evaluates by need: its context, and the cells that its values share. -/
structure Toplevel where
  context : Context
  session : Session

namespace Toplevel

/-- Run a computation in the context of a top level, which it does not change. -/
def perform {α : Type} (t : Toplevel) (x : Context → ByNeed α) : Except Stop α × Toplevel :=
  match x t.context t.session with
  | .ok a session => (.ok a, { t with session })
  | .error reason session => (.error reason, { t with session })

/-- Process a statement. When it ends in a defect the context stays as it was. -/
def submit (n : Nat) (t : Toplevel) (s : Statement) : Except Stop Outcome × Toplevel :=
  match (TypeKernel.submit n t.context s : ByNeed _) t.session with
  | .ok (context, outcome) session => (.ok outcome, ⟨context, session⟩)
  | .error reason session => (.error reason, ⟨t.context, session⟩)

def normType (n : Nat) (t : Toplevel) (type : Expr) : Except Stop Expr × Toplevel :=
  t.perform fun Γ => TypeKernel.normType n Γ type

end Toplevel

end TypeKernel
