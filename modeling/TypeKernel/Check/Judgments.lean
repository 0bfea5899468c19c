/-
# TypeKernel.Check.Judgments — the three judgments of an expression

An expression can be asked for its type (`synth`), checked against a type (`check`), or checked to
be a type (`isType`). Each judgment gives the elaborated expression, in which every binder has a
fresh name. The judgments of a form are built from those of its parts, so checking recurses on the
expression alone.

A form with only a synthesis rule is checked by comparing types, and is a type if its own type is
`U`. A form with only a checking rule has no type of its own. This module gives these fallbacks and
the comparisons that rules share.
-/
import TypeKernel.Check.Renaming
import TypeKernel.Conversion

namespace TypeKernel

set_option autoImplicit false

open Machine

/-- The judgments of an expression, in a context and under a renaming of source names. -/
structure Judgments (m : Type → Type) where
  /-- The elaborated expression and its type. -/
  synth : Context → Renaming → m (Expr × Value)
  /-- The elaborated expression, if it has the given type. -/
  check : Context → Renaming → Value → m Expr
  /-- The elaborated expression, if it is a type. -/
  isType : Context → Renaming → m Expr

/-- Annotate an expression with its type, unless it is annotated already. -/
def Expr.annotate (e type : Expr) : Expr :=
  match e with
  | .the _ _ => e
  | _ => .the type e

namespace Check

variable {m : Type → Type} [Machine m] (n : Nat)

/-- The value of an elaborated expression. -/
def valueOf (Γ : Context) (e : Expr) : m Value :=
  Γ.env.eval n e

def requireSameType (Γ : Context) (expected found : Value) : m Unit := do
  if ← sameType n Γ expected found then return ()
  else do
    let e ← readBackType n Γ expected
    let f ← readBackType n Γ found
    reject (.mismatch e f)

def requireSame (Γ : Context) (type expected found : Value) : m Unit := do
  if ← convert n Γ type expected found then return ()
  else do
    let e ← readBack n Γ type expected
    let f ← readBack n Γ type found
    reject (.mismatch e f)

/-- Reject a constructor that does not construct elements of the expected type. -/
def wrongConstructor {α : Type} (Γ : Context) (expected : Value) (e : Expr) : m α := do
  let t ← readBackType n Γ expected
  reject (.wrongConstructor t e)

/-- A source binder under a fresh name: the name, and the context and renaming of its scope. -/
def bindFresh (Γ : Context) (r : Renaming) (x : Name) (type : Value) :
    m (Name × Context × Renaming) := do
  let y ← freshName Γ x
  return (y, Γ.bindFree y type, r.extend x y)

/-- The judgments of a form with a synthesis rule. -/
def ofSynthesis (e : Expr) (rule : Context → Renaming → m (Expr × Value)) : Judgments m where
  synth Γ r := do
    report (.synthesizing e)
    rule Γ r
  check Γ r expected := do
    report (.synthesizing e)
    let (core, found) ← rule Γ r
    requireSameType n Γ expected found
    return core
  isType Γ r := do
    report (.synthesizing e)
    let (core, found) ← rule Γ r
    match ← found.force n with
    | .univ => return core
    | found => do
        let t ← readBackType n Γ found
        reject (.notAUniverse e t)

/-- The judgments of a type former: it has a synthesis rule and a rule of its own as a type. -/
def ofFormation (e : Expr) (rule : Context → Renaming → m (Expr × Value))
    (formation : Context → Renaming → m Expr) : Judgments m :=
  { ofSynthesis n e rule with isType := formation }

/-- The judgments of a constructor whose type cannot be found from its parts. -/
def ofChecking (e : Expr) (rule : Context → Renaming → Value → m Expr) : Judgments m where
  synth _ _ := reject (.undetermined e)
  check Γ r expected := do
    report (.checking e)
    rule Γ r expected
  isType _ _ := reject (.undetermined e)

/-- The judgments of a constructor that can be checked and can also find its type. -/
def ofBoth (e : Expr) (rule : Context → Renaming → m (Expr × Value))
    (checking : Context → Renaming → Value → m Expr) : Judgments m :=
  { ofSynthesis n e rule with
    check := fun Γ r expected => do
      report (.checking e)
      checking Γ r expected }

/-- The judgments of what no rule accepts. -/
def ofDefect (d : Defect) : Judgments m where
  synth _ _ := defect d
  check _ _ _ := defect d
  isType _ _ := defect d

end Check

end TypeKernel
