/-
# TypeKernel.Context.Basic — typing contexts

A context lists the names in scope, newest first: variables of enclosing binders (`free`),
definitions, and claims that wait for a definition. Names may repeat and the newest binding of a
name counts. The environment of a context gives free variables themselves as values and
definitions their values; a claim is not visible to evaluation.
-/
import TypeKernel.Value.Basic

namespace TypeKernel

set_option autoImplicit false

/-- What a context knows of a name. -/
inductive Binding where
  | free (type : Value)
  | definition (type value : Value)
  | claim (type : Value)

def Binding.type : Binding → Value
  | .free type => type
  | .definition type _ => type
  | .claim type => type

def Binding.isClaim : Binding → Bool
  | .claim _ => true
  | _ => false

/-- Names in scope with their bindings, newest first. -/
structure Context where
  bindings : List (Name × Binding)

namespace Context

def empty : Context := ⟨[]⟩

/-- Bind a variable of the given type. -/
def bindFree (Γ : Context) (x : Name) (type : Value) : Context :=
  ⟨(x, .free type) :: Γ.bindings⟩

/-- Claim a name at the given type. -/
def bindClaim (Γ : Context) (x : Name) (type : Value) : Context :=
  ⟨(x, .claim type) :: Γ.bindings⟩

/-- Define a name. The definition takes the place of every claim of that name. -/
def bindDefinition (Γ : Context) (x : Name) (type value : Value) : Context :=
  ⟨(x, .definition type value) :: Γ.bindings.filter fun (y, b) => !(y == x && b.isClaim)⟩

/-- The newest binding of a name. -/
def lookup (Γ : Context) (x : Name) : Option Binding :=
  Γ.bindings.lookup x

/-- The bound names, newest first and with repetitions. -/
def names (Γ : Context) : List Name :=
  Γ.bindings.map Prod.fst

/-- The bound names without repetitions, in the order of their code points. -/
def sortedNames (Γ : Context) : List Name :=
  Γ.names.eraseDups.mergeSort fun x y => !decide (y < x)

/-- The environment of a list of bindings, newest first. -/
def envOf : List (Name × Binding) → Env
  | [] => .empty
  | (x, .free type) :: rest => (envOf rest).extend x (.ofVar x type)
  | (x, .definition _ value) :: rest => (envOf rest).extend x value
  | (_, .claim _) :: rest => envOf rest

/-- The environment in which expressions of the context are evaluated. -/
def env (Γ : Context) : Env :=
  envOf Γ.bindings

end Context

end TypeKernel
