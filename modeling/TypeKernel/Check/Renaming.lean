/-
# TypeKernel.Check.Renaming — from source names to elaborated names

Checking gives every binder a name that is fresh in the context. A renaming remembers the name that
each enclosing source binder received, innermost first. A name without an entry is a name of the
context and stays as it is.
-/
import TypeKernel.Expr.Record

namespace TypeKernel

set_option autoImplicit false

/-- Source names with their elaborated names, innermost first. -/
structure Renaming where
  pairs : List (Name × Name)
  deriving DecidableEq, Repr

namespace Renaming

/-- The renaming that changes nothing. -/
def empty : Renaming := ⟨[]⟩

/-- Enter a binder. -/
def extend (r : Renaming) (source target : Name) : Renaming :=
  ⟨(source, target) :: r.pairs⟩

/-- The elaborated name of a source name. -/
def rename (r : Renaming) (x : Name) : Name :=
  (r.pairs.lookup x).getD x

@[simp] theorem rename_empty (x : Name) : empty.rename x = x := rfl

@[simp] theorem rename_extend_self (r : Renaming) (x y : Name) : (r.extend x y).rename x = y := by
  simp [rename, extend]

theorem rename_extend_of_ne {x z : Name} (r : Renaming) (y : Name) (h : z ≠ x) :
    (r.extend x y).rename z = r.rename z := by
  simp [rename, extend, List.lookup_cons, beq_false_of_ne h]

/-- A renaming as text, outermost binder first. -/
def describe (r : Renaming) : String :=
  "Renaming(" ++ commaSeparated (r.pairs.reverse.map fun (x, y) => x ++ "↦" ++ y) ++ ")"

end Renaming

end TypeKernel
