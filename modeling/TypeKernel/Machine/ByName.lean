/-
# TypeKernel.Machine.ByName — evaluation by name

No cell ever holds a result: every force of a delayed value evaluates its expression again. There is
no state, so a computation is its outcome.
-/
import TypeKernel.Machine.Basic

namespace TypeKernel

set_option autoImplicit false

/-- Computations without memory. -/
abbrev ByName := Except Stop

instance : Machine ByName where
  stop reason := .error reason
  attempt x := .ok x
  suspend ρ e := .ok (.delayed 0 ρ e)
  peek _ := .ok none
  keep _ _ := .ok ()
  report _ := .ok ()

end TypeKernel
