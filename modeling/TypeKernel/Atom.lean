/-
# TypeKernel.Atom — quoted atoms

An atom is a quoted word: at least one character, each a letter of some script or a hyphen.
-/
import TypeKernel.Text.Letter

namespace TypeKernel

set_option autoImplicit false

/-- Whether a text can be quoted as an atom. -/
def isAtom (atom : String) : Bool :=
  !atom.toList.isEmpty && atom.toList.all fun c => Text.isLetter c || c == '-'

end TypeKernel
