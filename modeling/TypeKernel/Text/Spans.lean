/-
# TypeKernel.Text.Spans — sets of characters given by ranges

A character class is kept as the list of its maximal runs of code points, in increasing order
and both ends included. Membership is a search in that list.
-/

namespace TypeKernel.Text

set_option autoImplicit false

/-- Runs of code points, both ends included. -/
abbrev Spans := List (Nat × Nat)

/-- Whether the code point of `c` lies in one of the runs. -/
def Spans.has (spans : Spans) (c : Char) : Bool :=
  spans.any fun (low, high) => low ≤ c.toNat && c.toNat ≤ high

end TypeKernel.Text
