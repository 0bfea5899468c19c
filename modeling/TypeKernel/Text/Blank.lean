/-
# TypeKernel.Text.Blank — white space, and trimming it

Blank characters are the spaces, tabs and line ends of all scripts, with the four information
separators. `trim` drops them at both ends.
-/
import TypeKernel.Text.Spans

namespace TypeKernel.Text

set_option autoImplicit false

def blankSpans : Spans :=
  [(0x9, 0xd), (0x1c, 0x20), (0x85, 0x85), (0xa0, 0xa0), (0x1680, 0x1680), (0x2000, 0x200a),
   (0x2028, 0x2029), (0x202f, 0x202f), (0x205f, 0x205f), (0x3000, 0x3000)]

def isBlank (c : Char) : Bool :=
  blankSpans.has c

/-- The characters without the blanks at either end. -/
def trim (cs : List Char) : List Char :=
  ((cs.dropWhile isBlank).reverse.dropWhile isBlank).reverse

end TypeKernel.Text
