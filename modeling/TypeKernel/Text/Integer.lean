/-
# TypeKernel.Text.Integer — reading a decimal integer

An integer is an optional sign and one or more digits of any script. One underscore may stand
between two digits. Leading zeros are allowed, and they count towards the digit limit.
-/
import TypeKernel.Text.DecimalDigit
import TypeKernel.Text.Numeral

namespace TypeKernel.Text

set_option autoImplicit false

/-- Read digits onto the value so far. `closed` says whether the last character was a digit, so that
an underscore or the end may follow. -/
def readDigits (value : Nat) (closed : Bool) : List Char → Option Nat
  | [] => if closed then some value else none
  | c :: rest =>
      if c = '_' then
        if closed then readDigits value false rest else none
      else
        match digitValue? c with
        | some d => readDigits (10 * value + d) true rest
        | none => none

/-- Read a whole text as a sign and digits, however many they are. -/
def readSigned? : List Char → Option Int
  | '-' :: rest => (readDigits 0 false rest).map fun n => -(n : Int)
  | '+' :: rest => (readDigits 0 false rest).map fun n => (n : Int)
  | cs => (readDigits 0 false cs).map fun n => (n : Int)

/-- Read a whole text as a signed decimal integer with no more digits than the limit. -/
def readInteger? (cs : List Char) : Option Int :=
  if (cs.countP fun c => (digitValue? c).isSome) ≤ digitLimit then readSigned? cs else none

end TypeKernel.Text
