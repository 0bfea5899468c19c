/-
# TypeKernel.Text.Subscript — numerals in subscript digits

A generated name is a base followed by a numeral written in the digits ₀ to ₉. `subscript` writes
such a numeral and `splitSubscript` takes a name apart in front of it; both keep to the limit on
the number of digits.
-/
import TypeKernel.Text.Numeral

namespace TypeKernel.Text

set_option autoImplicit false

/-- The decimal digits of `n` put in front of `tail`; `fuel` bounds their number. -/
def digitsOnto : Nat → Nat → List Nat → List Nat
  | 0, _, tail => tail
  | fuel + 1, n, tail =>
      if n < 10 then n :: tail else digitsOnto fuel (n / 10) (n % 10 :: tail)

/-- The decimal digits of `n`, most significant first. -/
def digits (n : Nat) : List Nat :=
  digitsOnto (n + 1) n []

def subscriptDigit (d : Nat) : Char :=
  Char.ofNat (0x2080 + d)

def subscriptValue? (c : Char) : Option Nat :=
  if 0x2080 ≤ c.toNat ∧ c.toNat ≤ 0x2089 then some (c.toNat - 0x2080) else none

/-- The numeral of `n` in subscript digits, however many they are. -/
def subscriptNumeral (n : Nat) : String :=
  String.ofList ((digits n).map subscriptDigit)

/-- Write `n` in subscript digits. -/
def subscript (n : Nat) : Except NumeralError String :=
  if (digits n).length ≤ digitLimit then .ok (subscriptNumeral n) else .error .unwritable

/-- The number that a list of subscript digits denotes; other characters count as zero. -/
def subscriptNumber (cs : List Char) : Nat :=
  cs.foldl (fun n c => 10 * n + (subscriptValue? c).getD 0) 0

/-- Split a name in front of its trailing subscript digits. A name without them, or with nothing in
front of them, is its own base and has number zero. -/
def splitSubscript (name : String) : Except NumeralError (String × Nat) :=
  let reversed := name.toList.reverse
  let tail := (reversed.takeWhile fun c => (subscriptValue? c).isSome).reverse
  let base := (reversed.dropWhile fun c => (subscriptValue? c).isSome).reverse
  if tail.isEmpty || base.isEmpty then .ok (name, 0)
  else if tail.length ≤ digitLimit then .ok (String.ofList base, subscriptNumber tail)
  else .error (.unreadable tail.length)

end TypeKernel.Text
