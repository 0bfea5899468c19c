/-
# TypeKernel.Text.Numeral — how long a numeral may be

A decimal numeral is neither read nor written when it has more than `digitLimit` digits. Leading
zeros count as digits; a sign, and underscores between digits, do not.
-/

namespace TypeKernel.Text

set_option autoImplicit false

/-- The largest number of digits of a numeral. -/
def digitLimit : Nat := 4300

/-- Why a numeral is refused. -/
inductive NumeralError where
  /-- It has too many digits to be read. -/
  | unreadable (digits : Nat)
  /-- The number has too many digits to be written. -/
  | unwritable
  deriving DecidableEq, Repr

/-- The wording of a refused numeral. -/
def NumeralError.message : NumeralError → String
  | .unreadable digits =>
      limitPhrase ++ ": value has " ++ digits.repr ++ " digits" ++ advice
  | .unwritable => limitPhrase ++ advice
where
  limitPhrase : String :=
    "Exceeds the limit (" ++ digitLimit.repr ++ " digits) for integer string conversion"
  advice : String := "; use sys.set_int_max_str_digits() to increase the limit"

end TypeKernel.Text
