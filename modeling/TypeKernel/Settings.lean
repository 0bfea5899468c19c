/-
# TypeKernel.Settings — settings from named variables

Settings are read from variables given as text. Blanks around a text do not count, and a blank text
is the same as none. A recursion limit below the least one is raised to it. The name of a log level
may be written in either case.
-/
import TypeKernel.Log
import TypeKernel.Text.Blank
import TypeKernel.Text.Integer

namespace TypeKernel

set_option autoImplicit false

/-- Variables with their texts; the first entry of a name counts. -/
abbrev Variables := List (String × String)

/-- Why a setting cannot be read. -/
inductive SettingError where
  | notAnInteger (name raw : String)
  | notALevel (raw : String)
  deriving DecidableEq, Repr

namespace Settings

def recursionLimitVariable : String := "PIE_RECURSION_LIMIT"

def logLevelVariable : String := "PIE_LOG_LEVEL"

def defaultRecursionLimit : Int := 10000

def leastRecursionLimit : Int := 1000

/-- The text of a variable as given and without the blanks around it, unless it is blank. -/
def text? (vars : Variables) (name : String) : Option (String × List Char) :=
  match vars.lookup name with
  | none => none
  | some raw =>
      match Text.trim raw.toList with
      | [] => none
      | cs => some (raw, cs)

def integer (vars : Variables) (name : String) (default : Int) : Except SettingError Int :=
  match text? vars name with
  | none => .ok default
  | some (raw, cs) =>
      match Text.readInteger? cs with
      | some n => .ok n
      | none => .error (.notAnInteger name raw)

def recursionLimit (vars : Variables) : Except SettingError Int :=
  (integer vars recursionLimitVariable defaultRecursionLimit).map fun limit =>
    if limit < leastRecursionLimit then leastRecursionLimit else limit

/-- The capital of a letter, for all characters whose capital is a letter from A to Z. -/
def capital (c : Char) : Char :=
  if c = 'ı' then 'I' else if c = 'ſ' then 'S' else c.toUpper

def logLevel? (vars : Variables) : Except SettingError (Option Level) :=
  match text? vars logLevelVariable with
  | none => .ok none
  | some (raw, cs) =>
      match Level.ofName? (String.ofList (cs.map capital)) with
      | some level => .ok (some level)
      | none => .error (.notALevel raw)

/-- The log level in force: the one that is set, or none. -/
def logLevel (vars : Variables) : Except SettingError Level :=
  (logLevel? vars).map (·.getD .unset)

end Settings

def SettingError.message : SettingError → String
  | .notAnInteger name raw => name ++ " must be an integer, got " ++ Text.quoted raw
  | .notALevel raw =>
      Settings.logLevelVariable ++ " must name a logging level, got " ++ Text.quoted raw

end TypeKernel
