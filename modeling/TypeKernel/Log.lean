/-
# TypeKernel.Log — what is reported while the kernel works

Every judgment and every declaration reports what it does as an `Event`. Rejected declarations are
warnings, all other events are for debugging. A reader chooses the least level it wants to see.
-/
import TypeKernel.Error

namespace TypeKernel

set_option autoImplicit false

/-- Levels of importance. -/
inductive Level where
  | unset | debug | info | warning | error | critical
  deriving DecidableEq, Repr

/-- The number by which levels are ordered. -/
def Level.number : Level → Nat
  | .unset => 0
  | .debug => 10
  | .info => 20
  | .warning => 30
  | .error => 40
  | .critical => 50

def Level.name : Level → String
  | .unset => "NOTSET"
  | .debug => "DEBUG"
  | .info => "INFO"
  | .warning => "WARNING"
  | .error => "ERROR"
  | .critical => "CRITICAL"

/-- The level in force: warnings are seen unless a level is set. -/
def Level.effective : Level → Level
  | .unset => .warning
  | level => level

def Level.ofName? : String → Option Level
  | "CRITICAL" | "FATAL" => some .critical
  | "ERROR" => some .error
  | "WARNING" | "WARN" => some .warning
  | "INFO" => some .info
  | "DEBUG" => some .debug
  | "NOTSET" => some .unset
  | _ => none

/-- A position that a front end attaches to a declaration. -/
inductive Location where
  | number (n : Int)
  | label (s : String)
  deriving DecidableEq, Repr

def Location.text : Location → String
  | .number n => toString n
  | .label s => s

/-- A message with its position, if it has one, in front. -/
def located (location : Option Location) (message : String) : String :=
  match location with
  | none => message
  | some l => l.text ++ ": " ++ message

/-- What is reported. -/
inductive Event where
  | synthesizing (e : Expr)
  | checking (e : Expr)
  | claimed (x : Name) (type : Expr)
  | defined (x : Name)
  | rejected (location : Option Location) (r : Rejection)
  deriving DecidableEq, Repr

namespace Event

def level : Event → Level
  | .rejected _ _ => .warning
  | _ => .debug

/-- Which part of the kernel reports an event. -/
def origin : Event → String
  | .synthesizing _ | .checking _ => "pie.checking.checker"
  | .claimed _ _ | .defined _ | .rejected _ _ => "pie.interpreter"

def message : Event → String
  | .synthesizing e => "synthesize " ++ e.render
  | .checking e => "check " ++ e.render
  | .claimed x type => "claimed " ++ x ++ " : " ++ type.render
  | .defined x => "defined " ++ x
  | .rejected location r => located location r.message

def line (event : Event) : String :=
  event.level.name ++ " " ++ event.origin ++ " " ++ event.message

/-- The lines of the events at or above a level, in order. -/
def linesFrom (least : Level) (events : List Event) : List String :=
  (events.filter fun event => least.effective.number ≤ event.level.number).map line

end Event

end TypeKernel
