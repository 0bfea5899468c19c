/-
# TypeKernel.Machine.ByNeed — evaluation by need

Each delayed value has a cell in an array. A cell starts empty and is filled once, with the result
of the first successful force; later forces read it. The state survives a failure: cells filled
before it stay filled, and the cell whose force failed stays empty.
-/
import TypeKernel.Machine.Basic

namespace TypeKernel

set_option autoImplicit false

/-- The memo cells and the events reported so far, newest first. -/
structure Session where
  cells : Array (Option Value)
  events : List Event

namespace Session

/-- No cells and no events. -/
def empty : Session := ⟨#[], []⟩

def result? (s : Session) (cell : Nat) : Option Value :=
  s.cells[cell]?.join

def allocate : Session → Session
  | ⟨cells, events⟩ => ⟨cells.push none, events⟩

/-- Fill a cell if it is empty. -/
def fill (cell : Nat) (v : Value) : Session → Session
  | ⟨cells, events⟩ =>
      match cells[cell]? with
      | some none => ⟨cells.setIfInBounds cell (some v), events⟩
      | _ => ⟨cells, events⟩

def record (event : Event) : Session → Session
  | ⟨cells, events⟩ => ⟨cells, event :: events⟩

/-- The text of the result in a cell. Results nest at most as deep as there are cells, so `depth`
starts at their number. -/
def cellText (s : Session) : Nat → Nat → Option String
  | 0, _ => none
  | depth + 1, cell => (s.result? cell).map (Value.describe (s.cellText depth))

/-- The text of the results in all cells. -/
def shown (s : Session) : Nat → Option String :=
  s.cellText s.cells.size

end Session

/-- Computations with memo cells whose state survives a failure. -/
abbrev ByNeed := EStateM Stop Session

instance : Machine ByNeed where
  stop reason := fun s => .error reason s
  attempt x := fun s =>
    match x s with
    | .ok a s => .ok (.ok a) s
    | .error reason s => .ok (.error reason) s
  suspend ρ e := fun s => .ok (.delayed s.cells.size ρ e) s.allocate
  peek cell := fun s => .ok (s.result? cell) s
  keep cell v := fun s => .ok () (s.fill cell v)
  report event := fun s => .ok () (s.record event)

end TypeKernel
