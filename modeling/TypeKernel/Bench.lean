/-
# TypeKernel.Bench — values in named slots

A bench holds an environment and named slots with values, and shows how cells are shared: an action
makes a value, copies it to another slot, forces it or describes it. Forcing a delayed value is
visible in every slot that holds a copy of it. An action that fails leaves slots and environment as
they were; cells that it filled before stay filled.
-/
import TypeKernel.Eval.Basic
import TypeKernel.Machine.ByNeed

namespace TypeKernel

set_option autoImplicit false

/-- What can be done on a bench. The first slot of an action that makes a value receives it. -/
inductive Action where
  /-- Delay an expression, cheap or not. -/
  | delay (slot : String) (e : Expr)
  /-- Postpone an expression unless it is cheap. -/
  | later (slot : String) (e : Expr)
  /-- Evaluate an expression. -/
  | eval (slot : String) (e : Expr)
  /-- Copy a slot. -/
  | copy (slot source : String)
  /-- Apply a function. -/
  | call (slot fn arg : String)
  /-- Take a projection. -/
  | project (slot : String) (p : Projection) (target : String)
  /-- Evaluate a body with its parameter bound to a slot. -/
  | instantiate (slot : String) (x : Name) (body : Expr) (arg : String)
  /-- Force a slot and take a part of the result. -/
  | part (slot source field : String)
  /-- Extend the environment by a slot. -/
  | bind (x : Name) (source : String)
  /-- Look at a slot without forcing it. -/
  | inspect (slot : String)
  /-- Force a slot. -/
  | force (slot : String)
  /-- Describe a slot without forcing it. -/
  | describe (slot : String)
  deriving Repr

/-- What an action answers. -/
inductive Answer where
  /-- The head form of a value, and for a delayed value whether its cell is filled. -/
  | shape (s : Shape) (forced : Option Bool)
  | names (xs : List Name)
  | text (s : String)
  deriving DecidableEq, Repr

/-- Why an action fails. -/
inductive BenchError where
  | noSlot (slot : String)
  | noPart (s : Shape) (field : String)
  | stopped (reason : Stop)
  deriving DecidableEq, Repr

/-- The part of a value under a field name. -/
def Value.part? (field : String) : Value → Option Value
  | .unary u v => if field = u.field then some v else none
  | .binary b v w =>
      if field = b.fields.1 then some v else if field = b.fields.2 then some w else none
  | .equal type start finish =>
      if field = "type" then some type
      else if field = "from_" then some start
      else if field = "to" then some finish
      else none
  | .quant q _ domain _ => if field = q.fields.1 then some domain else none
  | .neutral type _ => if field = "type" then some type else none
  | _ => none

/-- An environment, slots (the newest of a name counts) and the cells they share. -/
structure Bench where
  env : Env
  slots : List (String × Value)
  session : Session

namespace Bench

/-- Whether the cell of a delayed value is filled; other values have no cell. -/
def isForced? (s : Session) : Value → Option Bool
  | .delayed cell _ _ => some (s.result? cell).isSome
  | _ => none

def look (s : Session) (v : Value) : Answer :=
  .shape v.shape (isForced? s v)

def make (b : Bench) (slot : String) (x : ByNeed Value) : Except BenchError Answer × Bench :=
  match x b.session with
  | .ok v session => (.ok (look session v), { b with slots := (slot, v) :: b.slots, session })
  | .error reason session => (.error (.stopped reason), { b with session })

def withSlot (b : Bench) (slot : String) (k : Value → Except BenchError Answer × Bench) :
    Except BenchError Answer × Bench :=
  match b.slots.lookup slot with
  | some v => k v
  | none => (.error (.noSlot slot), b)

/-- Force the value in a slot and go on with the result. -/
def withForced (n : Nat) (b : Bench) (v : Value)
    (k : Value → Session → Except BenchError Answer × Bench) : Except BenchError Answer × Bench :=
  match (v.force n : ByNeed Value) b.session with
  | .ok w session => k w session
  | .error reason session => (.error (.stopped reason), { b with session })

def act (n : Nat) (b : Bench) : Action → Except BenchError Answer × Bench
  | .delay slot e => b.make slot (Machine.suspend b.env e)
  | .later slot e => b.make slot (Eval.later (run n) b.env e)
  | .eval slot e => b.make slot (b.env.eval n e)
  | .copy slot source => b.withSlot source fun v => b.make slot (pure v)
  | .call slot fn arg => b.withSlot fn fun f => b.withSlot arg fun a => b.make slot (f.call n a)
  | .project slot p target => b.withSlot target fun v => b.make slot (Eval.project (run n) p v)
  | .instantiate slot x body arg =>
      b.withSlot arg fun a => b.make slot (Closure.apply n (.code b.env x body) a)
  | .part slot source field =>
      b.withSlot source fun v => b.withForced n v fun w session =>
        match w.part? field with
        | some u => (.ok (look session u), { b with slots := (slot, u) :: b.slots, session })
        | none => (.error (.noPart w.shape field), { b with session })
  | .bind x source =>
      b.withSlot source fun v =>
        let env := b.env.extend x v
        (.ok (.names env.names), { b with env })
  | .inspect slot => b.withSlot slot fun v => (.ok (look b.session v), b)
  | .force slot =>
      b.withSlot slot fun v => b.withForced n v fun w session =>
        (.ok (.shape w.shape (isForced? session v)), { b with session })
  | .describe slot => b.withSlot slot fun v => (.ok (.text (v.describe b.session.shown)), b)

end Bench

end TypeKernel
