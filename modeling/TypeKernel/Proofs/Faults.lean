/-
# TypeKernel.Proofs.Faults — every hole and every malformed part is reported

A fault is a hole, an item that is no expression or of no known form, or a quoted text that is no
atom. The judgments look at every part of an expression, whether it is used or not: a motive, the step
of an induction on `zero` and the annotation of a value are judged like anything else. So an accepted
expression has no fault at any depth, and an expression with a fault is refused by all three judgments,
in every context, under every renaming and from every session.

* `Expr.Elaborable.parts` — the parts of an expression that can be elaborated can be elaborated
* `Expr.Elaborable.occurs` — so can everything that occurs in it
* `fault_always_reported` — what is accepted has no fault, and a fault makes every judgment fail
-/
import TypeKernel.Machine.ByNeed
import TypeKernel.Proofs.Elaboration

namespace TypeKernel

set_option autoImplicit false

open Machine

/-- The direct parts of an expression, in the order in which they are written. -/
def Expr.parts : Expr → List Expr
  | .var _ | .quote _ | .const _ | .todo | .malformed _ => []
  | .unary _ e => [e]
  | .binary _ e₁ e₂ => [e₁, e₂]
  | .equal t a b => [t, a, b]
  | .quant _ _ d r => [d, r]
  | .lam _ b => [b]
  | .the t e => [t, e]
  | .app f a => [f, a]
  | .proj _ t => [t]
  | .fold _ t b s => [t, b, s]
  | .induct _ t mo b s => [t, mo, b, s]
  | .transport _ t mo b => [t, mo, b]
  | .indAbsurd t mo => [t, mo]
  | .indVec k t mo b s => [k, t, mo, b, s]
  | .trans a b => [a, b]
  | .cong t f => [t, f]

/-- An expression occurs in another at some depth. -/
inductive Expr.Occurs (f : Expr) : Expr → Prop where
  | self : Occurs f f
  | inside {part e : Expr} (isPart : part ∈ e.parts) (occurs : Occurs f part) : Occurs f e

/-- Holes, what is no expression of a known form, and quoted texts that are no atoms. -/
def Expr.isFault : Expr → Bool
  | .todo => true
  | .malformed _ => true
  | .quote atom => !isAtom atom
  | _ => false

/-- The expression has an elaborated form in some context and under some renaming. -/
def Expr.Elaborable (e : Expr) : Prop :=
  ∃ Γ r core, Elaborated Γ r e core

theorem Elaborated.elaborable {Γ : Context} {r : Renaming} {e core : Expr} (h : Elaborated Γ r e core) :
    e.Elaborable :=
  ⟨Γ, r, core, h⟩

/-- The parts of an elaborated expression are elaborated, each in its own scope. -/
theorem Expr.Elaborable.parts {e : Expr} (h : e.Elaborable) : ∀ part ∈ e.parts, part.Elaborable := by
  obtain ⟨Γ, r, core, h⟩ := h
  cases h with
  | var | quote | const => simp [Expr.parts]
  | unary _ h | proj _ h | lam _ h => simpa [Expr.parts] using h.elaborable
  | binary _ h₁ h₂ | quant _ _ h₁ h₂ | the h₁ h₂ | app h₁ h₂ | indAbsurd h₁ h₂ | trans h₁ h₂
  | cong _ h₁ h₂ => simp [Expr.parts, h₁.elaborable, h₂.elaborable]
  | equal h₁ h₂ h₃ | fold _ _ h₁ h₂ h₃ | transport _ h₁ h₂ h₃ =>
      simp [Expr.parts, h₁.elaborable, h₂.elaborable, h₃.elaborable]
  | induct _ ht hm hb hs =>
      simp [Expr.parts, ht.elaborable, hm.elaborable, hb.elaborable, hs.elaborable]
  | indVec hk ht hm hb hs =>
      simp [Expr.parts, hk.elaborable, ht.elaborable, hm.elaborable, hb.elaborable, hs.elaborable]

theorem Expr.Elaborable.occurs {e f : Expr} (h : e.Elaborable) (occurs : f.Occurs e) : f.Elaborable := by
  induction occurs with
  | self => exact h
  | inside isPart _ ih => exact ih (h.parts _ isPart)

theorem Expr.Elaborable.isFault {e : Expr} (h : e.Elaborable) : e.isFault = false := by
  obtain ⟨Γ, r, core, h⟩ := h
  cases h with
  | quote isAtom => simp [Expr.isFault, isAtom]
  | _ => rfl

theorem Elaborated.isFault {Γ : Context} {r : Renaming} {e core f : Expr} (h : Elaborated Γ r e core)
    (occurs : f.Occurs e) : f.isFault = false :=
  (h.elaborable.occurs occurs).isFault

/-- A computation that cannot return ends in an error, whatever the session. -/
theorem ByNeed.error_of_not_returns {α : Type} {x : ByNeed α} (h : ∀ a, ¬ Returns x a)
    (s : Session) : ∃ stop s', x s = .error stop s' := by
  cases hx : x s with
  | ok a s' => exact absurd ⟨s, s', hx⟩ (h a)
  | error stop s' => exact ⟨stop, s', rfl⟩

/-- Nothing escapes the checker. If one of the judgments returns, no fault occurs in the source, and if
a fault occurs anywhere in the source, all three judgments end in an error. -/
theorem fault_always_reported (n : Nat) (Γ : Context) (r : Renaming) (e : Expr) (expected : Value)
    (s : Session) :
    ((∃ result s', (synthesize n Γ e r : ByNeed _) s = .ok result s') ∨
        (∃ core s', (check n Γ e expected r : ByNeed _) s = .ok core s') ∨
        (∃ core s', (isType n Γ e r : ByNeed _) s = .ok core s') →
      ∀ f : Expr, f.Occurs e → f.isFault = false) ∧
    ∀ f : Expr, f.Occurs e → f.isFault = true →
      (∃ stop s', (synthesize n Γ e r : ByNeed _) s = .error stop s') ∧
      (∃ stop s', (check n Γ e expected r : ByNeed _) s = .error stop s') ∧
      (∃ stop s', (isType n Γ e r : ByNeed _) s = .error stop s') := by
  have judged := judge_elaborates (m := ByNeed) n e
  constructor
  · rintro (⟨result, s', h⟩ | ⟨core, s', h⟩ | ⟨core, s', h⟩) f occurs
    · exact (judged.synth _ ⟨s, s', h⟩).isFault occurs
    · exact (judged.check _ ⟨s, s', h⟩).isFault occurs
    · exact (judged.isType _ ⟨s, s', h⟩).isFault occurs
  · intro f occurs fault
    have refused : ∀ {core}, ¬ Elaborated Γ r e core := by
      intro core h
      simp [h.isFault occurs] at fault
    refine ⟨ByNeed.error_of_not_returns ?_ s, ByNeed.error_of_not_returns ?_ s,
      ByNeed.error_of_not_returns ?_ s⟩
    · exact fun result h => refused (judged.synth result h)
    · exact fun core h => refused (judged.check core h)
    · exact fun core h => refused (judged.isType core h)

/-- `(ind-Nat zero (λ (k) Nat) zero step)`. -/
def unusedStep (step : Expr) : Expr :=
  .induct .indNat .zero (.lam "k" .nat) .zero step

/-- The step of an induction on `zero` is never run. It is judged all the same. -/
theorem unused_step_reported :
    (∀ f : Expr, f.Occurs (unusedStep (.lam "k" (.lam "r" (.add1 (.var "r"))))) → f.isFault = false) ∧
      ∃ stop s', (synthesize 9 .empty (unusedStep (.lam "k" .todo)) .empty : ByNeed _) .empty =
        .error stop s' := by
  constructor
  · exact (fault_always_reported 9 .empty .empty _ .nat .empty).1 (.inl ⟨_, _, rfl⟩)
  · have inBody : Expr.Occurs .todo (.lam "k" .todo) := .inside (List.mem_singleton_self _) .self
    have occurs : Expr.Occurs .todo (unusedStep (.lam "k" .todo)) :=
      .inside (by simp [unusedStep, Expr.parts]) inBody
    exact ((fault_always_reported 9 .empty .empty _ .nat .empty).2 .todo occurs rfl).1

end TypeKernel
