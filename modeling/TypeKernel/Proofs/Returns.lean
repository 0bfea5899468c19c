/-
# TypeKernel.Proofs.Returns — computations that return

`Returns x a` says that the computation `x` can end with the result `a`. In a machine with memo cells it
may start from any state of the cells. A sequence of computations returns only if each of them does,
and a stopped computation never does; these three facts are all that statements of the form "whenever
checking returns, …" need of a machine. `Ensures x P` is such a statement about `x`.
-/
import TypeKernel.Machine.ByName
import TypeKernel.Machine.ByNeed

namespace TypeKernel

set_option autoImplicit false

/-- Machines whose computations have results. -/
class Returning (m : Type → Type) [Machine m] where
  /-- The computation can end with this result. -/
  returns {α : Type} : m α → α → Prop
  of_pure {α : Type} {a b : α} : returns (pure a) b → b = a
  of_bind {α β : Type} {x : m α} {f : α → m β} {b : β} :
    returns (x >>= f) b → ∃ a, returns x a ∧ returns (f a) b
  not_stop {α : Type} {reason : Stop} {a : α} : ¬ returns (Machine.stop reason) a

instance : Returning ByName where
  returns x a := x = .ok a
  of_pure h := (Except.ok.inj h).symm
  of_bind {_ _ x _ _} h := by
    cases x with
    | error reason => exact absurd h (by simp [bind, Except.bind])
    | ok a => exact ⟨a, rfl, h⟩
  not_stop h := by cases h

instance : Returning ByNeed where
  returns x a := ∃ s s', x s = .ok a s'
  of_pure := by
    rintro α a b ⟨s, s', h⟩
    exact (EStateM.Result.ok.inj h).1.symm
  of_bind := by
    rintro α β x f b ⟨s, s', h⟩
    simp only [bind, EStateM.bind] at h
    split at h
    · rename_i a t first
      exact ⟨a, ⟨s, t, first⟩, ⟨t, s', h⟩⟩
    · exact absurd h (by simp)
  not_stop := by
    rintro α reason a ⟨s, s', h⟩
    cases h

/-- After a computation that returns, the rest goes on with its result. -/
theorem ByName.bind_ok {α β : Type} {x : ByName α} {a : α} (h : x = .ok a) {f : α → ByName β} :
    (x >>= f) = f a := by
  rw [h]
  rfl

/-- A computation can end with a result. -/
def Returns {m : Type → Type} [Machine m] [Returning m] {α : Type} (x : m α) (a : α) : Prop :=
  Returning.returns x a

namespace Returns

variable {m : Type → Type} [Machine m] [Returning m] {α β : Type}

theorem pure_eq {a b : α} (h : Returns (pure a : m α) b) : b = a :=
  Returning.of_pure h

theorem bind {x : m α} {f : α → m β} {b : β} (h : Returns (x >>= f) b) :
    ∃ a, Returns x a ∧ Returns (f a) b :=
  Returning.of_bind h

theorem not_defect {d : Defect} {a : α} : ¬ Returns (Machine.defect d : m α) a :=
  Returning.not_stop

theorem not_reject {r : Rejection} {a : α} : ¬ Returns (Machine.reject r : m α) a :=
  Returning.not_stop

theorem numeral {x : Except Text.NumeralError α} {a : α}
    (h : Returns (Machine.numeral x : m α) a) : x = .ok a := by
  cases x with
  | error e => exact absurd h not_defect
  | ok b => rw [pure_eq h]

end Returns

/-- Whatever the computation returns satisfies `P`. -/
def Ensures {m : Type → Type} [Machine m] [Returning m] {α : Type} (x : m α) (P : α → Prop) : Prop :=
  ∀ a, Returns x a → P a

namespace Ensures

variable {m : Type → Type} [Machine m] [Returning m] {α β : Type} {P R : α → Prop} {Q : β → Prop} {x : m α}
  {f : α → m β}

theorem pure {a : α} (h : P a) : Ensures (Pure.pure a : m α) P := by
  intro b hb
  rw [hb.pure_eq]
  exact h

theorem bind (h : Ensures x P) (hf : ∀ a, P a → Ensures (f a) Q) : Ensures (x >>= f) Q := by
  intro b hb
  obtain ⟨a, ha, hb⟩ := hb.bind
  exact hf a (h a ha) b hb

/-- Nothing has to be known of a step. -/
theorem skip (hf : ∀ a, Ensures (f a) Q) : Ensures (x >>= f) Q :=
  bind (P := fun _ => True) (fun _ _ => trivial) fun a _ => hf a

theorem imp (h : Ensures x P) (hR : ∀ a, P a → R a) : Ensures x R :=
  fun a ha => hR a (h a ha)

theorem defect {d : Defect} : Ensures (Machine.defect d : m α) P :=
  fun _ ha => (Returns.not_defect ha).elim

theorem reject {r : Rejection} : Ensures (Machine.reject r : m α) P :=
  fun _ ha => (Returns.not_reject ha).elim

/-- What was computed is only shown in a rejection. -/
theorem bind_reject {r : α → Rejection} : Ensures (x >>= fun a => (Machine.reject (r a) : m β)) Q :=
  skip fun _ => reject

end Ensures

end TypeKernel
