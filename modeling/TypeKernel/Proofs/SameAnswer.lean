/-
# TypeKernel.Proofs.SameAnswer — matching requests have matching answers

Evaluation by name does not look at cells, so the only thing asked of a correspondence is that it
allows the cell that all delayed values share. Values that match are then forced, applied and
eliminated alike, for as long as evaluation goes on; and they fail alike. If one side has annotations
that the other lacks, it may go on where the other is stuck; but what both return matches.
-/
import TypeKernel.Proofs.Answer
import TypeKernel.Proofs.Lockstep

namespace TypeKernel

set_option autoImplicit false

/-- Finished results are related, and a finished outcome on the left is met by one on the right. Where the
right side has more annotations, one side may finish and the other not. -/
def Alongside {α β : Type} (annotated : Prop) (R : α → β → Prop) : ByName α → ByName β → Prop
  | .ok a, y => (∀ b, y = .ok b → R a b) ∧ (annotated ∨ ∃ b, y = .ok b)
  | .error .exhausted, _ => True
  | .error (.failed e), y => annotated ∨ y = .error (.failed e)

namespace Alongside

variable {α β γ δ : Type} {annotated : Prop} {R : α → β → Prop} {S : γ → δ → Prop} {x : ByName α}
  {y : ByName β}

theorem pure {a : α} {b : β} (h : R a b) : Alongside annotated R (.ok a) (.ok b) :=
  ⟨fun _ hb => by cases hb; exact h, .inr ⟨b, rfl⟩⟩

theorem leftFails (ha : annotated) (e : Error) : Alongside annotated R (.error (.failed e)) y :=
  .inl ha

theorem rightStops (ha : annotated) (x : ByName α) (reason : Stop) :
    Alongside annotated R x (.error reason) := by
  match x with
  | .ok _ => exact ⟨nofun, .inl ha⟩
  | .error .exhausted => trivial
  | .error (.failed _) => exact .inl ha

theorem bind {f : α → ByName γ} {g : β → ByName δ} (h : Alongside annotated R x y)
    (hfg : ∀ a b, R a b → Alongside annotated S (f a) (g b)) :
    Alongside annotated S (x >>= f) (y >>= g) := by
  cases x with
  | error reason =>
      cases reason with
      | exhausted => trivial
      | failed e =>
          rcases h with ha | rfl
          · exact .inl ha
          · exact .inr rfl
  | ok a =>
      obtain ⟨hab, hy⟩ := h
      cases y with
      | ok b => exact hfg a b (hab b rfl)
      | error reason =>
          rcases hy with ha | ⟨_, hy⟩
          · exact rightStops ha _ reason
          · cases hy

theorem rightAlone {g : γ → ByName β} (ha : annotated) (y : ByName γ)
    (h : ∀ c, Alongside annotated R x (g c)) : Alongside annotated R x (y >>= g) := by
  cases y with
  | ok c => exact h c
  | error reason => exact rightStops ha x reason

theorem both (h : Alongside annotated R x y) {a : α} {b : β} (hx : x = .ok a) (hy : y = .ok b) :
    R a b := by
  subst hx
  exact h.1 b hy

end Alongside

/-- The cell of by-name evaluation is allowed. -/
def Correspondence.Plain (K : Correspondence) : Prop :=
  ∀ ρ e ρ' e', K.cells 0 ρ e 0 ρ' e'

/-- Computations by name, compared as far as the left one gets. -/
def byName : Simulation Unit ByName ByName where
  rel K R x y := K.Plain → Alongside K.annotated (R K) x (y ())
  pure := fun h _ => .pure h
  bind := fun h hfg plain => (h plain).bind fun a b hab => hfg _ a b (.refl _) hab plain
  fail := fun _ _ _ => .inr rfl
  suspend := fun hρ he plain => .pure (.delayed (plain _ _ _ _) hρ he)
  leftFails := fun e _ ha _ => .leftFails ha e
  rightAlone := fun ha h plain => .rightAlone ha _ fun c => h c plain

theorem byName_force {ask ask' : Request → ByName Value} (h : byName.Asks ask fun _ => ask')
    {K : Correspondence} {v v' : Value} (hv : Both K v v') :
    byName.rel K Both (Eval.force ask v) (fun _ => Eval.force ask' v') := by
  cases hv with
  | delayed _ hρ he =>
      rw [Eval.force_delayed, Eval.force_delayed]
      exact byName.bind (h (.eval hρ he)) fun K₁ w w' _ hw => h (.force hw)
  | const c => exact byName.pure (.const c)
  | quote a => exact byName.pure (.quote a)
  | unary u hv => exact byName.pure (.unary u hv)
  | binary b h₁ h₂ => exact byName.pure (.binary b h₁ h₂)
  | equal ht hl hr => exact byName.pure (.equal ht hl hr)
  | quant q hx hd hr => exact byName.pure (.quant q hx hd hr)
  | lam hx hb => exact byName.pure (.lam hx hb)
  | neutral ht he => exact byName.pure (.neutral ht he)

theorem byName_run (n : Nat) : byName.Asks (run n) fun _ => answer := by
  induction n with
  | zero => exact fun _ _ _ _ _ => trivial
  | succ n ih =>
      intro K r r' hr
      simp only [answer_eq r']
      exact ih.step (byName_force ih) (fun _ _ ρ e => answer_eq (.eval ρ e)) hr

theorem byName_answer : byName.Asks answer fun _ => answer := by
  intro K r r' hr plain
  obtain ⟨n, hn⟩ := settled r
  rcases hn n (Nat.le_refl n) with h | h
  · rw [h]
    trivial
  · rw [h]
    exact byName_run n hr plain

end TypeKernel
