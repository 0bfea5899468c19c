/-
# TypeKernel.Proofs.Agree — readings that agree

Two tasks agree if both read back in every style, and to one and the same expression in a style that
leaves no choice. Agreement is what equality of stuck values means; it is kept by every rule of
reading.
-/
import TypeKernel.Proofs.Forms
import TypeKernel.Proofs.ReadsAlike

namespace TypeKernel

set_option autoImplicit false

/-- Both tasks read back in every style, and alike where the style leaves no choice. -/
def Agree (t t' : Task) : Prop :=
  ∀ σ X, ∃ n n', Reads σ X t n ∧ Reads σ X t' n' ∧ ∀ b, σ = .byPlace b → n = n'

namespace Agree

variable {s s' t t' t₁ t₁' t₂ t₂' t₃ t₃' t₄ t₄' t₅ t₅' : Task}

theorem symm (h : Agree t t') : Agree t' t := by
  intro σ X
  obtain ⟨n, n', hn, hn', heq⟩ := h σ X
  exact ⟨n', n, hn', hn, fun b hb => (heq b hb).symm⟩

theorem trans {t'' : Task} (h : Agree t t') (h' : Agree t' t'') : Agree t t'' := by
  intro σ X
  obtain ⟨n, n', hn, hn', heq⟩ := h σ X
  obtain ⟨m, m', hm, hm', heq'⟩ := h' σ X
  cases hn'.deterministic hm
  exact ⟨n, m', hn, hm', fun b hb => (heq b hb).trans (heq' b hb)⟩

theorem refl_left (h : Agree t t') : Agree t t := h.trans h.symm

theorem refl_right (h : Agree t t') : Agree t' t' := h.symm.trans h

/-! A rule of reading with `k` premises keeps agreement. -/

theorem of_none (e : Expr) (h : ∀ {σ X}, Reads σ X s e) (h' : ∀ {σ X}, Reads σ X s' e) :
    Agree s s' :=
  fun _ _ => ⟨e, e, h, h', fun _ _ => rfl⟩

theorem of_one (f : Style → Expr → Expr) (h : ∀ {σ X n}, Reads σ X t n → Reads σ X s (f σ n))
    (h' : ∀ {σ X n}, Reads σ X t' n → Reads σ X s' (f σ n)) (a : Agree t t') : Agree s s' := by
  intro σ X
  obtain ⟨n, n', hn, hn', heq⟩ := a σ X
  exact ⟨_, _, h hn, h' hn', fun b hb => by rw [heq b hb]⟩

theorem of_two (f : Style → Expr → Expr → Expr)
    (h : ∀ {σ X n₁ n₂}, Reads σ X t₁ n₁ → Reads σ X t₂ n₂ → Reads σ X s (f σ n₁ n₂))
    (h' : ∀ {σ X n₁ n₂}, Reads σ X t₁' n₁ → Reads σ X t₂' n₂ → Reads σ X s' (f σ n₁ n₂))
    (a₁ : Agree t₁ t₁') (a₂ : Agree t₂ t₂') : Agree s s' := by
  intro σ X
  obtain ⟨n₁, n₁', hn₁, hn₁', heq₁⟩ := a₁ σ X
  obtain ⟨n₂, n₂', hn₂, hn₂', heq₂⟩ := a₂ σ X
  exact ⟨_, _, h hn₁ hn₂, h' hn₁' hn₂', fun b hb => by rw [heq₁ b hb, heq₂ b hb]⟩

theorem of_three (f : Style → Expr → Expr → Expr → Expr)
    (h : ∀ {σ X n₁ n₂ n₃}, Reads σ X t₁ n₁ → Reads σ X t₂ n₂ → Reads σ X t₃ n₃ →
      Reads σ X s (f σ n₁ n₂ n₃))
    (h' : ∀ {σ X n₁ n₂ n₃}, Reads σ X t₁' n₁ → Reads σ X t₂' n₂ → Reads σ X t₃' n₃ →
      Reads σ X s' (f σ n₁ n₂ n₃))
    (a₁ : Agree t₁ t₁') (a₂ : Agree t₂ t₂') (a₃ : Agree t₃ t₃') : Agree s s' := by
  intro σ X
  obtain ⟨n₁, n₁', hn₁, hn₁', heq₁⟩ := a₁ σ X
  obtain ⟨n₂, n₂', hn₂, hn₂', heq₂⟩ := a₂ σ X
  obtain ⟨n₃, n₃', hn₃, hn₃', heq₃⟩ := a₃ σ X
  exact ⟨_, _, h hn₁ hn₂ hn₃, h' hn₁' hn₂' hn₃',
    fun b hb => by rw [heq₁ b hb, heq₂ b hb, heq₃ b hb]⟩

theorem of_four (f : Style → Expr → Expr → Expr → Expr → Expr)
    (h : ∀ {σ X n₁ n₂ n₃ n₄}, Reads σ X t₁ n₁ → Reads σ X t₂ n₂ → Reads σ X t₃ n₃ →
      Reads σ X t₄ n₄ → Reads σ X s (f σ n₁ n₂ n₃ n₄))
    (h' : ∀ {σ X n₁ n₂ n₃ n₄}, Reads σ X t₁' n₁ → Reads σ X t₂' n₂ → Reads σ X t₃' n₃ →
      Reads σ X t₄' n₄ → Reads σ X s' (f σ n₁ n₂ n₃ n₄))
    (a₁ : Agree t₁ t₁') (a₂ : Agree t₂ t₂') (a₃ : Agree t₃ t₃') (a₄ : Agree t₄ t₄') :
    Agree s s' := by
  intro σ X
  obtain ⟨n₁, n₁', hn₁, hn₁', heq₁⟩ := a₁ σ X
  obtain ⟨n₂, n₂', hn₂, hn₂', heq₂⟩ := a₂ σ X
  obtain ⟨n₃, n₃', hn₃, hn₃', heq₃⟩ := a₃ σ X
  obtain ⟨n₄, n₄', hn₄, hn₄', heq₄⟩ := a₄ σ X
  exact ⟨_, _, h hn₁ hn₂ hn₃ hn₄, h' hn₁' hn₂' hn₃' hn₄',
    fun b hb => by rw [heq₁ b hb, heq₂ b hb, heq₃ b hb, heq₄ b hb]⟩

theorem of_five (f : Style → Expr → Expr → Expr → Expr → Expr → Expr)
    (h : ∀ {σ X n₁ n₂ n₃ n₄ n₅}, Reads σ X t₁ n₁ → Reads σ X t₂ n₂ → Reads σ X t₃ n₃ →
      Reads σ X t₄ n₄ → Reads σ X t₅ n₅ → Reads σ X s (f σ n₁ n₂ n₃ n₄ n₅))
    (h' : ∀ {σ X n₁ n₂ n₃ n₄ n₅}, Reads σ X t₁' n₁ → Reads σ X t₂' n₂ → Reads σ X t₃' n₃ →
      Reads σ X t₄' n₄ → Reads σ X t₅' n₅ → Reads σ X s' (f σ n₁ n₂ n₃ n₄ n₅))
    (a₁ : Agree t₁ t₁') (a₂ : Agree t₂ t₂') (a₃ : Agree t₃ t₃') (a₄ : Agree t₄ t₄')
    (a₅ : Agree t₅ t₅') : Agree s s' := by
  intro σ X
  obtain ⟨n₁, n₁', hn₁, hn₁', heq₁⟩ := a₁ σ X
  obtain ⟨n₂, n₂', hn₂, hn₂', heq₂⟩ := a₂ σ X
  obtain ⟨n₃, n₃', hn₃, hn₃', heq₃⟩ := a₃ σ X
  obtain ⟨n₄, n₄', hn₄, hn₄', heq₄⟩ := a₄ σ X
  obtain ⟨n₅, n₅', hn₅, hn₅', heq₅⟩ := a₅ σ X
  exact ⟨_, _, h hn₁ hn₂ hn₃ hn₄ hn₅, h' hn₁' hn₂' hn₃' hn₄' hn₅',
    fun b hb => by rw [heq₁ b hb, heq₂ b hb, heq₃ b hb, heq₄ b hb, heq₅ b hb]⟩

end Agree

end TypeKernel
