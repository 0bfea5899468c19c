/-
# TypeKernel.Proofs.Attains — computations by need that return

`Yields` says what holds if a computation by need returns. Where the same computation by name is known to
end, more can be said: from some number of steps on it returns, in every faithful session, unless it fails
in a way that is allowed. `Gives` says this of one session and `Attains` of all sessions that are faithful
to a correspondence. Evaluation allows no failure at all. Reading back allows one: a fresh name may need a
numeral that is too long.
-/
import TypeKernel.Proofs.Established
import TypeKernel.Proofs.History

namespace TypeKernel

set_option autoImplicit false

/-- A numeral that is too long. -/
def Error.IsNumeral (e : Error) : Prop :=
  ∃ d, e = .defect (.numeral d)

/-- No error. -/
def Error.Never (_ : Error) : Prop :=
  False

/-- Computations, one for each bound on the steps, started in the session `s`. Each of them returns
something that satisfies `P`, or fails as `F` allows, or has used up its steps, which were fewer
than `N`. -/
def Gives {α : Type} (F : Error → Prop) (N : Nat) (x : Nat → ByNeed α) (P : α → Session → Prop)
    (s : Session) : Prop :=
  ∀ n, (∃ a s', x n s = .ok a s' ∧ P a s') ∨ (n < N ∧ ∃ s', x n s = .error .exhausted s') ∨
    ∃ e s', F e ∧ x n s = .error (.failed e) s'

/-- Computations that return, or fail as `F` allows, or have used up fewer than `N` steps. -/
def Safe {α : Type} (F : Error → Prop) (N : Nat) (x : Nat → ByNeed α) (s : Session) : Prop :=
  Gives F N x (fun _ _ => True) s

/-- Computations that give something in every faithful session, and keep it faithful. -/
def Attains {α : Type} (F : Error → Prop) (N : Nat) (K : Correspondence) (x : Nat → ByNeed α)
    (P : Correspondence → α → Prop) : Prop :=
  ∀ n s, Remembers K s → ∃ K' s', K.Le K' ∧ Remembers K' s' ∧
    ((∃ a, x n s = .ok a s' ∧ P K' a) ∨ (n < N ∧ x n s = .error .exhausted s') ∨
      ∃ e, F e ∧ x n s = .error (.failed e) s')

namespace Attains

variable {α β : Type} {F : Error → Prop} {N M : Nat} {K : Correspondence}
  {P : Correspondence → α → Prop} {Q : Correspondence → β → Prop}

theorem gives {x : Nat → ByNeed α} (h : Attains F N K x P) {s : Session} (rem : Remembers K s)
    {R : α → Session → Prop}
    (hR : ∀ K' a s', K.Le K' → Remembers K' s' → P K' a → R a s') : Gives F N x R s := by
  intro n
  obtain ⟨K', s', le, rem', ⟨a, ha, hP⟩ | ⟨lt, he⟩ | ⟨e, hF, he⟩⟩ := h n s rem
  · exact .inl ⟨a, s', ha, hR K' a s' le rem' hP⟩
  · exact .inr (.inl ⟨lt, s', he⟩)
  · exact .inr (.inr ⟨e, s', hF, he⟩)

theorem pure {a : α} (h : P K a) : Attains F N K (fun _ => Pure.pure a) P :=
  fun _ s rem => ⟨K, s, .refl K, rem, .inl ⟨a, rfl, h⟩⟩

theorem imp {x : Nat → ByNeed α} {R : Correspondence → α → Prop} (h : Attains F N K x P)
    (hR : ∀ K' a, K.Le K' → P K' a → R K' a) : Attains F N K x R := by
  intro n s rem
  obtain ⟨K', s', le, rem', ⟨a, ha, hP⟩ | stops⟩ := h n s rem
  · exact ⟨K', s', le, rem', .inl ⟨a, ha, hR K' a le hP⟩⟩
  · exact ⟨K', s', le, rem', .inr stops⟩

theorem weaken {x : Nat → ByNeed α} (h : Attains F N K x P) {F' : Error → Prop} (hN : N ≤ M)
    (hF : ∀ e, F e → F' e) : Attains F' M K x P := by
  intro n s rem
  obtain ⟨K', s', le, rem', ok | ⟨lt, he⟩ | ⟨e, hFe, he⟩⟩ := h n s rem
  · exact ⟨K', s', le, rem', .inl ok⟩
  · exact ⟨K', s', le, rem', .inr (.inl ⟨by omega, he⟩)⟩
  · exact ⟨K', s', le, rem', .inr (.inr ⟨e, hF e hFe, he⟩)⟩

theorem safe {x : Nat → ByNeed α} (h : Attains F N K x P) (hN : N ≤ M) {s : Session}
    (rem : Remembers K s) : Safe F M x s :=
  (h.weaken hN fun _ he => he).gives rem fun _ _ _ _ _ _ => trivial

theorem bind {x : Nat → ByNeed α} {f : Nat → α → ByNeed β} (h : Attains F N K x P)
    (hf : ∀ K' a, K.Le K' → K'.Exact → P K' a → Attains F N K' (fun n => f n a) Q) :
    Attains F N K (fun n => x n >>= f n) Q := by
  intro n s rem
  obtain ⟨K', s', le, rem', outcome⟩ := h n s rem
  simp only [Bind.bind, EStateM.bind]
  rcases outcome with ⟨a, ha, hP⟩ | ⟨lt, he⟩ | ⟨e, hF, he⟩
  · rw [ha]
    obtain ⟨K'', s'', le', rem'', outcome⟩ := hf K' a le rem'.exact hP n s' rem'
    exact ⟨K'', s'', le.trans le', rem'', outcome⟩
  · rw [he]
    exact ⟨K', s', le, rem', .inr (.inl ⟨lt, rfl⟩)⟩
  · rw [he]
    exact ⟨K', s', le, rem', .inr (.inr ⟨e, hF, rfl⟩)⟩

/-- What ends by name with results of one kind, if it does not fail, ends by need with results that are related
to them. -/
theorem of_outcomes {x : Nat → ByNeed α} {y : Nat → ByName β} {R : Correspondence → α → β → Prop}
    {Q : β → Prop} (h : ∀ n, (byNeed n).rel K R (x n) y)
    (ends : ∀ n, N ≤ n → (∃ b, Q b ∧ y n = .ok b) ∨ ∃ e, F e ∧ y n = .error (.failed e)) :
    Attains F N K x fun K' a => ∃ b, Q b ∧ R K' a b ∧ ∃ M, ∀ i, M ≤ i → y i = .ok b := by
  intro n s rem
  have follows := h n s rem
  cases hx : x n s with
  | ok a s' =>
      rw [hx] at follows
      obtain ⟨K', b', le, rem', hab, ⟨M, hM⟩, -⟩ := follows
      refine ⟨K', s', le, rem', .inl ⟨a, rfl, b', ?_, hab, M, hM⟩⟩
      have hb' := hM (max N M) (by omega)
      rcases ends (max N M) (by omega) with ⟨b, hQ, hb⟩ | ⟨e, _, he⟩
      · cases hb.symm.trans hb'
        exact hQ
      · cases he.symm.trans hb'
  | error reason s' =>
      rw [hx] at follows
      cases reason with
      | exhausted =>
          obtain ⟨⟨K', le, rem'⟩, hn⟩ := follows
          refine ⟨K', s', le, rem', .inr (.inl ⟨Nat.lt_of_not_le fun hN => ?_, rfl⟩)⟩
          rcases ends n hN with ⟨b, _, hb⟩ | ⟨e, _, he⟩
          · cases hb.symm.trans hn
          · cases he.symm.trans hn
      | failed e =>
          obtain ⟨⟨K', le, rem'⟩, ⟨M, hM⟩, -⟩ := follows
          refine ⟨K', s', le, rem', .inr (.inr ⟨e, ?_, rfl⟩)⟩
          have he := hM (max N M) (by omega)
          rcases ends (max N M) (by omega) with ⟨b, _, hb⟩ | ⟨e', hF, he'⟩
          · cases hb.symm.trans he
          · cases he'.symm.trans he
            exact hF

/-- What ends by name with one result, if it does not fail, ends by need with a related one. -/
theorem of_rel {x : Nat → ByNeed α} {y : Nat → ByName β} {R : Correspondence → α → β → Prop} {b : β}
    (h : ∀ n, (byNeed n).rel K R (x n) y)
    (ends : ∀ n, N ≤ n → y n = .ok b ∨ ∃ e, F e ∧ y n = .error (.failed e)) :
    Attains F N K x fun K' a => R K' a b := by
  have attains := of_outcomes (Q := fun c => c = b) h fun n hn =>
    (ends n hn).imp_left fun hb => ⟨b, rfl, hb⟩
  refine attains.imp fun K' a _ => ?_
  rintro ⟨_, rfl, hab, -⟩
  exact hab

theorem run {r' : Request} {v' : Value} (h : answer r' = .ok v') :
    ∃ N, ∀ {F : Error → Prop} {K : Correspondence} {r : Request}, r.Matches K r' →
      Attains F N K (fun n => run n r) fun K' v => Both K' v v' := by
  obtain ⟨N, hN⟩ := run_of_answer h
  exact ⟨N, fun hr => of_rel (fun n => byNeed_run n hr) fun n hn => .inl (hN n hn)⟩

/-- What is given by name, unless a name needs a subscript that is too long, is given by need. -/
theorem of_tends {y : Nat → ByName β} {b : β} (tends : Tends True y b) :
    ∃ N, ∀ {K : Correspondence} {x : Nat → ByNeed α} {R : Correspondence → α → β → Prop},
      (∀ n, (byNeed n).rel K R (x n) y) → Attains Error.IsNumeral N K x fun K' a => R K' a b := by
  obtain ⟨N, hN⟩ := tends.ends
  refine ⟨N, fun h => of_rel h fun n hn => ?_⟩
  rcases tends.outcome n with ok | exhausted | ⟨_, d, failed⟩
  · exact .inl ok
  · exact (hN n hn exhausted).elim
  · exact .inr ⟨_, ⟨d, rfl⟩, failed⟩

theorem readings {Γ' : Context} {r' : Reading} {e : Expr}
    (h : Reads .ofHints Γ'.names r'.task e) :
    ∃ N, ∀ {K : Correspondence} {Γ : Context} {r : Reading}, K.Exact → Γ.names = Γ'.names →
      r.Matches K r' →
        Attains Error.IsNumeral N K (fun n => readings n Γ r) fun _ e' => e' = e := by
  have tends : Tends True (fun n => TypeKernel.readings n Γ' r') e := by
    cases r' <;> exact h.ofHints_tends rfl
  obtain ⟨N, attains⟩ := of_tends tends
  exact ⟨N, fun hK hΓ hr => attains fun n => byNeed_readings n hK hΓ hr⟩

theorem readings_type {Γ' : Context} {A' : Value} {e : Expr}
    (h : Reads .ofHints Γ'.names (.type A') e) :
    ∃ N, ∀ {K : Correspondence} {Γ : Context} {r : Reading}, K.Exact → Γ.names = Γ'.names →
      r.Matches K (.type A') →
        Attains Error.IsNumeral N K (fun n => TypeKernel.readings n Γ r) fun _ e' => e' = e :=
  readings h

theorem readings_value {Γ' : Context} {A' v' : Value} {e : Expr}
    (h : Reads .ofHints Γ'.names (.value A' v') e) :
    ∃ N, ∀ {K : Correspondence} {Γ : Context} {r : Reading}, K.Exact → Γ.names = Γ'.names →
      r.Matches K (.value A' v') →
        Attains Error.IsNumeral N K (fun n => TypeKernel.readings n Γ r) fun _ e' => e' = e :=
  readings h

end Attains

end TypeKernel
