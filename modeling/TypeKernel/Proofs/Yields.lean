/-
# TypeKernel.Proofs.Yields — what computations by need yield

A context by need holds values that share cells; the same context by name holds values that match them.
`Yields K x P` is what a proof about a run by need asks for: if `x` is started in a session that is faithful
to `K`, then the session stays faithful, whether `x` returns or stops, and `P` holds of what it returns.
Evaluation and reading back yield what they give by name.
-/
import TypeKernel.Proofs.Judged
import TypeKernel.Proofs.ReadByNeed

namespace TypeKernel

set_option autoImplicit false

open Machine

/-! ## Contexts by need and by name -/

/-- Bindings that match. -/
inductive Binding.Matches (K : Correspondence) : Binding → Binding → Prop
  | free {T T'} (hT : Both K T T') : Binding.Matches K (.free T) (.free T')
  | definition {T T' v v'} (hT : Both K T T') (hv : Both K v v') :
      Binding.Matches K (.definition T v) (.definition T' v')
  | claim {T T'} (hT : Both K T T') : Binding.Matches K (.claim T) (.claim T')

namespace Binding.Matches

variable {K K' : Correspondence} {b b' : Binding}

theorem mono (h : b.Matches K b') (le : K.Le K') : b.Matches K' b' := by
  cases h with
  | free hT => exact .free (hT.mono le)
  | definition hT hv => exact .definition (hT.mono le) (hv.mono le)
  | claim hT => exact .claim (hT.mono le)

theorem type (h : b.Matches K b') : Both K b.type b'.type := by
  cases h <;> assumption

theorem isClaim (h : b.Matches K b') : b.isClaim = b'.isClaim := by
  cases h <;> rfl

end Binding.Matches

/-- Contexts that bind the same names to matching bindings. -/
def Context.Matches (K : Correspondence) (Γ Γ' : Context) : Prop :=
  List.Forall₂ (fun p q => p.1 = q.1 ∧ p.2.Matches K q.2) Γ.bindings Γ'.bindings

namespace Context.Matches

variable {K K' : Correspondence} {Γ Γ' : Context}

theorem mono (h : Γ.Matches K Γ') (le : K.Le K') : Γ.Matches K' Γ' :=
  List.Forall₂.imp (fun _ _ h => ⟨h.1, h.2.mono le⟩) h

theorem names (h : Γ.Matches K Γ') : Γ.names = Γ'.names := by
  obtain ⟨bs⟩ := Γ
  obtain ⟨bs'⟩ := Γ'
  simp only [Context.Matches, Context.names] at h ⊢
  induction h with
  | nil => rfl
  | cons hb _ ih => rw [List.map_cons, List.map_cons, ih, hb.1]

theorem bindFree (h : Γ.Matches K Γ') (x : Name) {T T' : Value} (hT : Both K T T') :
    (Γ.bindFree x T).Matches K (Γ'.bindFree x T') :=
  .cons ⟨rfl, .free hT⟩ h

/-- A name has matching bindings, or none in either context. -/
theorem lookup_both (h : Γ.Matches K Γ') (x : Name) :
    (Γ.lookup x = none ∧ Γ'.lookup x = none) ∨
      ∃ b b', Γ.lookup x = some b ∧ Γ'.lookup x = some b' ∧ b.Matches K b' := by
  obtain ⟨bs⟩ := Γ
  obtain ⟨bs'⟩ := Γ'
  simp only [Context.Matches, Context.lookup] at h ⊢
  induction h with
  | nil => exact .inl ⟨rfl, rfl⟩
  | @cons p q _ _ hpq _ ih =>
      obtain ⟨y, c⟩ := p
      obtain ⟨y', c'⟩ := q
      obtain ⟨rfl, hc⟩ := hpq
      simp only [List.lookup_cons]
      cases x == y with
      | true => exact .inr ⟨c, c', rfl, rfl, hc⟩
      | false => exact ih

theorem lookup (h : Γ.Matches K Γ') {x : Name} {b : Binding} (hb : Γ.lookup x = some b) :
    ∃ b', Γ'.lookup x = some b' ∧ b.Matches K b' := by
  rcases h.lookup_both x with ⟨hn, _⟩ | ⟨c, b', hc, hb', hm⟩
  · cases hn.symm.trans hb
  · cases hc.symm.trans hb
    exact ⟨b', hb', hm⟩

/-- The environments match if each free variable stands for itself. -/
theorem env (h : Γ.Matches K Γ') (refl : ∀ x, K.binders x x)
    (hK : ∀ x T, (x, .free T) ∈ Γ.bindings → K.names x x) :
    TypeKernel.Matches K (.env Γ.env) (.env Γ'.env) := by
  obtain ⟨bs⟩ := Γ
  obtain ⟨bs'⟩ := Γ'
  simp only [Context.Matches, Context.env] at h hK ⊢
  induction h with
  | nil => exact .empty
  | @cons p q _ _ hpq _ ih =>
      obtain ⟨y, c⟩ := p
      obtain ⟨y', c'⟩ := q
      obtain ⟨rfl, hc⟩ := hpq
      have ih := ih fun x T hx => hK x T (.tail _ hx)
      cases hc with
      | free hT => exact .extend (refl y) ih (.neutral hT (.var (hK y _ (.head _))))
      | definition _ hv => exact .extend (refl y) ih hv
      | claim _ => exact ih

theorem env_exact (h : Γ.Matches K Γ') (hK : K.Exact) :
    TypeKernel.Matches K (.env Γ.env) (.env Γ'.env) :=
  h.env hK.refl fun x _ _ => (hK.names x x).2 rfl

theorem eval (h : Γ.Matches K Γ') (hK : K.Exact) (e : Expr) :
    Request.Matches K (.eval Γ.env e) (.eval Γ'.env e) :=
  .eval (h.env_exact hK) (.refl hK.refl e ((h.env_exact hK).pairing hK.binders hK.whole))

end Context.Matches

/-! ## Computations that keep the session faithful -/

/-- The session stays faithful, and what the computation returns satisfies `P`. -/
structure Yields {α : Type} (K : Correspondence) (x : ByNeed α) (P : Correspondence → α → Prop) :
    Prop where
  ok : ∀ {s a s'}, Remembers K s → x s = .ok a s' → ∃ K', K.Le K' ∧ Remembers K' s' ∧ P K' a
  stops : ∀ {s reason s'}, Remembers K s → x s = .error reason s' → ∃ K', K.Le K' ∧ Remembers K' s'

namespace Yields

variable {α β : Type} {K : Correspondence} {P : Correspondence → α → Prop}
  {Q : Correspondence → β → Prop} {n : Nat}

/-- Applied to a run that returns. -/
instance {x : ByNeed α} : CoeFun (Yields K x P) fun _ => ∀ s a s', Remembers K s → x s = .ok a s' →
    ∃ K', K.Le K' ∧ Remembers K' s' ∧ P K' a :=
  ⟨fun h _ _ _ rem ha => h.ok rem ha⟩

theorem pure {a : α} (h : P K a) : Yields K (Pure.pure a) P where
  ok rem ha := by
    cases ha
    exact ⟨K, .refl K, rem, h⟩
  stops _ ha := by cases ha

theorem bind {x : ByNeed α} {f : α → ByNeed β} (h : Yields K x P)
    (hf : ∀ K' a, K.Le K' → K'.Exact → P K' a → Yields K' (f a) Q) : Yields K (x >>= f) Q where
  ok {s b s''} rem hb := by
    simp only [Bind.bind, EStateM.bind] at hb
    split at hb
    · rename_i a s' hx
      obtain ⟨K', le, rem', ha⟩ := h.ok rem hx
      obtain ⟨K'', le', rem'', hb⟩ := (hf K' a le rem'.exact ha).ok rem' hb
      exact ⟨K'', le.trans le', rem'', hb⟩
    · cases hb
  stops {s reason s''} rem hb := by
    simp only [Bind.bind, EStateM.bind] at hb
    split at hb
    · rename_i a s' hx
      obtain ⟨K', le, rem', ha⟩ := h.ok rem hx
      obtain ⟨K'', le', rem''⟩ := (hf K' a le rem'.exact ha).stops rem' hb
      exact ⟨K'', le.trans le', rem''⟩
    · rename_i hx
      cases hb
      exact h.stops rem hx

theorem imp {x : ByNeed α} {R : Correspondence → α → Prop} (h : Yields K x P)
    (hR : ∀ K' a, K.Le K' → P K' a → R K' a) : Yields K x R where
  ok rem ha := by
    obtain ⟨K', le, rem', ha⟩ := h.ok rem ha
    exact ⟨K', le, rem', hR K' _ le ha⟩
  stops rem ha := h.stops rem ha

theorem report {event : Event} {x : ByNeed α} (h : Yields K x P) :
    Yields K (Machine.report event >>= fun _ => x) P where
  ok rem ha := h.ok (rem.record event) ha
  stops rem ha := h.stops (rem.record event) ha

theorem of_rel {x : ByNeed α} {y : Nat → ByName β} {R : Correspondence → α → β → Prop}
    (h : (byNeed n).rel K R x y) :
    Yields K x fun K' a => ∃ b, R K' a b ∧ ∃ i, y i = .ok b where
  ok {s a s'} rem ha := by
    obtain ⟨K', b, le, rem', hab, N, hN⟩ := (h s rem).ok ha
    exact ⟨K', le, rem', b, hab, N, hN N (Nat.le_refl N)⟩
  stops {s reason s'} rem ha := (h s rem).error ha

theorem run {r r' : Request} (h : r.Matches K r') :
    Yields K (run n r) fun K' v => ∃ v', Both K' v v' ∧ answer r' = .ok v' :=
  (of_rel (byNeed_run n h)).imp fun _ _ _ ⟨v', hv, _, hi⟩ => ⟨v', hv, answer_of_run hi⟩

theorem force {v v' : Value} (h : Both K v v') :
    Yields K (v.force n) fun K' w => ∃ w', Both K' w w' ∧ Forces v' w' :=
  run (.force h)

section Context

variable {Γ Γ' : Context}

theorem eval (hK : K.Exact) (h : Γ.Matches K Γ') (e : Expr) :
    Yields K (Γ.env.eval n e) fun K' v => ∃ v', Both K' v v' ∧ Evals Γ'.env e v' :=
  run (h.eval hK e)

theorem readings (hK : K.Exact) (hΓ : Γ.names = Γ'.names) {r r' : Reading} (hr : r.Matches K r') :
    Yields K (readings n Γ r) fun _ e => Reads .ofHints Γ'.names r'.task e :=
  (of_rel (byNeed_readings n hK hΓ hr)).imp fun _ _ _ ⟨_, he, _, hi⟩ => he ▸ Reads.of_readings hi

theorem readBackType (hK : K.Exact) (h : Γ.Matches K Γ') {T T' : Value} (hT : Both K T T') :
    Yields K (readBackType n Γ T) fun _ e => Reads .ofHints Γ'.names (.type T') e :=
  readings hK h.names (.type hT)

end Context

end Yields

end TypeKernel
