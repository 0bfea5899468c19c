/-
# TypeKernel.Proofs.CheckedByNeed — checking by need ends as checking by name

Checking by need tracks checking by name strictly (`Tracking.byNeed`), so it ends in the same way: with the
very same elaborated expression and a type that matches, or with the very same rejection or defect. Whatever
is proved of checking by name, where there are no cells and an outcome is just a value, thereby holds of
checking by need, in every session and whatever was done there before. In particular what is accepted follows
the typing rules (`Yields.synthesize`).
-/
import TypeKernel.Proofs.JudgedByName
import TypeKernel.Proofs.TrackedChecking
import TypeKernel.Toplevel

namespace TypeKernel

set_option autoImplicit false

open Machine

theorem Tracking.keeping_meets {unit : Option Nat} {source : Name → Prop} {n b : Nat} {K : Correspondence}
    (hK : K.Near) {Γ Γ' : Context} (h : Γ.Matches K Γ') (env : Matches K (.env Γ.env) (.env Γ'.env))
    (room : (Naming.keeping unit source).Room (b + n) Γ.names) (covers : (Naming.keeping unit source).Covers b K)
    (sources : ∀ x, source x → K.binders x x) : (Tracking.keeping unit source).Meets n b K Eq Γ Γ' where
  toFrame := Tracking.keeping_frame hK h.names room
  env := env
  code := by
    rintro x _ rfl
    exact env.pairing hK.binders hK.whole x
  lookup := by
    rintro x _ rfl
    exact h.lookup_both x
  binders := covers
  source x x' hx := hx.1 trivial ▸ sources x hx.2

theorem Tracking.byNeed_meets {n b : Nat} {K : Correspondence} (hK : K.Exact) {Γ Γ' : Context}
    (h : Γ.Matches K Γ') : Tracking.byNeed.Meets n b K Eq Γ Γ' :=
  keeping_meets hK.toNear h (h.env_exact hK) (.untracked rfl) (Naming.limits_none.2 hK.refl).covers
    fun x _ => hK.refl x

theorem byNeed_judges (n : Nat) (e : Expr) :
    Tracking.byNeed.Judges n e.cost Eq (judge n e) (fun i => judge i e) :=
  Tracking.judge n (.refl (fun _ => ⟨fun _ => rfl, trivial⟩) e fun _ => rfl) fun _ _ _ h => h

/-- An elaborated expression with a type that matches. -/
def SameCore (K : Correspondence) (p q : Expr × Value) : Prop :=
  p.1 = q.1 ∧ Both K p.2 q.2

section Checking

variable {n : Nat} {K : Correspondence} (hK : K.Exact) {Γ Γ' : Context} (hΓ : Γ.Matches K Γ')

include hK hΓ

theorem byNeed_synthesize (e : Expr) (r : Renaming) :
    (byNeed n).rel K SameCore (synthesize n Γ e r) (fun i => synthesize i Γ' e r) := fun s rem =>
  (rel_byNeed ((byNeed_judges n e).synth (b := 0) (Tracking.byNeed_meets hK hΓ)
    (fun _ _ => congrArg r.rename)) s rem).imp fun _ _ _ h => ⟨Tracking.byNeed_written (K := K) h.1, h.2⟩

theorem byNeed_check (e : Expr) (r : Renaming) {A A' : Value} (hA : Both K A A') :
    (byNeed n).rel K Same (check n Γ e A r) (fun i => check i Γ' e A' r) := fun s rem =>
  (rel_byNeed ((byNeed_judges n e).check (b := 0) (Tracking.byNeed_meets hK hΓ)
    (fun _ _ => congrArg r.rename) hA) s rem).imp fun _ _ _ h => Tracking.byNeed_written (K := K) h

theorem byNeed_isType (e : Expr) (r : Renaming) :
    (byNeed n).rel K Same (isType n Γ e r) (fun i => isType i Γ' e r) := fun s rem =>
  (rel_byNeed ((byNeed_judges n e).isType (b := 0) (Tracking.byNeed_meets hK hΓ)
    (fun _ _ => congrArg r.rename)) s rem).imp fun _ _ _ h => Tracking.byNeed_written (K := K) h

theorem byNeed_eval (e : Expr) :
    (byNeed n).rel K Both (Γ.env.eval n e) (fun i => Γ'.env.eval i e) :=
  byNeed_run n (hΓ.eval hK e)

omit hΓ in
theorem byNeed_readBackType (names : Γ.names = Γ'.names) {A A' : Value} (hA : Both K A A') :
    (byNeed n).rel K Same (readBackType n Γ A) (fun i => readBackType i Γ' A') :=
  byNeed_readings n hK names (.type hA)

theorem byNeed_convert {A A' v v' w w' : Value} (hA : Both K A A') (hv : Both K v v')
    (hw : Both K w w') :
    (byNeed n).rel K Same (convert n Γ A v w) (fun i => convert i Γ' A' v' w') :=
  rel_byNeed (Tracking.convert (Tracking.byNeed_frame hK hΓ.names) hA hv hw)

theorem byNeed_normalize {A A' v v' : Value} (hA : Both K A A') (hv : Both K v v') :
    (byNeed n).rel K Same (normalize n Γ A v) (fun i => normalize i Γ' A' v') := by
  refine byNeed_bind (byNeed_readings n hK hΓ.names (.type hA)) fun K₁ _ t le₁ hK₁ ht => ?_
  cases ht
  refine byNeed_bind (byNeed_readings n hK₁ hΓ.names (.value (hA.mono le₁) (hv.mono le₁)))
    fun K₂ _ e le₂ hK₂ he => ?_
  cases he
  exact (byNeed n).pure rfl

theorem byNeed_typeValue (e : Expr) :
    (byNeed n).rel K Both (typeValue n Γ e) (fun i => typeValue i Γ' e) := by
  refine byNeed_bind (byNeed_isType hK hΓ e .empty) fun K₁ core _ le₁ hK₁ hc => ?_
  cases hc
  exact byNeed_eval hK₁ (hΓ.mono le₁) core

theorem byNeed_valueAt (e : Expr) {A A' : Value} (hA : Both K A A') :
    (byNeed n).rel K Both (valueAt n Γ e A) (fun i => valueAt i Γ' e A') := by
  refine byNeed_bind (byNeed_check hK hΓ e .empty hA) fun K₁ core _ le₁ hK₁ hc => ?_
  cases hc
  exact byNeed_eval hK₁ (hΓ.mono le₁) core

theorem byNeed_rep (e : Expr) : (byNeed n).rel K Same (rep n Γ e) (fun i => rep i Γ' e) := by
  refine byNeed_bind (byNeed_synthesize hK hΓ e .empty) fun K₁ p q le₁ hK₁ hp => ?_
  obtain ⟨core, T⟩ := p
  obtain ⟨_, T'⟩ := q
  obtain ⟨rfl, hT⟩ := hp
  refine byNeed_bind (byNeed_eval hK₁ (hΓ.mono le₁) core) fun K₂ v v' le₂ hK₂ hv => ?_
  refine byNeed_bind (byNeed_normalize hK₂ ((hΓ.mono le₁).mono le₂) (hT.mono le₂) hv)
    fun K₃ _ forms le₃ hK₃ hf => ?_
  cases hf
  exact (byNeed n).pure rfl

theorem byNeed_normType (e : Expr) :
    (byNeed n).rel K Same (normType n Γ e) (fun i => normType i Γ' e) := by
  refine byNeed_bind (byNeed_typeValue hK hΓ e) fun K₁ v v' le₁ hK₁ hv => ?_
  refine byNeed_bind (byNeed_normalize hK₁ (hΓ.mono le₁) (.const .univ) hv)
    fun K₂ _ forms le₂ hK₂ hf => ?_
  cases hf
  exact (byNeed n).pure rfl

end Checking

namespace Yields

variable {n : Nat} {K : Correspondence} {Γ Γ' : Context} {e : Expr} (r : Renaming) (hK : K.Exact)
  (hΓ : Γ.Matches K Γ')

include hK hΓ

theorem synthesize : Yields K (synthesize n Γ e r) fun K' p =>
    ∃ T, Both K' p.2 T ∧ Judged .kernel Γ' r e (.synth T) p.1 := by
  refine (of_rel (byNeed_synthesize hK hΓ e r)).imp fun K' p _ ⟨q, hq, i, hi⟩ => ⟨q.2, hq.2, ?_⟩
  rw [hq.1]
  exact (judge_sound i e).synth q hi

theorem check {A A' : Value} (hA : Both K A A') : Yields K (check n Γ e A r) fun _ core =>
    Judged .kernel Γ' r e (.check A') core := by
  refine (of_rel (byNeed_check hK hΓ e r hA)).imp fun K' core _ ⟨_, same, i, hi⟩ => ?_
  exact (judge_sound i e).check core (same ▸ hi)

theorem isType : Yields K (isType n Γ e r) fun _ core => Judged .kernel Γ' r e .isType core := by
  refine (of_rel (byNeed_isType hK hΓ e r)).imp fun K' core _ ⟨_, same, i, hi⟩ => ?_
  exact (judge_sound i e).isType core (same ▸ hi)

end Yields

theorem rep_inv {n : Nat} {Γ : Context} {e form : Expr} (h : Returns (rep n Γ e : ByName Expr) form) :
    ∃ core T v t e', form = .the t e' ∧
      Returns (synthesize n Γ e .empty : ByName (Expr × Value)) (core, T) ∧
      Returns (Γ.env.eval n core : ByName Value) v ∧ Returns (readBackType n Γ T : ByName Expr) t ∧
      Returns (readBack n Γ T v : ByName Expr) e' := by
  obtain ⟨⟨core, T⟩, found, h⟩ := h.bind
  obtain ⟨v, hv, h⟩ := h.bind
  obtain ⟨⟨t, e'⟩, normal, h⟩ := h.bind
  cases h.pure_eq
  obtain ⟨_, ht, normal⟩ := normal.bind
  obtain ⟨_, he, normal⟩ := normal.bind
  cases normal.pure_eq
  exact ⟨core, T, v, t, e', rfl, found, hv, ht, he⟩

end TypeKernel
