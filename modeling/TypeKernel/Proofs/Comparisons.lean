/-
# TypeKernel.Proofs.Comparisons — comparing by normal forms

The kernel compares types and elements by reading them back. In a context whose values mention only its
free variables, what reads back alike is equal, and what is equal reads back alike. An annotation that is
read back from a type is that type, and a range that does not mention its variable is one type for all
arguments. So the rules of the kernel are sound, and every admitted context has a telescope.
-/
import TypeKernel.Proofs.Soundness
import TypeKernel.Proofs.Tidy

namespace TypeKernel

set_option autoImplicit false

variable {Γ : Context} {t t' : Task} {n n' : Expr}

/-! ## Readings in two styles -/

theorem Correspondence.within_aligned {N : Name → Prop} {X X' : List Name} (h : ∀ x, N x → x ∈ X)
    (h' : ∀ x, N x → x ∈ X') : (within N).Aligned X X' [] [] where
  plain := within_plain N
  used := by
    rintro x _ ⟨rfl, hx⟩
    exact ⟨h x hx, h' x hx⟩
  same := by
    rintro x _ ⟨rfl, -⟩
    rfl

/-- A reading by the kernel has the nameless form of the reading in the style without choices. -/
theorem Reads.nameless_eq (h : Reads .ofHints Γ.names t n) {b : Name}
    (h' : Reads (.byPlace b) (b :: Γ.names) t n') (ht : t.Within Γ.BindsFree) :
    n.nameless = n'.nameless :=
  h.nameless Style.ofHints_fresh (Style.byPlace_fresh b) h' ht
    (Correspondence.within_aligned (fun _ hx => hx.mem_names) fun _ hx => .tail _ hx.mem_names)

/-- What reads back alike reads back as one expression in the style without choices. -/
theorem Converts.reads_one (h : Converts Γ t t') (ht : t.Within Γ.BindsFree)
    (ht' : t'.Within Γ.BindsFree) {b : Name} (hn : Reads (.byPlace b) (b :: Γ.names) t n)
    (hn' : Reads (.byPlace b) (b :: Γ.names) t' n') : n = n' := by
  obtain ⟨e, e', he, he', same⟩ := h
  refine Expr.Placed.eq n hn.placed hn'.placed .nil ?_
  calc n.nameless = e.nameless := (he.nameless_eq hn ht).symm
    _ = e'.nameless := Expr.nameless_eq_of_alphaEquiv same
    _ = n'.nameless := he'.nameless_eq hn' ht'

theorem Agree.alphaEquiv (h : Agree t t') (ht : t.Within Γ.BindsFree) (ht' : t'.Within Γ.BindsFree)
    (hn : Reads .ofHints Γ.names t n) (hn' : Reads .ofHints Γ.names t' n') :
    n.alphaEquiv n' = some true := by
  obtain ⟨e, e', he, he', heq⟩ := h (.byPlace "") ("" :: Γ.names)
  cases heq "" rfl
  exact Expr.alphaEquiv_of_nameless_eq hn.known
    ((hn.nameless_eq he ht).trans (hn'.nameless_eq he' ht').symm)

/-! ## A variable that is not mentioned -/

namespace Telescope

variable {Θ : Telescope} {𝒜 𝒟 𝒱 : Dependent} {𝒳 : Env → Name} {𝓡 : Env → Closure}

/-- A range at a variable, read back without the variable, is the range at every argument. -/
theorem QuantForm.meets (form : Θ.QuantForm .large .pi 𝒜 𝒳 𝒟 𝓡) (hΘ : Θ.Describes Γ) {y : Name}
    {B C a : Value} (hB : Applies (𝓡 Γ.env) (.ofVar y (𝒟 Γ.env)) B)
    (hn : Reads .ofHints (y :: Γ.names) (.type B) n) (hy : n.occursFree y = some false)
    (ha : ElEq (𝒟 Γ.env) a a) (hC : Applies (𝓡 Γ.env) a C) : (Role.type .large C).Met ([y] = []) Γ n := by
  have related := hΘ.ofContext.mono (Replacement.le_hide _ y)
  have avoids : n.Avoids [y] := fun z hz => List.mem_singleton.1 hz ▸ hy
  exact (Frame.glued.hidden_range Style.ofHints_fresh (form.domain related)
    (form.range related (.refl _)) ha hB hC hn avoids).met rfl

end Telescope

/-! ## Sound disciplines -/

namespace Discipline

open Telescope

theorem semantic_sound : Discipline.semantic.Sound where
  sameType _ _ _ h := h
  same _ _ _ h := h
  annotates strict := (strict trivial).elim
  simple _ form hv h := ⟨_, settle_eq h.1, (form.family_range hv), h.2⟩

/-- A type that the rules accept as it stands. -/
theorem hasType_of_met {Θ : Telescope} {C : Value} {p : Prop} (hΘ : Θ.Describes Γ)
    (h : (Role.type .large C).Met p Γ n) : Θ.HasType .large n ∧ TyEq .large (n.value Γ.env) C := by
  obtain ⟨v, hv, hvC⟩ := h.holds
  have accepted := h.fits.accepted (semantic_complete p) .empty Renaming.plain_empty
  exact ⟨accepted.sound semantic_sound hΘ, Expr.value_eq hv ▸ hvC⟩

theorem scoped_sound : Discipline.scoped.Sound where
  sameType {Θ Γ 𝒯 𝒮} hΘ hT hS h := by
    obtain ⟨_, wT, wS, h⟩ := h
    obtain ⟨b, hb⟩ : ∃ b, b ∉ Γ.names := ⟨_, Style.ofHints_fresh Γ.names ""⟩
    obtain ⟨n, _, hn, _⟩ := (hΘ.tyEq hT hΘ.identity).agree (.byPlace b) (b :: Γ.names)
    obtain ⟨n', _, hn', _⟩ := (hΘ.tyEq hS hΘ.identity).agree (.byPlace b) (b :: Γ.names)
    cases h.reads_one (.type wT) (.type wS) hn hn'
    exact hΘ.tyEq_of_reading hT hS hb hn hn' hΘ.identity
  same {Θ Γ 𝒯 𝒱 𝒲} hΘ hv hw h := by
    obtain ⟨_, wT, wv, ww, h⟩ := h
    obtain ⟨b, hb⟩ : ∃ b, b ∉ Γ.names := ⟨_, Style.ofHints_fresh Γ.names ""⟩
    have hT := hΘ.tyEq hv.family hΘ.identity
    obtain ⟨n, _, hn, _⟩ := (hΘ.elEq hv hΘ.identity).agree hT (.byPlace b) (b :: Γ.names)
    obtain ⟨n', _, hn', _⟩ := (hΘ.elEq hw hΘ.identity).agree hT (.byPlace b) (b :: Γ.names)
    cases h.reads_one (.value wT wv) (.value wT ww) hn hn'
    exact hΘ.elEq_of_reading hv hw hb hn hn' hΘ.identity
  annotates _ _ _ _ _ hΘ hT h := by
    have meets := Frame.glued.type_gives Style.ofHints_fresh (hT hΘ.ofContext) _ h nofun
    exact hasType_of_met hΘ (meets.met rfl)
  simple hΘ form hv h := by
    obtain ⟨y, B, n, _, hB, hn, hy, hD⟩ := h
    have met := fun {a C} => form.meets (a := a) (C := C) hΘ hB hn hy
    have hn := hasType_of_met hΘ (met (hΘ.elEq hv hΘ.identity) (form.applies hΘ hv hΘ.identity))
    refine ⟨n.value, Expr.value_eq hD, hn.1.family, fun ha hC => ?_⟩
    exact Expr.value_eq hD ▸ (hasType_of_met hΘ (met ha hC)).2.symm

end Discipline

/-! ## Admitted contexts -/

/-- What the kernel accepts in a scoped context has a meaning. -/
theorem Judged.means {Θ : Telescope} {r : Renaming} {e core : Expr} {aim : Aim}
    (h : Judged .kernel Γ r e aim core) (hΓ : Γ.Scoped) (ha : aim.Given Γ.BindsFree)
    (hΘ : Θ.Describes Γ) : Θ.Means Γ.env core aim :=
  (h.stays Discipline.kernel_local hΓ ha).judged.sound Discipline.scoped_sound hΘ

theorem Admitted.described {Γ : Context} (h : Admitted Γ) : ∃ Θ : Telescope, Θ.Describes Γ := by
  induction h with
  | empty => exact ⟨_, .empty⟩
  | free h hx ht hT ih =>
      obtain ⟨Θ, hΘ⟩ := ih
      have type := ht.means h.scoped trivial hΘ
      cases Expr.value_eq hT
      exact ⟨_, hΘ.free hx type.family⟩
  | claim _ hx _ _ ih =>
      obtain ⟨Θ, hΘ⟩ := ih
      exact ⟨_, hΘ.claim hx⟩
  | definition h hx ht hT hd hv ih =>
      obtain ⟨Θ, hΘ⟩ := ih
      have type := ht.means h.scoped trivial hΘ
      have value := hd.means h.scoped (h.scoped.eval hT) hΘ _ (Expr.value_eq hT) type.family
      cases Expr.value_eq hT
      cases Expr.value_eq hv
      rw [Context.bindDefinition_of_notMem hx]
      exact ⟨_, hΘ.definition hx type.family value.member⟩

end TypeKernel
