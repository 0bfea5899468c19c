/-
# TypeKernel.Proofs.Gluing — instances as an interpretation

The relation between values and their instances satisfies the laws of an interpretation. Its worlds are
the replacements of variables.
-/
import TypeKernel.Proofs.Reevaluation

namespace TypeKernel

set_option autoImplicit false

open Replacement

/-- Small types and their instances. -/
def SmallGlued {σ : Style} (w : Replacement σ) : Rel := fun A C =>
  TyEq .small A A ∧ TyEq .small C C ∧ ∃ Q, Glued none w A C Q

/-- The elements of the universe and their instances, at a size at which it is a type. -/
def Size.glued (σ : Style) : Size → Option (Replacement σ → Rel)
  | .small => none
  | .large => some SmallGlued

/-- Values and their instances. -/
def Frame.glued (σ : Style) : Frame where
  World := Replacement σ
  le := Le
  ty ℓ w A C := TyEq ℓ A A ∧ TyEq ℓ C C ∧ ∃ Q, Glued (ℓ.glued σ) w A C Q
  el w A C v u := ∃ Q, Glued (Size.large.glued σ) w A C Q ∧ Full A C Q w v u
  stuck w C n u := w.Stands C n u

namespace Frame.glued

variable {σ : Style}

theorem universe_none : Glued.Universe (none : Option (Replacement σ → Rel)) :=
  ⟨nofun, nofun⟩

theorem universe_glued (ℓ : Size) : Glued.Universe (ℓ.glued σ) := by
  cases ℓ with
  | small => exact universe_none
  | large =>
      refine ⟨?_, ?_⟩
      · rintro _ ⟨⟩ w w' A C hw ⟨hA, hC, Q, h⟩
        exact ⟨hA, hC, Q, h.mono universe_none hw⟩
      · rintro _ ⟨⟩ w A A' C C' ⟨hA, hC, Q, h⟩ hcA hcC
        exact ⟨(hA.form hcA).form_right hcA, (hC.form hcC).form_right hcC, h.form hcA hcC⟩

theorem evaluable_universe (hσ : σ.Fresh) (ℓ : Size) : Evaluable.Universe ℓ (ℓ.glued σ) := by
  have none : Evaluable.Universe .small (none : Option (Replacement σ → Rel)) :=
    ⟨nofun, nofun, nofun⟩
  cases ℓ with
  | small => exact none
  | large =>
      refine ⟨fun _ => rfl, ?_, ?_⟩
      · rintro _ ⟨⟩ w A C ⟨hA, hC, Q, h⟩
        exact (h.evaluable hσ universe_none none hA hC).type (.refl w)
      · rintro _ ⟨⟩ w T e u hT hs
        exact ⟨.stuck (forces_self rfl) (forces_self rfl) hT hT hs.reads,
          (ElEq.univ_iff (forces_self rfl)).1 hs.good, _, .stuck (forces_self rfl) hs⟩

/-- A derivation at any size relates the elements of a type. -/
theorem el_iff {ℓ : Size} {w : Replacement σ} {A C v u : Value} {Q : Replacement σ → Rel}
    (h : Glued (ℓ.glued σ) w A C Q) : (glued σ).el w A C v u ↔ Full A C Q w v u := by
  have h : Glued (Size.large.glued σ) w A C Q := by
    cases ℓ with
    | small => exact h.lift _
    | large => exact h
  refine ⟨?_, fun hvu => ⟨Q, h, hvu⟩⟩
  rintro ⟨Q', h', hvu⟩
  rw [h.same (fun h h' => Option.some.inj (h.symm.trans h')) h' hvu.1.type hvu.2.1.type (.refl w)
    (.refl w)]
  exact hvu

theorem el_eq {ℓ : Size} {w : Replacement σ} {A C : Value} {Q : Replacement σ → Rel}
    (h : Glued (ℓ.glued σ) w A C Q) : (glued σ).el w A C = Full A C Q w :=
  funext fun _ => funext fun _ => propext (el_iff h)

theorem lift {ℓ : Size} {w : Replacement σ} {A C : Value} (h : (glued σ).ty ℓ w A C) :
    (glued σ).ty .large w A C := by
  obtain ⟨hA, hC, Q, h⟩ := h
  cases ℓ with
  | small => exact ⟨hA.lift, hC.lift, Q, h.lift _⟩
  | large => exact ⟨hA, hC, Q, h⟩

theorem general : (glued σ).General where
  refl := .refl
  trans := .trans
  ty_mono := by
    rintro ℓ w w' A C ⟨hA, hC, Q, h⟩ hw
    exact ⟨hA, hC, Q, h.mono (universe_glued ℓ) hw⟩
  el_mono := by
    rintro w w' A C v u ⟨Q, h, hvu⟩ hw
    have hU := universe_glued (σ := σ) .large
    exact ⟨Q, h.mono hU hw, h.el_mono hU (.refl w) hw hvu⟩
  ty_left h := h.1
  ty_right h := h.2.1
  el_left := by
    rintro w A C v u ⟨Q, h, hvu⟩
    exact hvu.1
  el_right := by
    rintro w A C v u ⟨Q, h, hvu⟩
    exact hvu.2.1
  el_ty := by
    rintro w A C v u ⟨Q, h, hvu⟩
    exact ⟨hvu.1.type, hvu.2.1.type, Q, h⟩
  lift := lift
  ty_form := by
    rintro ℓ w A A' C C' ⟨hA, hC, Q, h⟩ hcA hcC
    exact ⟨(hA.form hcA).form_right hcA, (hC.form hcC).form_right hcC, h.form hcA hcC⟩
  el_form := by
    rintro w A C v v' u u' ⟨Q, h, hvu⟩ hv hu
    exact ⟨Q, h, h.el_form (universe_glued .large) hvu hv hu⟩
  conv := by
    rintro w A A' C C' v u ⟨Q, h, hvu⟩ hA hC ⟨_, _, Q', h'⟩
    refine ⟨Q', h', ?_⟩
    rw [← h.same (fun h h' => Option.some.inj (h.symm.trans h')) h' hA hC (.refl w) (.refl w)]
    exact hvu

theorem el_nat {w : Replacement σ} {k k' : Value} :
    (glued σ).el w .nat .nat k k' ↔ NatGlued w k k' := by
  have h : Glued (Size.large.glued σ) w .nat .nat NatGlued := .const (forces_self rfl) (forces_self rfl) .nat
  refine (el_iff h).trans ⟨fun h => h.2.2, fun hk => ⟨?_, ?_, hk⟩⟩
  · induction hk with
    | zero hv _ => exact (ElEq.zero.form hv.coincides.symm).form_right hv.coincides.symm
    | add1 hv _ _ ih => exact (ih.add1.form hv.coincides.symm).form_right hv.coincides.symm
    | stuck h => exact h.left
  · induction hk with
    | zero _ hu => exact (ElEq.zero.form hu.coincides.symm).form_right hu.coincides.symm
    | add1 _ hu _ ih => exact (ih.add1.form hu.coincides.symm).form_right hu.coincides.symm
    | stuck h => exact h.right

theorem formers : (glued σ).Formers where
  const := by
    intro ℓ w c hc
    have hT : TyEq ℓ (.const c) (.const c) := .const hc (forces_self rfl) (forces_self rfl)
    refine ⟨hT, hT, ?_⟩
    suffices ∃ Q, ConstGlued (ℓ.glued σ) c Q by
      obtain ⟨Q, hQ⟩ := this
      exact ⟨Q, .const (forces_self rfl) (forces_self rfl) hQ⟩
    cases c with
    | univ => cases ℓ with
      | small => cases hc
      | large => exact ⟨_, .univ rfl⟩
    | nat => exact ⟨_, .nat⟩
    | atom => exact ⟨_, .atom⟩
    | trivial => exact ⟨_, .trivial⟩
    | absurd => exact ⟨_, .absurd⟩
    | zero | sole | nil | vecNil => cases ℓ <;> cases hc
  const_inv := by
    rintro ℓ w A C c ⟨_, _, Q, h⟩ hA
    cases h with
    | const h h' => cases h.unique hA; exact h'
    | _ h => cases h.unique hA
  list := by
    rintro ℓ w E E' ⟨hE, hE', Q, h⟩
    exact ⟨.list (forces_self rfl) (forces_self rfl) hE, .list (forces_self rfl) (forces_self rfl) hE', _,
      .list (forces_self rfl) (forces_self rfl) h⟩
  list_inv := by
    rintro ℓ w A C E ⟨hAA, hCC, Q, h⟩ hA
    cases h with
    | list h h' hE =>
        cases h.unique hA
        obtain ⟨_, h₁, hE₁⟩ := hAA.list_inv hA
        obtain ⟨_, h₂, hE₂⟩ := hCC.list_inv h'
        cases h₁.unique hA
        cases h₂.unique h'
        exact ⟨_, h', hE₁, hE₂, _, hE⟩
    | _ h => cases h.unique hA
  vec := by
    rintro ℓ w E E' k k' ⟨hE, hE', Q, h⟩ hk
    have hk₁ := general.el_left hk
    have hk₂ := general.el_right hk
    exact ⟨.vec (forces_self rfl) (forces_self rfl) hE hk₁, .vec (forces_self rfl) (forces_self rfl) hE' hk₂, _,
      .vec (forces_self rfl) (forces_self rfl) h (el_nat.1 hk)⟩
  vec_inv := by
    rintro ℓ w A C E k ⟨hAA, hCC, Q, h⟩ hA
    cases h with
    | vec h h' hE hk =>
        cases h.unique hA
        obtain ⟨_, _, h₁, hE₁, _⟩ := hAA.vec_inv hA
        obtain ⟨_, _, h₂, hE₂, _⟩ := hCC.vec_inv h'
        cases h₁.unique hA
        cases h₂.unique h'
        exact ⟨_, _, h', ⟨hE₁, hE₂, _, hE⟩, el_nat.2 hk⟩
    | _ h => cases h.unique hA
  either := by
    rintro ℓ w l l' r r' ⟨hl, hl', Q, h⟩ ⟨hr, hr', P, h'⟩
    exact ⟨.either (forces_self rfl) (forces_self rfl) hl hr, .either (forces_self rfl) (forces_self rfl) hl' hr', _,
      .either (forces_self rfl) (forces_self rfl) h h'⟩
  either_inv := by
    rintro ℓ w A C l r ⟨hAA, hCC, Q, h⟩ hA
    cases h with
    | either h h' hl hr =>
        cases h.unique hA
        obtain ⟨_, _, h₁, hl₁, hr₁⟩ := hAA.either_inv hA
        obtain ⟨_, _, h₂, hl₂, hr₂⟩ := hCC.either_inv h'
        cases h₁.unique hA
        cases h₂.unique h'
        exact ⟨_, _, h', ⟨hl₁, hl₂, _, hl⟩, hr₁, hr₂, _, hr⟩
    | _ h => cases h.unique hA
  equal := by
    rintro ℓ w K K' l l' r r' ⟨hK, hK', Q, h⟩ hl hr
    have hl := (el_iff h).1 hl
    have hr := (el_iff h).1 hr
    exact ⟨.equal (forces_self rfl) (forces_self rfl) hK hl.1 hr.1,
      .equal (forces_self rfl) (forces_self rfl) hK' hl.2.1 hr.2.1, _, .equal (forces_self rfl) (forces_self rfl) h hl hr⟩
  equal_inv := by
    rintro ℓ w A C K l r ⟨hAA, hCC, Q, h⟩ hA
    cases h with
    | equal h h' hK hl hr =>
        cases h.unique hA
        obtain ⟨_, _, _, h₁, hK₁, _⟩ := hAA.equal_inv hA
        obtain ⟨_, _, _, h₂, hK₂, _⟩ := hCC.equal_inv h'
        cases h₁.unique hA
        cases h₂.unique h'
        exact ⟨_, _, _, h', ⟨hK₁, hK₂, _, hK⟩, (el_iff hK).2 hl, (el_iff hK).2 hr⟩
    | _ h => cases h.unique hA
  quant := by
    rintro ℓ w A C q x x' d d' r r' hAA hCC hA hC ⟨_, _, D, hd⟩ hr
    refine ⟨hAA, hCC, ?_⟩
    -- One relation for each pair of related elements of the domain.
    have ranges : ∀ w' a b, ∃ Q, w.Le w' → Full d d' D w' a b → ∀ B B', Applies r a B →
        Applies r' b B' → Glued (ℓ.glued σ) w' B B' Q := by
      intro w' a b
      by_cases hab : w.Le w' ∧ Full d d' D w' a b
      · obtain ⟨hw, hab⟩ := hab
        obtain ⟨B, hB⟩ := hAA.applies hA hab.1
        obtain ⟨B', hB'⟩ := hCC.applies hC hab.2.1
        have hd' := hd.mono (universe_glued ℓ) hw
        obtain ⟨_, _, Q, hQ⟩ := hr hw ((el_iff hd').2 hab) hB hB'
        refine ⟨Q, fun _ _ B₁ B₁' hB₁ hB₁' => ?_⟩
        cases hB.unique hB₁
        cases hB'.unique hB₁'
        exact hQ
      · exact ⟨fun _ _ _ => False, fun hw hab' => absurd ⟨hw, hab'⟩ hab⟩
    choose QB hQB using ranges
    exact ⟨_, .quant hA hC hd fun {w' a b B B'} hw hab hB hB' => hQB w' a b hw hab B B' hB hB'⟩
  quant_inv := by
    rintro ℓ w A C q x d r ⟨hAA, hCC, Q, h⟩ hA
    cases h with
    | quant h h' hd hB =>
        cases h.unique hA
        refine ⟨_, _, _, h', ⟨hAA.domain hA hA, hCC.domain h' h', _, hd⟩, ?_⟩
        intro w' a b hw hab
        have hab := (el_iff (hd.mono (universe_glued ℓ) hw)).1 hab
        obtain ⟨B, hB₁⟩ := hAA.applies hA hab.1
        obtain ⟨B', hB₁'⟩ := hCC.applies h' hab.2.1
        exact ⟨B, B', hB₁, hB₁', hAA.range hA hA hab.1 hB₁ hB₁, hCC.range h' h' hab.2.1 hB₁' hB₁', _,
          hB hw hab hB₁ hB₁'⟩
    | _ h => cases h.unique hA

/-! ## Elements by the form of their type -/

section Forms

variable {w : Replacement σ} {A C E E' l l' r r' K K' a a' v u : Value} {R L : Rel}

theorem good_list (hAA : TyEq .large A A) (hCC : TyEq .large C C) (hA : Forces A (.list E))
    (hC : Forces C (.list E')) (hR : ∀ a b, R a b → ElEq E a a ∧ ElEq E' b b)
    (h : ListForm (w.Held A C) R v u) : ElEq A v v ∧ ElEq C u u := by
  have iff := fun {v u} => ElEq.list_iff (v := v) (w := u) hAA hA
  have iff' := fun {v u} => ElEq.list_iff (v := v) (w := u) hCC hC
  induction h with
  | nil hv hu => exact ⟨iff.2 (.nil hv hv), iff'.2 (.nil hu hu)⟩
  | cons hv hu hab _ ih =>
      exact ⟨iff.2 (.cons hv hv (hR _ _ hab).1 (iff.1 ih.1)),
        iff'.2 (.cons hu hu (hR _ _ hab).2 (iff'.1 ih.2))⟩
  | stuck h => exact ⟨h.left, h.right⟩

theorem good_vec {k k' : Value} (hE : TyEq .large E E) (hE' : TyEq .large E' E')
    (hR : ∀ a b, R a b → ElEq E a a ∧ ElEq E' b b)
    (h : VecForm (fun k k' => w.Held (.vec E k) (.vec E' k')) R k k' v u) :
    ElEq .nat k k → ElEq .nat k' k' → ElEq (.vec E k) v v ∧ ElEq (.vec E' k') u u := by
  have iff := fun {E k v u} (hE : TyEq .large E E) hk =>
    ElEq.vec_iff (v := v) (w := u) (.vec (forces_self rfl) (forces_self rfl) hE hk) (forces_self (v := .vec E k) rfl)
  have pred : ∀ {k m}, ElEq .nat k k → Forces k (.add1 m) → ElEq .nat m m := by
    intro k m hk hm
    obtain ⟨_, h₁, hmm⟩ := ((ElEq.nat_iff (forces_self rfl)).1 hk).add1_inv hm
    cases h₁.unique hm
    exact (ElEq.nat_iff (forces_self rfl)).2 hmm
  induction h with
  | nil hk hk' hv hu =>
      exact fun h h' => ⟨(iff hE h).2 (.nil hk hk hv hv), (iff hE' h').2 (.nil hk' hk' hu hu)⟩
  | cons hk hk' hv hu hab _ ih =>
      intro h h'
      obtain ⟨ih, ih'⟩ := ih (pred h hk) (pred h' hk')
      exact ⟨(iff hE h).2 (.cons hk hk hv hv (hR _ _ hab).1 ((iff hE (pred h hk)).1 ih)),
        (iff hE' h').2 (.cons hk' hk' hu hu (hR _ _ hab).2 ((iff hE' (pred h' hk')).1 ih'))⟩
  | stuck h => exact fun _ _ => ⟨h.left, h.right⟩

theorem good_either (hAA : TyEq .large A A) (hCC : TyEq .large C C) (hA : Forces A (.either l r))
    (hC : Forces C (.either l' r')) (hL : ∀ a b, L a b → ElEq l a a ∧ ElEq l' b b)
    (hR : ∀ a b, R a b → ElEq r a a ∧ ElEq r' b b) (h : EitherForm (w.Held A C) L R v u) :
    ElEq A v v ∧ ElEq C u u := by
  have iff := fun {v u} => ElEq.either_iff (v := v) (w := u) hAA hA
  have iff' := fun {v u} => ElEq.either_iff (v := v) (w := u) hCC hC
  cases h with
  | left hv hu hab =>
      exact ⟨iff.2 (.left hv hv (hL _ _ hab).1), iff'.2 (.left hu hu (hL _ _ hab).2)⟩
  | right hv hu hab =>
      exact ⟨iff.2 (.right hv hv (hR _ _ hab).1), iff'.2 (.right hu hu (hR _ _ hab).2)⟩
  | stuck h => exact ⟨h.left, h.right⟩

theorem good_equal (hAA : TyEq .large A A) (hCC : TyEq .large C C) (hA : Forces A (.equal K l r))
    (hC : Forces C (.equal K' l' r')) (h : EqualForm (w.Held A C) (fun a b =>
      R a b ∧ (ElEq K l a ∧ ElEq K a r) ∧ ElEq K' l' b ∧ ElEq K' b r') v u) :
    ElEq A v v ∧ ElEq C u u := by
  cases h with
  | same hv hu hab =>
      obtain ⟨_, ⟨h₁, h₂⟩, h₃, h₄⟩ := hab
      exact ⟨(ElEq.equal_iff hAA hA).2 (.same hv hv ⟨h₂.refl_left, h₁, h₂⟩),
        (ElEq.equal_iff hCC hC).2 (.same hu hu ⟨h₄.refl_left, h₃, h₄⟩)⟩
  | stuck h => exact ⟨h.left, h.right⟩

end Forms

/-- A relation by form is the one between good elements, if what has the form is good. -/
theorem full_iff {w : Replacement σ} {A C v u : Value} {Q : Replacement σ → Rel} {P : Rel}
    (h : Glued (Size.large.glued σ) w A C Q) (hQ : Q w = P)
    (hg : P v u → ElEq A v v ∧ ElEq C u u) : (glued σ).el w A C v u ↔ P v u := by
  subst hQ
  exact (el_iff h).trans ⟨fun h => h.2.2, fun hvu => ⟨(hg hvu).1, (hg hvu).2, hvu⟩⟩

theorem elements (hσ : σ.Fresh) : (glued σ).Elements where
  univ := by
    intro w A C v u hA hC
    have h : Glued (Size.large.glued σ) w A C SmallGlued := .const hA hC (.univ rfl)
    refine full_iff h rfl fun h => ?_
    exact ⟨(ElEq.univ_iff hA).2 h.1, (ElEq.univ_iff hC).2 h.2.1⟩
  nat := by
    intro w A C v u hA hC
    have h : Glued (Size.large.glued σ) w A C NatGlued := .const hA hC .nat
    have hAN : TyEq .large A .nat := .const rfl hA (forces_self rfl)
    have hCN : TyEq .large C .nat := .const rfl hC (forces_self rfl)
    refine full_iff h ?_ fun hvu => ?_
    · exact congrArg NatForm (held_congr hAN hCN).symm
    · have hvu := NatForm.imp (fun _ _ h => Held.conv h hAN hCN) hvu
      obtain ⟨_, _, hv, hu, _⟩ := el_nat.2 hvu
      exact ⟨hv.conv hAN.symm, hu.conv hCN.symm⟩
  quote a := by
    have hq := (forces_self (v := .quote a) rfl)
    have hg : ElEq .atom (.quote a) (.quote a) := (ElEq.atom_iff (forces_self rfl)).2 (.quote hq hq)
    exact ⟨_, .const (forces_self rfl) (forces_self rfl) .atom, hg, hg, .quote hq hq⟩
  sole := by
    intro w
    have hs := (forces_self (v := .const .sole) rfl)
    have hg : ElEq .trivial (.const .sole) (.const .sole) :=
      (ElEq.trivial_iff (forces_self rfl)).2 ⟨.inl hs, .inl hs⟩
    exact ⟨_, .const (forces_self rfl) (forces_self rfl) .trivial, hg, hg, trivial⟩
  list := by
    rintro w A C E E' v u ⟨hAA, hCC, Q, h⟩ hA hC
    have hg := h
    cases h with
    | list h h' hE =>
        cases h.unique hA
        cases h'.unique hC
        rw [el_eq hE]
        exact full_iff hg rfl (good_list hAA hCC hA hC fun _ _ h => ⟨h.1, h.2.1⟩)
    | _ h => cases h.unique hA
  vec := by
    rintro w A C E E' k k' v u ⟨hAA, hCC, Q, h⟩ hA hC
    have hg := h
    cases h with
    | vec h h' hE hk =>
        cases h.unique hA
        cases h'.unique hC
        obtain ⟨_, _, h₁, hE₁, _⟩ := hAA.vec_inv hA
        obtain ⟨_, _, h₂, hE₂, _⟩ := hCC.vec_inv hC
        cases h₁.unique hA
        cases h₂.unique hC
        obtain ⟨_, _, hk₁, hk₂, _⟩ := el_nat.2 hk
        rw [el_eq hE]
        refine full_iff hg rfl fun hvu => ?_
        obtain ⟨hv, hu⟩ := good_vec hE₁ hE₂ (fun _ _ h => ⟨h.1, h.2.1⟩) hvu hk₁ hk₂
        exact ⟨hv.conv (hAA.form hA.coincides), hu.conv (hCC.form hC.coincides)⟩
    | _ h => cases h.unique hA
  either := by
    rintro w A C l l' r r' v u ⟨hAA, hCC, Q, h⟩ hA hC
    have hg := h
    cases h with
    | either h h' hl hr =>
        cases h.unique hA
        cases h'.unique hC
        rw [el_eq hl, el_eq hr]
        exact full_iff hg rfl (good_either hAA hCC hA hC (fun _ _ h => ⟨h.1, h.2.1⟩)
          fun _ _ h => ⟨h.1, h.2.1⟩)
    | _ h => cases h.unique hA
  equal := by
    rintro w A C K K' l l' r r' v u ⟨hAA, hCC, Q, h⟩ hA hC
    have hg := h
    cases h with
    | equal h h' hK hl hr =>
        cases h.unique hA
        cases h'.unique hC
        rw [el_eq hK]
        exact full_iff hg rfl (good_equal hAA hCC hA hC)
    | _ h => cases h.unique hA
  pi_intro := by
    rintro w A C x x' d d' r r' f g ⟨hAA, hCC, Q, h⟩ hA hC hf hg hfg
    have hG := h
    cases h with
    | quant h h' hd hB =>
        cases h.unique hA
        cases h'.unique hC
        refine ⟨_, hG, hf, hg, ?_⟩
        intro w' a b c c' B B' hw hab hc hc' hB₁ hB₁'
        have hd' := hd.mono (universe_glued .large) hw
        exact (el_iff (ℓ := .large) (hB hw hab hB₁ hB₁')).1
          (hfg hw ((el_iff (ℓ := .large) hd').2 hab) hc hc' hB₁ hB₁')
    | _ h => cases h.unique hA
  pi_elim := by
    rintro w A C x x' d d' r r' f g a b ⟨Q, h, hf, hg, hfg⟩ hA hC hab
    cases h with
    | quant h h' hd hB =>
        cases h.unique hA
        cases h'.unique hC
        have hab := (el_iff (ℓ := .large) hd).1 hab
        obtain ⟨c, _, B, hc, _, hB₁, _⟩ := hf.call hA hab.1
        obtain ⟨c', _, B', hc', _, hB₁', _⟩ := hg.call hC hab.2.1
        exact ⟨c, c', B, B', hc, hc', hB₁, hB₁', _, hB (.refl w) hab hB₁ hB₁',
          hfg (.refl w) hab hc hc' hB₁ hB₁'⟩
    | _ h => cases h.unique hA
  sigma_intro := by
    rintro w A C x x' d d' r r' p q a a' b b' B B' ⟨hAA, hCC, Q, h⟩ hA hC hp hq ha ha' hb hb' hB₁
      hB₁' haa hbb
    have hG := h
    cases h with
    | quant h h' hd hB =>
        cases h.unique hA
        cases h'.unique hC
        refine ⟨_, hG, hp, hq, ?_⟩
        intro a₁ a₁' b₁ b₁' B₂ B₂' h₁ h₁' h₂ h₂' h₃ h₃'
        cases ha.unique h₁
        cases ha'.unique h₁'
        cases hb.unique h₂
        cases hb'.unique h₂'
        cases hB₁.unique h₃
        cases hB₁'.unique h₃'
        have haa := (el_iff (ℓ := .large) hd).1 haa
        exact ⟨haa, (el_iff (ℓ := .large) (hB (.refl w) haa hB₁ hB₁')).1 hbb⟩
    | _ h => cases h.unique hA
  sigma_elim := by
    rintro w A C x x' d d' r r' p q ⟨Q, h, hp, hq, hpq⟩ hA hC
    cases h with
    | quant h h' hd hB =>
        cases h.unique hA
        cases h'.unique hC
        obtain ⟨_, _, a, b, _, _, B, ha, hb, _, _, _, hB₁, _⟩ := (ElEq.sigma_iff hp.type hA).1 hp
        obtain ⟨_, _, a', b', _, _, B', ha', hb', _, _, _, hB₁', _⟩ :=
          (ElEq.sigma_iff hq.type hC).1 hq
        obtain ⟨haa, hbb⟩ := hpq ha ha' hb hb' hB₁ hB₁'
        exact ⟨a, a', b, b', B, B', ha, ha', hb, hb', hB₁, hB₁', (el_iff (ℓ := .large) hd).2 haa, _,
          hB (.refl w) haa hB₁ hB₁', hbb⟩
    | _ h => cases h.unique hA
  reflect := by
    rintro w A C T n u ⟨hAA, hCC, Q, h⟩ hT hs
    refine ⟨Q, h, .reflect hT hT hs.reads, hs.good, ?_⟩
    exact (h.evaluable hσ (universe_glued .large) (evaluable_universe hσ .large) hAA hCC).reflect
      (.refl w) hT hs

theorem lawful (hσ : σ.Fresh) : (glued σ).Lawful := ⟨general, formers, elements hσ⟩

/-! ## Readings evaluate to instances -/

/-- A type read back and evaluated with its variables replaced gives its instance. -/
theorem type_gives (hσ : σ.Fresh) {ℓ : Size} {w : Replacement σ} {A C : Value}
    (h : (glued σ).ty ℓ w A C) : w.Gives (.type A) (.type ℓ C) := by
  obtain ⟨hA, hC, Q, h⟩ := h
  exact (h.evaluable hσ (universe_glued ℓ) (evaluable_universe hσ ℓ) hA hC).type (.refl w)

/-- An element read back and evaluated with its variables replaced gives its instance. -/
theorem element_gives (hσ : σ.Fresh) {w : Replacement σ} {A A' C v u : Value}
    (h : (glued σ).el w A C v u) (hA : TyEq .large A A') :
    w.Gives (.value A' v) (.value C u) := by
  obtain ⟨Q, h, hvu⟩ := h
  exact (h.evaluable hσ (universe_glued .large) (evaluable_universe hσ .large) hvu.1.type
    hvu.2.1.type).element (.refl w) hA hvu

end Frame.glued

end TypeKernel
