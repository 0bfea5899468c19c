/-
# TypeKernel.Proofs.Exact — equality as an interpretation

Equality of types and elements satisfies the laws of an interpretation, with a single world: a neutral
form stands for the elements stuck on a form that agrees with it.
-/
import TypeKernel.Proofs.Interpretation

namespace TypeKernel

set_option autoImplicit false

/-- Equal types and equal elements. -/
def Frame.exact : Frame where
  World := Unit
  le _ _ := True
  ty ℓ _ := TyEq ℓ
  el _ A C v u := TyEq .large A C ∧ ElEq A v u
  stuck _ C n u := ∃ T n', Forces u (.neutral T n') ∧ TyEq .large C T ∧
    Agree (.neutral n) (.neutral n')

namespace Frame.exact

theorem general : Frame.exact.General where
  refl _ := trivial
  trans _ _ := trivial
  ty_mono h _ := h
  el_mono h _ := h
  ty_left h := h.refl_left
  ty_right h := h.refl_right
  el_left h := h.2.refl_left
  el_right h := h.2.refl_right.conv h.1
  el_ty h := h.1
  lift h := h.lift
  ty_form h hA hC := (h.form hA).form_right hC
  el_form h hv hu := ⟨h.1, (h.2.form hv).form_right hu⟩
  conv h hA hC _ := ⟨(hA.symm.trans h.1).trans hC, h.2.conv hA⟩

theorem formers : Frame.exact.Formers where
  const hc := .const hc (forces_self rfl) (forces_self rfl)
  const_inv h hA := h.const_inv hA
  list h := .list (forces_self rfl) (forces_self rfl) h
  list_inv h hA := h.list_inv hA
  vec h hk := .vec (forces_self rfl) (forces_self rfl) h hk.2
  vec_inv h hA := by
    obtain ⟨E', k', hC, hE, hk⟩ := h.vec_inv hA
    exact ⟨E', k', hC, hE, hk.type, hk⟩
  either hl hr := .either (forces_self rfl) (forces_self rfl) hl hr
  either_inv h hA := h.either_inv hA
  equal h hl hr := .equal (forces_self rfl) (forces_self rfl) h hl.2 hr.2
  equal_inv h hA := by
    obtain ⟨K', l', r', hC, hK, hl, hr⟩ := h.equal_inv hA
    exact ⟨K', l', r', hC, hK, ⟨hK.lift, hl⟩, hK.lift, hr⟩
  quant hA hC hA' hC' hd hr := by
    refine .quant hA' hC' hd fun a a' ha => ?_
    obtain ⟨_, _, _, h₁, _, hB⟩ := hA.quant_inv hA'
    obtain ⟨_, _, _, h₂, hd', hB'⟩ := hC.quant_inv hC'
    cases h₁.unique hA'
    cases h₂.unique hC'
    obtain ⟨B, _, hB, _⟩ := hB a a ha.refl_left
    obtain ⟨_, B', _, hB', _⟩ := hB' a' a' (ha.refl_right.conv hd.lift)
    exact ⟨B, B', hB, hB', @hr () _ _ _ _ trivial ⟨hd.lift, ha⟩ hB hB'⟩
  quant_inv h hA := by
    obtain ⟨x', d', r', hC, hd, hr⟩ := h.quant_inv hA
    exact ⟨x', d', r', hC, hd, fun _ ha => hr _ _ ha.2⟩

theorem held_iff {w : Unit} {A C v u : Value} (h : TyEq .large A C) :
    Frame.exact.held w A C v u ↔ Stuck (TyEq .large A) v u := by
  constructor
  · rintro ⟨T, n, hv, hT, T', n', hu, hT', hn⟩
    exact ⟨T, n, T', n', hv, hu, hT, h.trans hT', hn⟩
  · rintro ⟨T, n, T', n', hv, hu, hT, hT', hn⟩
    exact ⟨T, n, hv, hT, T', n', hu, h.symm.trans hT', hn⟩

theorem nat {w : Unit} {A C v u : Value} (hA : Forces A .nat) (hC : Forces C .nat) :
    Frame.exact.el w A C v u ↔ NatForm (Frame.exact.held w A C) v u := by
  have hAC : TyEq .large A C := .const rfl hA hC
  have hS : ∀ T, TyEq .large A T ↔ Forces T .nat := fun T =>
    ⟨fun h => h.const_inv hA, fun h => .const rfl hA h⟩
  have hK : ∀ v u, Frame.exact.held w A C v u ↔ Stuck (Forces · .nat) v u := fun v u => by
    rw [held_iff hAC]
    simp only [Stuck, hS]
  refine ⟨fun h => ?_, fun h => ⟨hAC, (ElEq.nat_iff hA).2 ?_⟩⟩
  · exact ((ElEq.nat_iff hA).1 h.2).imp fun v u => (hK v u).2
  · exact h.imp fun v u => (hK v u).1

theorem list {w : Unit} {A C E E' v u : Value} (h : TyEq .large A C) (hA : Forces A (.list E))
    (hC : Forces C (.list E')) :
    Frame.exact.el w A C v u ↔ ListForm (Frame.exact.held w A C) (Frame.exact.el w E E') v u := by
  obtain ⟨E₁, hC₁, hE⟩ := h.list_inv hA
  cases hC.unique hC₁
  have iff := ElEq.list_iff (v := v) (w := u) h.refl_left hA
  refine ⟨fun hvu => ?_, fun hvu => ⟨h, iff.2 ?_⟩⟩
  · exact (iff.1 hvu.2).imp (fun _ _ => (held_iff h).2) fun _ _ hab => ⟨hE, hab⟩
  · exact hvu.imp (fun _ _ => (held_iff h).1) fun _ _ hab => hab.2

theorem either {w : Unit} {A C l l' r r' v u : Value} (h : TyEq .large A C)
    (hA : Forces A (.either l r)) (hC : Forces C (.either l' r')) :
    Frame.exact.el w A C v u ↔ EitherForm (Frame.exact.held w A C) (Frame.exact.el w l l')
      (Frame.exact.el w r r') v u := by
  obtain ⟨l₁, r₁, hC₁, hl, hr⟩ := h.either_inv hA
  cases hC.unique hC₁
  have iff := ElEq.either_iff (v := v) (w := u) h.refl_left hA
  refine ⟨fun hvu => ?_, fun hvu => ⟨h, iff.2 ?_⟩⟩
  · exact (iff.1 hvu.2).imp (fun _ _ => (held_iff h).2) (fun _ _ hab => ⟨hl, hab⟩)
      fun _ _ hab => ⟨hr, hab⟩
  · exact hvu.imp (fun _ _ => (held_iff h).1) (fun _ _ hab => hab.2) fun _ _ hab => hab.2

theorem equal {w : Unit} {A C K K' l l' r r' v u : Value} (h : TyEq .large A C)
    (hA : Forces A (.equal K l r)) (hC : Forces C (.equal K' l' r')) :
    Frame.exact.el w A C v u ↔ EqualForm (Frame.exact.held w A C) (fun a b =>
      Frame.exact.el w K K' a b ∧ (ElEq K l a ∧ ElEq K a r) ∧ ElEq K' l' b ∧ ElEq K' b r') v u := by
  obtain ⟨K₁, l₁, r₁, hC₁, hK, hl, hr⟩ := h.equal_inv hA
  cases hC.unique hC₁
  have iff := ElEq.equal_iff (v := v) (w := u) h.refl_left hA
  refine ⟨fun hvu => ?_, fun hvu => ⟨h, iff.2 ?_⟩⟩
  · refine (iff.1 hvu.2).imp (fun _ _ => (held_iff h).2) fun a b hab => ⟨⟨hK, hab.1⟩, hab.2, ?_, ?_⟩
    · exact ((hl.symm.trans hab.2.1).trans hab.1).conv hK
    · exact ((hab.1.symm.trans hab.2.2).trans hr).conv hK
  · exact hvu.imp (fun _ _ => (held_iff h).1) fun _ _ hab => ⟨hab.1.2, hab.2.1⟩

theorem vec {w : Unit} {A C E E' k k' v u : Value} (h : TyEq .large A C)
    (hA : Forces A (.vec E k)) (hC : Forces C (.vec E' k')) :
    Frame.exact.el w A C v u ↔ VecForm (fun k k' => Frame.exact.held w (.vec E k) (.vec E' k'))
      (Frame.exact.el w E E') k k' v u := by
  obtain ⟨E₁, k₁, hC₁, hE, hk⟩ := h.vec_inv hA
  cases hC.unique hC₁
  have hn := (ElEq.nat_iff (forces_self (v := .nat) rfl)).1 hk
  have types : ∀ {k k'}, NatEq k k' → TyEq .large (.vec E k) (.vec E' k') := fun hk =>
    .vec (forces_self rfl) (forces_self rfl) hE
      ((ElEq.nat_iff (forces_self rfl)).2 hk)
  have classes : ∀ {k k'} T, NatEq k k' → (VecClass (TyEq .large E) k T ↔ TyEq .large (.vec E k) T) := by
    intro k k' T hk
    exact (Denotes.tyEq_iff (ℓ := .large) (.vec (forces_self rfl) hE.denotes
      (NatEq.equality.refl_left hk))).symm
  have iff := ElEq.vec_iff (v := v) (w := u) h.refl_left hA
  refine ⟨fun hvu => ?_, fun hvu => ⟨h, iff.2 ?_⟩⟩
  · suffices ∀ {k l v u}, VecForm (fun k _ => Stuck (VecClass (TyEq .large E) k)) (ElEq E) k l v u →
        ∀ {k'}, NatEq k k' → VecForm (fun k k' => Frame.exact.held w (.vec E k) (.vec E' k'))
          (Frame.exact.el w E E') k k' v u from this (iff.1 hvu.2) hn
    intro k l v u h
    induction h with
    | nil hk _ hv hu => exact fun hkk => .nil hk (hkk.zero_inv hk) hv hu
    | cons hk _ hv hu hab _ ih =>
        intro k' hkk
        obtain ⟨l', hl', hkl⟩ := hkk.add1_inv hk
        exact .cons hk hl' hv hu ⟨hE, hab⟩ (ih hkl)
    | stuck h =>
        intro k' hkk
        refine .stuck ((held_iff (types hkk)).2 ?_)
        simpa only [Stuck, classes _ hkk] using h
  · suffices ∀ {k k' v u}, VecForm (fun k k' => Frame.exact.held w (.vec E k) (.vec E' k'))
        (Frame.exact.el w E E') k k' v u → NatEq k k' → VecEq (TyEq .large E) (ElEq E) k v u from
      this hvu hn
    intro k k' v u h
    induction h with
    | nil hk _ hv hu => exact fun _ => .nil hk hk hv hu
    | cons hk hl hv hu hab _ ih =>
        intro hkk
        obtain ⟨l', hl', hkl⟩ := hkk.add1_inv hk
        cases hl.unique hl'
        exact .cons hk hk hv hu hab.2 (ih hkl)
    | stuck h =>
        intro hkk
        refine .stuck ?_
        simpa only [Stuck, classes _ hkk] using (held_iff (types hkk)).1 h

theorem elements : Frame.exact.Elements where
  univ hA hC :=
    ⟨fun h => (ElEq.univ_iff hA).1 h.2, fun h => ⟨.const rfl hA hC, (ElEq.univ_iff hA).2 h⟩⟩
  nat := nat
  quote a := by
    have hn := (forces_self (v := .atom) rfl)
    have hq := (forces_self (v := .quote a) rfl)
    exact ⟨.const rfl hn hn, (ElEq.atom_iff hn).2 (.quote hq hq)⟩
  sole := by
    intro w
    have hn := (forces_self (v := .trivial) rfl)
    have hs := (forces_self (v := .const .sole) rfl)
    exact ⟨.const rfl hn hn, (ElEq.trivial_iff hn).2 ⟨.inl hs, .inl hs⟩⟩
  list := list
  vec := vec
  either := either
  equal := equal
  pi_intro h hA hC hf hg hfg := by
    obtain ⟨x₁, d₁, r₁, hC₁, hd, hr⟩ := h.quant_inv hA
    cases hC.unique hC₁
    refine ⟨h, (ElEq.pi_iff h.refl_left hA).2 ?_⟩
    obtain ⟨hf₁, _, hf₂⟩ := (ElEq.pi_iff h.refl_left hA).1 hf
    obtain ⟨hg₁, _, hg₂⟩ := (ElEq.pi_iff h.refl_left hA).1 (hg.conv h.symm)
    refine ⟨hf₁, hg₁, fun a a' ha => ?_⟩
    obtain ⟨b, _, _, hb, _⟩ := hf₂ a a ha.refl_left
    obtain ⟨b', _, _, hb', _⟩ := hg₂ a' a' ha.refl_right
    obtain ⟨B, B', hB, hB', _⟩ := hr a a' ha
    exact ⟨b, b', B, hb, hb', hB, (@hfg () _ _ _ _ _ _ trivial ⟨hd, ha⟩ hb hb' hB hB').2⟩
  pi_elim h hA hC ha := by
    obtain ⟨x₁, d₁, r₁, hC₁, _, hr⟩ := h.1.quant_inv hA
    cases hC.unique hC₁
    obtain ⟨_, _, hfg⟩ := (ElEq.pi_iff h.1.refl_left hA).1 h.2
    obtain ⟨b, b', B, hb, hb', hB, hbb⟩ := hfg _ _ ha.2
    obtain ⟨B₁, B', hB₁, hB', hBB⟩ := hr _ _ ha.2
    cases hB.unique hB₁
    exact ⟨b, b', B, B', hb, hb', hB, hB', hBB, hbb⟩
  sigma_intro h hA hC hp hq ha ha' hb hb' hB _ haa hbb := by
    refine ⟨h, (ElEq.sigma_iff h.refl_left hA).2 ?_⟩
    have hp₁ := ((ElEq.sigma_iff h.refl_left hA).1 hp).1
    have hq₁ := ((ElEq.sigma_iff h.refl_left hA).1 (hq.conv h.symm)).1
    exact ⟨hp₁, hq₁, _, _, _, _, _, ha, hb, ha', hb', haa.2, hB, hbb.2⟩
  sigma_elim h hA hC := by
    obtain ⟨x₁, d₁, r₁, hC₁, hd, hr⟩ := h.1.quant_inv hA
    cases hC.unique hC₁
    obtain ⟨_, _, a, b, a', b', B, ha, hb, ha', hb', haa, hB, hbb⟩ :=
      (ElEq.sigma_iff h.1.refl_left hA).1 h.2
    obtain ⟨B₁, B', hB₁, hB', hBB⟩ := hr _ _ haa
    cases hB.unique hB₁
    exact ⟨a, a', b, b', B, B', ha, ha', hb, hb', hB, hB', ⟨hd, haa⟩, hBB, hbb⟩
  reflect h hT hs := by
    obtain ⟨T', n', hu, hT', hn⟩ := hs
    exact ⟨h, (ElEq.reflect hT (h.trans hT') hn).form_right hu.coincides.symm⟩

theorem lawful : Frame.exact.Lawful := ⟨general, formers, elements⟩

end Frame.exact

end TypeKernel
