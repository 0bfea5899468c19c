/-
# TypeKernel.Proofs.Eliminators — the eliminators in every interpretation

In every interpretation an eliminator with related arguments gives related results. Each proof follows
the shape of the target: a constructor computes on both sides, a recursive one with the result for its
part, and a stuck target is what the law of stuck eliminators is about.
-/
import TypeKernel.Proofs.Motives

namespace TypeKernel

set_option autoImplicit false

namespace Interpretation

variable {I : Interpretation} {w : I.World} {A C E E' k k' m v u : Value}

/-! ## Forms of related elements -/

theorem add1_inv (h : I.el w .nat .nat k k') (hk : Forces k (.add1 m)) :
    ∃ m', Forces k' (.add1 m') ∧ I.el w .nat .nat m m' := by
  cases (I.lawful.elements.nat (forces_self rfl) (forces_self rfl)).1 h with
  | zero hk₁ => cases hk.unique hk₁
  | add1 hk₁ hk' h =>
      cases hk.unique hk₁
      exact ⟨_, hk', (I.lawful.elements.nat (forces_self rfl) (forces_self rfl)).2 h⟩
  | stuck h =>
      obtain ⟨T, n, hk₁, _⟩ := h
      cases hk.unique hk₁

theorem at_coincides {A' C' : Value} (h : I.el w A C v u) (hA : Coincides A A')
    (hC : Coincides C C') : I.el w A' C' v u := by
  have hT := I.lawful.general.el_ty h
  exact I.lawful.general.conv h ((I.lawful.general.ty_left hT).coincides hA)
    ((I.lawful.general.ty_right hT).coincides hC) (I.lawful.general.ty_form hT hA hC)

/-- Elements may be seen at the forms of their types. -/
theorem at_forms {A' C' : Value} (h : I.el w A C v u) (hA : Forces A A') (hC : Forces C C') :
    I.el w A' C' v u :=
  at_coincides h hA.coincides hC.coincides

theorem call_arrow {B B' a a' d d' g g' : Value} {x x' : Name}
    (h : I.el w (.piFamily x d (.always B)) (.piFamily x' d' (.always B')) g g')
    (ha : I.el w d d' a a') : ∃ c c', Calls g a c ∧ Calls g' a' c' ∧ I.el w B B' c c' := by
  obtain ⟨c, c', B₁, B₁', hc, hc', hB, hB', hcc⟩ :=
    I.lawful.elements.pi_elim h (forces_self rfl) (forces_self rfl) ha
  cases hB.unique .always
  cases hB'.unique .always
  exact ⟨c, c', hc, hc', hcc⟩

theorem call_step {a a' d d' g g' mo mo' D D' : Value} {x x' : Name}
    (h : I.el w (.piFamily x d (.fixed mo v)) (.piFamily x' d' (.fixed mo' u)) g g')
    (ha : I.el w d d' a a') (hD : Calls mo v D) (hD' : Calls mo' u D') :
    ∃ c c', Calls g a c ∧ Calls g' a' c' ∧ I.el w D D' c c' := by
  obtain ⟨c, c', B₁, B₁', hc, hc', hB, hB', hcc⟩ :=
    I.lawful.elements.pi_elim h (forces_self rfl) (forces_self rfl) ha
  cases hB.unique (.fixed hD)
  cases hB'.unique (.fixed hD')
  exact ⟨c, c', hc, hc', hcc⟩

/-- An element of the motive at one value is one of the motive at an equal value. -/
theorem motive_conv {d d' m m' t t' c c' D₁ D₁' r r' : Value} {x : Name}
    (hm : I.el w (.piFamily x d (.always .univ)) (.piFamily x d' (.always .univ)) m m')
    (ht : I.el w d d' t t') (hc : ElEq d t c) (hc' : ElEq d' t' c') (hD₁ : Calls m c D₁)
    (hD₁' : Calls m' c' D₁') (hr : I.el w D₁ D₁' r r') :
    ∃ D D', Calls m t D ∧ Calls m' t' D' ∧ I.el w D D' r r' := by
  obtain ⟨D, D', hD, hD', hDD⟩ := I.lawful.motive hm ht
  obtain ⟨D₂, D₃, hD₂, hD₃, h₁⟩ := (I.lawful.general.el_left hm).motive hc
  obtain ⟨D₄, D₅, hD₄, hD₅, h₂⟩ := (I.lawful.general.el_right hm).motive hc'
  cases hD.unique hD₂
  cases hD₁.unique hD₃
  cases hD'.unique hD₄
  cases hD₁'.unique hD₅
  exact ⟨D, D', hD, hD',
    I.lawful.general.conv hr h₁.lift.symm h₂.lift.symm (I.lawful.general.lift hDD)⟩

/-! ## Projections -/

theorem head (h : I.el w A C v u) (hA : Forces A (.vec E k)) (hC : Forces C (.vec E' k'))
    (hk : Forces k (.add1 m)) : ∃ a a', Heads v a ∧ Heads u a' ∧ I.el w E E' a a' := by
  have hT := I.lawful.general.el_ty h
  obtain ⟨E₁, k₁, hC₁, hE, hkk⟩ := I.lawful.formers.vec_inv hT hA
  cases hC.unique hC₁
  cases (I.lawful.elements.vec hT hA hC).1 h with
  | nil hk₁ => cases hk.unique hk₁
  | cons _ _ hv hu h _ => exact ⟨_, _, .cons hv, .cons hu, h⟩
  | stuck h =>
      obtain ⟨T, n, hv, hT', hn⟩ := h
      obtain ⟨m', hk', _⟩ := add1_inv hkk hk
      obtain ⟨E₂, k₂, hT₂, hE₂, _⟩ := hT'.vec_inv (forces_self rfl)
      obtain ⟨r, hr, hn⟩ := I.neutrals.head hn (forces_self rfl) hk'
      exact ⟨_, r, .neutral hv hT₂, hr, I.lawful.elements.reflect hE hE₂ hn⟩

theorem tail (h : I.el w A C v u) (hA : Forces A (.vec E k)) (hC : Forces C (.vec E' k'))
    (hk : Forces k (.add1 m)) : ∃ m' a a', Forces k' (.add1 m') ∧ I.el w .nat .nat m m' ∧
      Tails v a ∧ Tails u a' ∧ I.el w (.vec E m) (.vec E' m') a a' := by
  have hT := I.lawful.general.el_ty h
  obtain ⟨E₁, k₁, hC₁, hE, hkk⟩ := I.lawful.formers.vec_inv hT hA
  cases hC.unique hC₁
  obtain ⟨m', hk', hm⟩ := add1_inv hkk hk
  have hV := I.lawful.formers.vec hE hm
  refine ⟨m', ?_⟩
  cases (I.lawful.elements.vec hT hA hC).1 h with
  | nil hk₁ => cases hk.unique hk₁
  | cons hk₁ hl₁ hv hu _ hs =>
      cases hk.unique hk₁
      cases hk'.unique hl₁
      exact ⟨_, _, hk', hm, .cons hv, .cons hu,
        (I.lawful.elements.vec hV (forces_self rfl) (forces_self rfl)).2 hs⟩
  | stuck h =>
      obtain ⟨T, n, hv, hT', hn⟩ := h
      obtain ⟨E₂, k₂, hT₂, hE₂, hk₂⟩ := hT'.vec_inv (forces_self rfl)
      obtain ⟨m₂, hm₂, hmm⟩ := ((ElEq.nat_iff (forces_self rfl)).1 hk₂).add1_inv hk
      obtain ⟨r, hr, hn⟩ := I.neutrals.tail hn (forces_self rfl) hk'
      have hV₂ : TyEq .large (.vec E m) (.vec E₂ m₂) :=
        .vec (forces_self rfl) (forces_self rfl) hE₂ ((ElEq.nat_iff (forces_self rfl)).2 hmm)
      exact ⟨_, r, hk', hm, .neutral hv hT₂ hm₂, hr, I.lawful.elements.reflect hV hV₂ hn⟩

theorem symm {K K' a a' b b' : Value} (h : I.el w A C v u) (hA : Forces A (.equal K a b))
    (hC : Forces C (.equal K' a' b')) :
    ∃ s s', Symms v s ∧ Symms u s' ∧ I.el w (.equal K b a) (.equal K' b' a') s s' := by
  have hT := I.lawful.general.el_ty h
  obtain ⟨K₁, a₁, b₁, hC₁, hK, ha, hb⟩ := I.lawful.formers.equal_inv hT hA
  cases hC.unique hC₁
  have hE := I.lawful.formers.equal hK hb ha
  cases (I.lawful.elements.equal hT hA hC).1 h with
  | same hv hu h =>
      obtain ⟨h, ⟨h₁, h₂⟩, h₃, h₄⟩ := h
      exact ⟨_, _, .same hv, .same hu, (I.lawful.elements.equal hE (forces_self rfl) (forces_self rfl)).2
        (.same (forces_self rfl) (forces_self rfl) ⟨h, ⟨h₂.symm, h₁.symm⟩, h₄.symm, h₃.symm⟩)⟩
  | stuck h =>
      obtain ⟨T, n, hv, hT', hn⟩ := h
      obtain ⟨K₂, a₂, b₂, hT₂, hK₂, ha₂, hb₂⟩ := hT'.equal_inv hA
      obtain ⟨r, hr, hn⟩ := I.neutrals.symm hn hC
      exact ⟨_, r, .neutral hv hT₂, hr,
        I.lawful.elements.reflect hE (.equal (forces_self rfl) (forces_self rfl) hK₂ hb₂ ha₂) hn⟩

/-! ## Folds -/

section Folds

variable {B B' b b' s s' t t' : Value}

theorem natFold {f : Fold} {S : Value → Value} (hf : NatFold f S) (ht : I.el w .nat .nat t t')
    (hB : I.ty .large w B B') (hb : I.el w B B' b b') (hs : I.el w (S B) (S B') s s') :
    ∃ r r', Folds f t (some B) b s r ∧ Folds f t' (some B') b' s' r' ∧ I.el w B B' r r' := by
  have iff := fun {v u} => I.lawful.elements.nat (w := w) (v := v) (u := u)
    (forces_self (v := .nat) rfl) (forces_self (v := .nat) rfl)
  have form := iff.1 ht
  clear ht
  induction form with
  | zero ht ht' => exact ⟨b, b', .zero hf ht, .zero hf ht', hb⟩
  | add1 ht ht' ha ih =>
      have ha := iff.2 ha
      obtain ⟨r, r', hr, hr', hrr⟩ := ih
      cases hf with
      | which =>
          obtain ⟨c, c', hc, hc', hcc⟩ := call_arrow hs ha
          exact ⟨c, c', .which_add1 ht hc, .which_add1 ht' hc', hcc⟩
      | iter =>
          obtain ⟨c, c', hc, hc', hcc⟩ := call_arrow hs hrr
          exact ⟨c, c', .iter_add1 ht hr hc, .iter_add1 ht' hr' hc', hcc⟩
      | recur =>
          obtain ⟨g, g', hg, hg', hgg⟩ := call_arrow hs ha
          obtain ⟨c, c', hc, hc', hcc⟩ := call_arrow hgg hrr
          exact ⟨c, c', .rec_add1 ht hg hr hc, .rec_add1 ht' hg' hr' hc', hcc⟩
  | stuck h =>
      obtain ⟨T, n, ht, _, hn⟩ := h
      obtain ⟨r, hr, hn⟩ := I.neutrals.natFold hf hn (forces_self rfl) hB hb hs
      exact ⟨_, r, .neutral hf ht, hr, I.lawful.elements.reflect hB (I.lawful.general.ty_left hB) hn⟩

theorem recList (ht : I.el w (.list E) (.list E') t t') (hB : I.ty .large w B B')
    (hb : I.el w B B' b b') (hs : I.el w (.recListStep E B) (.recListStep E' B') s s') :
    ∃ r r', Folds .recList t (some B) b s r ∧ Folds .recList t' (some B') b' s' r' ∧
      I.el w B B' r r' := by
  have hL := I.lawful.general.el_ty ht
  have iff := fun {v u} =>
    I.lawful.elements.list (w := w) (v := v) (u := u) hL (forces_self rfl) (forces_self rfl)
  have form := iff.1 ht
  clear ht
  induction form with
  | nil ht ht' => exact ⟨b, b', .nil ht, .nil ht', hb⟩
  | cons ht ht' ha has ih =>
      obtain ⟨r, r', hr, hr', hrr⟩ := ih
      obtain ⟨f, f', hf, hf', hff⟩ := call_arrow hs ha
      obtain ⟨g, g', hg, hg', hgg⟩ := call_arrow hff (iff.2 has)
      obtain ⟨c, c', hc, hc', hcc⟩ := call_arrow hgg hrr
      exact ⟨c, c', .cons ht (.intro hf hg) hr hc, .cons ht' (.intro hf' hg') hr' hc', hcc⟩
  | stuck h =>
      obtain ⟨T, n, ht, hT, hn⟩ := h
      obtain ⟨E₁, hT₁, hE₁⟩ := hT.list_inv (forces_self rfl)
      obtain ⟨r, hr, hn⟩ := I.neutrals.recList hn (forces_self rfl) hE₁ hB hb hs
      exact ⟨_, r, .neutral_list ht hT₁, hr,
        I.lawful.elements.reflect hB (I.lawful.general.ty_left hB) hn⟩

end Folds

/-! ## Inductions -/

section Inductions

variable {Z Z' b b' m' s s' t t' : Value}

theorem indNat (ht : I.el w .nat .nat t t') (hm : I.el w .natMotive .natMotive m m')
    (hZ : Calls m .zero Z) (hZ' : Calls m' .zero Z') (hb : I.el w Z Z' b b')
    (hs : I.el w (.indNatStep m) (.indNatStep m') s s') :
    ∃ r r' D D', Inducts .indNat t m b s r ∧ Inducts .indNat t' m' b' s' r' ∧ Calls m t D ∧
      Calls m' t' D' ∧ I.el w D D' r r' := by
  have iff := fun {v u} => I.lawful.elements.nat (w := w) (v := v) (u := u)
    (forces_self (v := .nat) rfl) (forces_self (v := .nat) rfl)
  have form := iff.1 ht
  induction form with
  | zero hv hu =>
      have hc := (I.lawful.general.el_left ht).form_right hv.coincides
      have hc' := (I.lawful.general.el_right ht).form_right hu.coincides
      obtain ⟨D, D', hD, hD', hDD⟩ := motive_conv hm ht hc hc' hZ hZ' hb
      exact ⟨b, b', D, D', .zero hv, .zero hu, hD, hD', hDD⟩
  | add1 hv hu ha ih =>
      have ha := iff.2 ha
      have hc := (I.lawful.general.el_left ht).form_right hv.coincides
      have hc' := (I.lawful.general.el_right ht).form_right hu.coincides
      obtain ⟨r, r', D, D', hr, hr', hD, hD', hrr⟩ := ih ha
      obtain ⟨f, f', B, B', hf, hf', hB, hB', hff⟩ :=
        I.lawful.elements.pi_elim hs (forces_self rfl) (forces_self rfl) ha
      cases hB.unique (.natStep hD)
      cases hB'.unique (.natStep hD')
      obtain ⟨N, N', hN, hN', _⟩ := I.lawful.motive hm (I.lawful.add1 ha)
      obtain ⟨g, g', hg, hg', hgg⟩ := call_step hff hrr hN hN'
      obtain ⟨D, D', hD, hD', hDD⟩ := motive_conv hm ht hc hc' hN hN' hgg
      exact ⟨g, g', D, D', .add1 hv hf hr hg, .add1 hu hf' hr' hg', hD, hD', hDD⟩
  | stuck h =>
      obtain ⟨T, n, hv, hT, hn⟩ := h
      obtain ⟨D, D', hD, hD', hDD⟩ := I.lawful.motive hm ht
      have hc := (I.lawful.general.el_left ht).form_right hv.coincides
      obtain ⟨D₀, D₁, hD₀, hD₁, h₁⟩ := (I.lawful.general.el_left hm).motive hc
      cases hD.unique hD₀
      obtain ⟨r, hr, hn⟩ := I.neutrals.indNat hn (forces_self rfl) hm hD' hZ hZ' hb hs
      exact ⟨_, r, D, D', .neutral_nat hv hD₁ hZ, hr, hD, hD',
        I.lawful.elements.reflect (I.lawful.general.lift hDD) h₁.lift hn⟩

theorem indList (ht : I.el w (.list E) (.list E') t t')
    (hm : I.el w (.listMotive E) (.listMotive E') m m') (hZ : Calls m .nil Z)
    (hZ' : Calls m' .nil Z') (hb : I.el w Z Z' b b')
    (hs : I.el w (.indListStep E m) (.indListStep E' m') s s') :
    ∃ r r' D D', Inducts .indList t m b s r ∧ Inducts .indList t' m' b' s' r' ∧ Calls m t D ∧
      Calls m' t' D' ∧ I.el w D D' r r' := by
  have hL := I.lawful.general.el_ty ht
  have iff := fun {v u} =>
    I.lawful.elements.list (w := w) (v := v) (u := u) hL (forces_self rfl) (forces_self rfl)
  have form := iff.1 ht
  induction form with
  | nil hv hu =>
      have hc := (I.lawful.general.el_left ht).form_right hv.coincides
      have hc' := (I.lawful.general.el_right ht).form_right hu.coincides
      obtain ⟨D, D', hD, hD', hDD⟩ := motive_conv hm ht hc hc' hZ hZ' hb
      exact ⟨b, b', D, D', .nil hv, .nil hu, hD, hD', hDD⟩
  | cons hv hu ha has ih =>
      have has := iff.2 has
      have hc := (I.lawful.general.el_left ht).form_right hv.coincides
      have hc' := (I.lawful.general.el_right ht).form_right hu.coincides
      obtain ⟨r, r', D, D', hr, hr', hD, hD', hrr⟩ := ih has
      obtain ⟨f, f', B, B', hf, hf', hB, hB', hff⟩ :=
        I.lawful.elements.pi_elim hs (forces_self rfl) (forces_self rfl) ha
      cases hB.unique .listStep
      cases hB'.unique .listStep
      obtain ⟨g, g', B, B', hg, hg', hB, hB', hgg⟩ :=
        I.lawful.elements.pi_elim hff (forces_self rfl) (forces_self rfl) has
      cases hB.unique (.listStepTail hD)
      cases hB'.unique (.listStepTail hD')
      obtain ⟨N, N', hN, hN', _⟩ := I.lawful.motive hm (I.lawful.listCons ha has)
      obtain ⟨c, c', hc₁, hc₁', hcc⟩ := call_step hgg hrr hN hN'
      obtain ⟨D, D', hD, hD', hDD⟩ := motive_conv hm ht hc hc' hN hN' hcc
      exact ⟨c, c', D, D', .cons hv (.intro hf hg) hr hc₁, .cons hu (.intro hf' hg') hr' hc₁', hD,
        hD', hDD⟩
  | stuck h =>
      obtain ⟨T, n, hv, hT, hn⟩ := h
      obtain ⟨E₁, hT₁, hE₁⟩ := hT.list_inv (forces_self rfl)
      obtain ⟨D, D', hD, hD', hDD⟩ := I.lawful.motive hm ht
      have hc := (I.lawful.general.el_left ht).form_right hv.coincides
      obtain ⟨D₀, D₁, hD₀, hD₁, h₁⟩ := (I.lawful.general.el_left hm).motive hc
      cases hD.unique hD₀
      obtain ⟨r, hr, hn⟩ := I.neutrals.indList hn (forces_self rfl) hE₁ hm hD' hZ hZ' hb hs
      exact ⟨_, r, D, D', .neutral_list hv hT₁ hD₁ hZ, hr, hD, hD',
        I.lawful.elements.reflect (I.lawful.general.lift hDD) h₁.lift hn⟩

theorem indEither {l l' r r' : Value} (ht : I.el w (.either l r) (.either l' r') t t')
    (hm : I.el w (.simpleMotive (.either l r)) (.simpleMotive (.either l' r')) m m')
    (hb : I.el w (.eitherCase .left l m) (.eitherCase .left l' m') b b')
    (hs : I.el w (.eitherCase .right r m) (.eitherCase .right r' m') s s') :
    ∃ v v' D D', Inducts .indEither t m b s v ∧ Inducts .indEither t' m' b' s' v' ∧ Calls m t D ∧
      Calls m' t' D' ∧ I.el w D D' v v' := by
  have hL := I.lawful.general.el_ty ht
  obtain ⟨_, _, h₁, hl, hr⟩ := I.lawful.formers.either_inv hL (forces_self rfl)
  cases h₁.unique (forces_self rfl)
  -- What one of the two cases gives.
  have branch : ∀ {q : Unary} {K K' f f' a a'},
      I.el w (.eitherCase q K m) (.eitherCase q K' m') f f' → I.el w K K' a a' →
      I.el w (.either l r) (.either l' r') (.unary q a) (.unary q a') → Forces t (.unary q a) →
      Forces t' (.unary q a') → ∃ v v' D D', Calls f a v ∧ Calls f' a' v' ∧ Calls m t D ∧
        Calls m' t' D' ∧ I.el w D D' v v' := by
    intro q K K' f f' a a' hf ha hq hv hu
    have hc := (I.lawful.general.el_left ht).form_right hv.coincides
    have hc' := (I.lawful.general.el_right ht).form_right hu.coincides
    obtain ⟨N, N', hN, hN', _⟩ := I.lawful.motive hm hq
    obtain ⟨g, g', B, B', hg, hg', hB, hB', hgg⟩ :=
      I.lawful.elements.pi_elim hf (forces_self rfl) (forces_self rfl) ha
    cases hB.unique (.wrapped hN)
    cases hB'.unique (.wrapped hN')
    obtain ⟨D, D', hD, hD', hDD⟩ := motive_conv hm ht hc hc' hN hN' hgg
    exact ⟨g, g', D, D', hg, hg', hD, hD', hDD⟩
  cases (I.lawful.elements.either hL (forces_self rfl) (forces_self rfl)).1 ht with
  | left hv hu ha =>
      obtain ⟨g, g', D, D', hg, hg', h⟩ := branch hb ha (I.lawful.left ha hr) hv hu
      exact ⟨g, g', D, D', .left hv hg, .left hu hg', h⟩
  | right hv hu ha =>
      obtain ⟨g, g', D, D', hg, hg', h⟩ := branch hs ha (I.lawful.right hl ha) hv hu
      exact ⟨g, g', D, D', .right hv hg, .right hu hg', h⟩
  | stuck h =>
      obtain ⟨T, n, hv, hT, hn⟩ := h
      obtain ⟨l₁, r₁, hT₁, hl₁, hr₁⟩ := hT.either_inv (forces_self rfl)
      obtain ⟨D, D', hD, hD', hDD⟩ := I.lawful.motive hm ht
      have hc := (I.lawful.general.el_left ht).form_right hv.coincides
      obtain ⟨D₀, D₁, hD₀, hD₁, h₁⟩ := (I.lawful.general.el_left hm).motive hc
      cases hD.unique hD₀
      obtain ⟨r, hr, hn⟩ := I.neutrals.indEither hn (forces_self rfl) hl₁ hr₁ hm hD' hb hs
      exact ⟨_, r, D, D', .neutral_either hv hT₁ hD₁, hr, hD, hD',
        I.lawful.elements.reflect (I.lawful.general.lift hDD) h₁.lift hn⟩

/-- An element of a motive over vectors is one at an equal length and vector. -/
theorem vecMotive_conv {k₁ k₁' c c' D₁ D₁' r r' : Value}
    (hm : I.el w (.vecMotive E) (.vecMotive E') m m') (hk : I.el w .nat .nat k k')
    (ht : I.el w (.vec E k) (.vec E' k') t t') (hk₁ : ElEq .nat k k₁) (hk₁' : ElEq .nat k' k₁')
    (hc : ElEq (.vec E k) t c) (hc' : ElEq (.vec E' k') t' c') (hD₁ : CallsBoth m k₁ c D₁)
    (hD₁' : CallsBoth m' k₁' c' D₁') (hr : I.el w D₁ D₁' r r') :
    ∃ D D', CallsBoth m k t D ∧ CallsBoth m' k' t' D' ∧ I.el w D D' r r' := by
  obtain ⟨D, D', hD, hD', hDD⟩ := I.lawful.vecMotive_call hm hk ht
  obtain ⟨D₂, D₃, hD₂, hD₃, h₁⟩ := (I.lawful.general.el_left hm).vecMotive hk₁ hc
  obtain ⟨D₄, D₅, hD₄, hD₅, h₂⟩ := (I.lawful.general.el_right hm).vecMotive hk₁' hc'
  cases hD.unique hD₂
  cases hD₁.unique hD₃
  cases hD'.unique hD₄
  cases hD₁'.unique hD₅
  exact ⟨D, D', hD, hD',
    I.lawful.general.conv hr h₁.lift.symm h₂.lift.symm (I.lawful.general.lift hDD)⟩

theorem indVec (hk : I.el w .nat .nat k k') (ht : I.el w (.vec E k) (.vec E' k') t t')
    (hm : I.el w (.vecMotive E) (.vecMotive E') m m') (hZ : CallsBoth m .zero .vecNil Z)
    (hZ' : CallsBoth m' .zero .vecNil Z') (hb : I.el w Z Z' b b')
    (hs : I.el w (.indVecStep E m) (.indVecStep E' m') s s') :
    ∃ r r' D D', IndVecs k t m b s r ∧ IndVecs k' t' m' b' s' r' ∧ CallsBoth m k t D ∧
      CallsBoth m' k' t' D' ∧ I.el w D D' r r' := by
  obtain ⟨_, _, h₁, hE, -⟩ := I.lawful.formers.vec_inv (I.lawful.general.el_ty ht) (forces_self rfl)
  cases h₁.unique (forces_self rfl)
  clear h₁
  have iff := fun {k k' v u} (hk : I.el w .nat .nat k k') =>
    I.lawful.elements.vec (w := w) (v := v) (u := u) (I.lawful.formers.vec hE hk)
      (forces_self rfl) (forces_self rfl)
  have form := (iff hk).1 ht
  induction form with
  | nil hk₁ hl₁ hv hu =>
      have ek := (I.lawful.general.el_left hk).form_right hk₁.coincides
      have ek' := (I.lawful.general.el_right hk).form_right hl₁.coincides
      have hc := (I.lawful.general.el_left ht).form_right hv.coincides
      have hc' := (I.lawful.general.el_right ht).form_right hu.coincides
      obtain ⟨D, D', hD, hD', hDD⟩ := vecMotive_conv hm hk ht ek ek' hc hc' hZ hZ' hb
      exact ⟨b, b', D, D', .nil hv, .nil hu, hD, hD', hDD⟩
  | cons hk₁ hl₁ hv hu ha has ih =>
      obtain ⟨_, hl₂, hkk⟩ := add1_inv hk hk₁
      cases hl₁.unique hl₂
      have has := (iff hkk).2 has
      have ek := (I.lawful.general.el_left hk).form_right hk₁.coincides
      have ek' := (I.lawful.general.el_right hk).form_right hl₁.coincides
      have hc := (I.lawful.general.el_left ht).form_right hv.coincides
      have hc' := (I.lawful.general.el_right ht).form_right hu.coincides
      obtain ⟨r, r', D, D', hr, hr', hD, hD', hrr⟩ := ih hkk has
      obtain ⟨f, f', B, B', hf, hf', hB, hB', hff⟩ :=
        I.lawful.elements.pi_elim hs (forces_self rfl) (forces_self rfl) hkk
      cases hB.unique .vecStep
      cases hB'.unique .vecStep
      obtain ⟨g, g', B, B', hg, hg', hB, hB', hgg⟩ :=
        I.lawful.elements.pi_elim hff (forces_self rfl) (forces_self rfl) ha
      cases hB.unique .vecStepHead
      cases hB'.unique .vecStepHead
      obtain ⟨p, p', B, B', hp, hp', hB, hB', hpp⟩ :=
        I.lawful.elements.pi_elim hgg (forces_self rfl) (forces_self rfl) has
      cases hB.unique (.vecStepTail hD)
      cases hB'.unique (.vecStepTail hD')
      obtain ⟨N, N', hN, hN', _⟩ := I.lawful.vecMotive_call hm (I.lawful.add1 hkk)
        (I.lawful.vecCons hkk ha has)
      obtain ⟨c, c', B, B', hc₁, hc₁', hB, hB', hcc⟩ :=
        I.lawful.elements.pi_elim hpp (forces_self rfl) (forces_self rfl) hrr
      cases hB.unique (.fixedBoth hN)
      cases hB'.unique (.fixedBoth hN')
      obtain ⟨D, D', hD, hD', hDD⟩ := vecMotive_conv hm hk ht ek ek' hc hc' hN hN' hcc
      exact ⟨c, c', D, D', .cons hv hk₁ (.intro hf hg) hp hr hc₁,
        .cons hu hl₁ (.intro hf' hg') hp' hr' hc₁', hD, hD', hDD⟩
  | stuck h =>
      obtain ⟨T, n, hv, hT, hn⟩ := h
      obtain ⟨E₁, k₁, hT₁, hE₁, _⟩ := hT.vec_inv (forces_self rfl)
      obtain ⟨D, D', hD, hD', hDD⟩ := I.lawful.vecMotive_call hm hk ht
      have hc := (I.lawful.general.el_left ht).form_right hv.coincides
      obtain ⟨D₀, D₁, hD₀, hD₁, h₁⟩ :=
        (I.lawful.general.el_left hm).vecMotive (I.lawful.general.el_left hk) hc
      cases hD.unique hD₀
      obtain ⟨r, hr, hn⟩ := I.neutrals.indVec hn (forces_self rfl) hE₁ hk hm hD' hZ hZ' hb hs
      exact ⟨_, r, D, D', .neutral hv hT₁ hD₁ hZ, hr, hD, hD',
        I.lawful.elements.reflect (I.lawful.general.lift hDD) h₁.lift hn⟩

theorem indAbsurd (ht : I.el w .absurd .absurd t t') (hm : I.ty .small w m m') :
    ∃ r r', IndAbsurds t m r ∧ IndAbsurds t' m' r' ∧ I.el w m m' r r' := by
  obtain ⟨⟨T, n, _, _, hv, _⟩, _⟩ :=
    (ElEq.absurd_iff (forces_self rfl)).1 (I.lawful.general.el_left ht)
  obtain ⟨r, hr, hn⟩ := I.neutrals.indAbsurd ht (forces_self rfl) (forces_self rfl) hv hm
  exact ⟨_, r, .neutral hv, hr, I.lawful.elements.reflect (I.lawful.general.lift hm)
    (I.lawful.general.ty_left hm).lift hn⟩

end Inductions

/-! ## Equality -/

section Equality

variable {K K' a a' c c' m' Z Z' b b' t t' : Value}

theorem replace (ht : I.el w (.equal K a c) (.equal K' a' c') t t')
    (hm : I.el w (.simpleMotive K) (.simpleMotive K') m m') (hZ : Calls m a Z)
    (hZ' : Calls m' a' Z') (hb : I.el w Z Z' b b') :
    ∃ r r' D D', Transports .replace t m b r ∧ Transports .replace t' m' b' r' ∧ Calls m c D ∧
      Calls m' c' D' ∧ I.el w D D' r r' := by
  have hE := I.lawful.general.el_ty ht
  obtain ⟨_, _, _, h₁, hK, ha, hc⟩ := I.lawful.formers.equal_inv hE (forces_self rfl)
  cases h₁.unique (forces_self rfl)
  cases (I.lawful.elements.equal hE (forces_self rfl) (forces_self rfl)).1 ht with
  | same hv hu h =>
      obtain ⟨_, ⟨h₁, h₂⟩, h₃, h₄⟩ := h
      obtain ⟨D, D', hD, hD', hDD⟩ :=
        motive_conv hm hc (h₁.trans h₂).symm (h₃.trans h₄).symm hZ hZ' hb
      exact ⟨b, b', D, D', .same .replace hv, .same .replace hu, hD, hD', hDD⟩
  | stuck h =>
      obtain ⟨T, n, hv, hT, hn⟩ := h
      obtain ⟨K₁, a₁, c₁, hT₁, hK₁, ha₁, hc₁⟩ := hT.equal_inv (forces_self rfl)
      obtain ⟨D, D', hD, hD', hDD⟩ := I.lawful.motive hm hc
      obtain ⟨D₀, D₁, hD₀, hD₁, h₁⟩ := (I.lawful.general.el_left hm).motive hc₁
      obtain ⟨Z₀, Z₁, hZ₀, hZ₁, h₂⟩ := (I.lawful.general.el_left hm).motive ha₁
      cases hD.unique hD₀
      cases hZ.unique hZ₀
      obtain ⟨r, hr, hn⟩ := I.neutrals.replace hn (forces_self rfl) hK₁ hm hD' hZ hZ' h₂.lift hb
      exact ⟨_, r, D, D', .neutral_replace hv hT₁ hD₁ hZ₁, hr, hD, hD',
        I.lawful.elements.reflect (I.lawful.general.lift hDD) h₁.lift hn⟩

theorem indEqual (ht : I.el w (.equal K a c) (.equal K' a' c') t t')
    (hm : I.el w (.equalMotive K a) (.equalMotive K' a') m m') (hZ : CallsBoth m a (.same a) Z)
    (hZ' : CallsBoth m' a' (.same a') Z') (hb : I.el w Z Z' b b') :
    ∃ r r' D D', Transports .indEqual t m b r ∧ Transports .indEqual t' m' b' r' ∧
      CallsBoth m c t D ∧ CallsBoth m' c' t' D' ∧ I.el w D D' r r' := by
  have hE := I.lawful.general.el_ty ht
  obtain ⟨_, _, _, h₁, hK, ha, hc⟩ := I.lawful.formers.equal_inv hE (forces_self rfl)
  cases h₁.unique (forces_self rfl)
  have left := I.lawful.general.el_left hm
  have right := I.lawful.general.el_right hm
  obtain ⟨D, D', hD, hD', hDD⟩ := I.lawful.equalMotive_call hm hc ht
  cases (I.lawful.elements.equal hE (forces_self rfl) (forces_self rfl)).1 ht with
  | same hv hu h =>
      obtain ⟨_, ⟨h₁, h₂⟩, h₃, h₄⟩ := h
      -- The proof and its endpoint equal `same` and the left endpoint.
      have move : ∀ {K a c t y m D Z : Value}, ElEq (.equalMotive K a) m m → ElEq K a y →
          ElEq K y c → Forces t (.same y) → CallsBoth m c t D → CallsBoth m a (.same a) Z →
          TyEq .large Z D := by
        intro K a c t y m D Z hm hay hyc hv hD hZ
        have hp : ElEq (.equal K a a) (.same a) t :=
          hay.same.form_right hv.coincides.symm
        obtain ⟨Z₀, D₀, hZ₀, hD₀, h⟩ := hm.equalMotive (hay.trans hyc) hp
        cases hZ.unique hZ₀
        cases hD.unique hD₀
        exact h.lift
      have hZD := move left h₁ h₂ hv hD hZ
      have hZD' := move right h₃ h₄ hu hD' hZ'
      exact ⟨b, b', D, D', .same .indEqual hv, .same .indEqual hu, hD, hD',
        I.lawful.general.conv hb hZD hZD' (I.lawful.general.lift hDD)⟩
  | stuck h =>
      obtain ⟨T, n, hv, hT, hn⟩ := h
      obtain ⟨K₁, a₁, c₁, hT₁, hK₁, ha₁, hc₁⟩ := hT.equal_inv (forces_self rfl)
      have hp := (I.lawful.general.el_left ht).form_right hv.coincides
      obtain ⟨D₀, D₁, hD₀, hD₁, h₁⟩ := left.equalMotive hc₁ hp
      obtain ⟨Z₀, Z₁, hZ₀, hZ₁, h₂⟩ := left.equalMotive ha₁ ha₁.same
      cases hD.unique hD₀
      cases hZ.unique hZ₀
      obtain ⟨r, hr, hn⟩ := I.neutrals.indEqual hn (forces_self rfl) hK₁ ha₁ hm hD' hZ hZ' h₂.lift hb
      exact ⟨_, r, D, D', .neutral_indEqual hv hT₁ hD₁ hZ₁, hr, hD, hD',
        I.lawful.elements.reflect (I.lawful.general.lift hDD) h₁.lift hn⟩

theorem trans {K₁ K₁' b₁ b₁' l l' r r' : Value} (hl : I.el w (.equal K a b) (.equal K' a' b') l l')
    (hr : I.el w (.equal K₁ b₁ c) (.equal K₁' b₁' c') r r') (hK : TyEq .large K K₁)
    (hK' : TyEq .large K' K₁') (hb : ElEq K b b₁) (hb' : ElEq K' b' b₁') :
    ∃ v v', Transes l r v ∧ Transes l' r' v' ∧
      I.el w (.equal K a c) (.equal K' a' c') v v' := by
  have hE := I.lawful.general.el_ty hl
  have hE₁ := I.lawful.general.el_ty hr
  obtain ⟨_, _, _, h₁, hKK, haa, _⟩ := I.lawful.formers.equal_inv hE (forces_self rfl)
  cases h₁.unique (forces_self rfl)
  obtain ⟨_, _, _, h₁, _, _, hcc⟩ := I.lawful.formers.equal_inv hE₁ (forces_self rfl)
  cases h₁.unique (forces_self rfl)
  have hE₂ := I.lawful.formers.equal hKK haa
    (I.lawful.general.conv hcc hK.symm hK'.symm hKK)
  -- A stuck pair of proofs, once its neutral form is known.
  have stuck : ∀ {L R T x y}, Forces l x → Forces r y → TyEq .large (.equal K a b) L →
      TyEq .large (.equal K₁ b₁ c) R → TyEq .large (.equal K a c) T →
      ((∃ T n, Forces x (.neutral T n)) ∨ ∃ T n, Forces y (.neutral T n)) →
      Transes l r (.neutral T (.trans (.mk L x) (.mk R y))) →
      ∃ v v', Transes l r v ∧ Transes l' r' v' ∧ I.el w (.equal K a c) (.equal K' a' c') v v' := by
    intro L R T x y hx hy hL hR hT hs hv
    obtain ⟨v', hv', hn⟩ := I.neutrals.trans (forces_self rfl) (forces_self rfl) (forces_self rfl) (forces_self rfl) hK' hb'
      (I.lawful.general.el_form hl hx.coincides (.refl l'))
      (I.lawful.general.el_form hr hy.coincides (.refl r')) hL hR hs
    exact ⟨_, v', hv, hv', I.lawful.elements.reflect hE₂ hT hn⟩
  cases (I.lawful.elements.equal hE (forces_self rfl) (forces_self rfl)).1 hl with
  | same hx hx' h =>
      obtain ⟨hxx, ⟨h₁, h₂⟩, h₃, h₄⟩ := h
      cases (I.lawful.elements.equal hE₁ (forces_self rfl) (forces_self rfl)).1 hr with
      | same hy hy' h =>
          obtain ⟨_, ⟨h₅, h₆⟩, h₇, h₈⟩ := h
          have hxc := (h₂.trans hb).trans ((h₅.trans h₆).conv hK.symm)
          have hxc' := (h₄.trans hb').trans ((h₇.trans h₈).conv hK'.symm)
          exact ⟨_, _, .same hx hy, .same hx' hy',
            (I.lawful.elements.equal hE₂ (forces_self rfl) (forces_self rfl)).2
              (.same (forces_self rfl) (forces_self rfl) ⟨hxx, ⟨h₁, hxc⟩, h₃, hxc'⟩)⟩
      | stuck h =>
          obtain ⟨T, n, hy, hT, _⟩ := h
          obtain ⟨K₂, b₂, c₂, hT₂, hK₂, hb₂, hc₂⟩ := hT.equal_inv (forces_self rfl)
          refine stuck hx hy (.equal (forces_self rfl) (forces_self rfl) (hK.trans hK₂) h₁ h₂.symm)
            (hT.form_right hT₂.coincides) ?_ (.inr ⟨T, n, hy.self⟩) (.same_neutral hx hy hT₂)
          exact .equal (forces_self rfl) (forces_self rfl) (hK.trans hK₂) h₁ (hc₂.conv hK.symm)
  | stuck h =>
      obtain ⟨T, n, hx, hT, _⟩ := h
      obtain ⟨K₂, a₂, b₂, hT₂, hK₂, ha₂, hb₂⟩ := hT.equal_inv (forces_self rfl)
      cases (I.lawful.elements.equal hE₁ (forces_self rfl) (forces_self rfl)).1 hr with
      | same hy hy' h =>
          obtain ⟨_, ⟨h₅, h₆⟩, _⟩ := h
          refine stuck hx hy (hT.form_right hT₂.coincides)
            (.equal (forces_self rfl) (forces_self rfl) (hK.symm.trans hK₂) h₅ h₆.symm) ?_
            (.inl ⟨T, n, hx.self⟩) (.neutral_same hx hy hT₂)
          exact .equal (forces_self rfl) (forces_self rfl) hK₂ ha₂ (h₆.symm.conv hK.symm)
      | stuck h =>
          obtain ⟨T', n', hy, hT', _⟩ := h
          obtain ⟨K₃, b₃, c₃, hT₃, hK₃, hb₃, hc₃⟩ := hT'.equal_inv (forces_self rfl)
          refine stuck hx hy (hT.form_right hT₂.coincides) (hT'.form_right hT₃.coincides) ?_
            (.inl ⟨T, n, hx.self⟩) (.neutral hx hy hT₂ hT₃)
          exact .equal (forces_self rfl) (forces_self rfl) hK₂ ha₂ (hc₃.conv hK.symm)

/-- A function on both sides of an equality; its range does not depend on the argument. -/
theorem cong {F F' d d' f f' D D' : Value} {x x' : Name} {q q' : Closure}
    (ht : I.el w (.equal K a c) (.equal K' a' c') t t') (hf : I.el w F F' f f')
    (hF : Forces F (.pi x d q)) (hF' : Forces F' (.pi x' d' q')) (hd : TyEq .large d K)
    (hd' : TyEq .large d' K') (hD : Applies q a D) (hD' : Applies q' a' D')
    (hq : ∀ {b B}, ElEq d b b → Applies q b B → TyEq .large B D)
    (hq' : ∀ {b B}, ElEq d' b b → Applies q' b B → TyEq .large B D') :
    ∃ r r' v₁ v₂ v₁' v₂', Congs t (some F) f r ∧ Congs t' (some F') f' r' ∧ Calls f a v₁ ∧
      Calls f c v₂ ∧ Calls f' a' v₁' ∧ Calls f' c' v₂' ∧
      I.el w (.equal D v₁ v₂) (.equal D' v₁' v₂') r r' := by
  have hE := I.lawful.general.el_ty ht
  have hFF := I.lawful.general.el_ty hf
  obtain ⟨_, _, _, h₁, hK, ha, hc⟩ := I.lawful.formers.equal_inv hE (forces_self rfl)
  cases h₁.unique (forces_self rfl)
  obtain ⟨_, _, _, h₁, hdd, hqq⟩ := I.lawful.formers.quant_inv hFF hF
  cases h₁.unique hF'
  -- What the function gives at an argument, on both sides.
  have call : ∀ {y y'}, I.el w K K' y y' → ∃ v v' B B', Calls f y v ∧ Calls f' y' v' ∧
      Applies q y B ∧ Applies q' y' B' ∧ I.el w B B' v v' := fun hy =>
    I.lawful.elements.pi_elim hf hF hF' (I.lawful.general.conv hy hd.symm hd'.symm hdd)
  -- Equal arguments give equal results, at the range of the first.
  have same : ∀ {F f d K y z v u B} {x : Name} {q : Closure}, ElEq F f f → Forces F (.pi x d q) →
      TyEq .large d K → ElEq K y z → Calls f y v → Calls f z u → Applies q y B →
      ElEq B v u ∧ ∀ {B₁}, Applies q z B₁ → TyEq .large B B₁ := by
    intro F f d K y z v u B x q hf hF hd hyz hv hu hB
    have hyz := hyz.conv hd.symm
    obtain ⟨v₀, u₀, B₀, hv₀, hu₀, hB₀, h⟩ := hf.call hF hyz
    obtain ⟨_, _, _, h₁, _, hr⟩ := hf.type.quant_inv hF
    cases h₁.unique hF
    obtain ⟨B₂, B₃, hB₂, hB₃, hBB⟩ := hr _ _ hyz
    cases hv.unique hv₀
    cases hu.unique hu₀
    cases hB.unique hB₀
    cases hB.unique hB₂
    exact ⟨h, fun hB₁ => hB₁.unique hB₃ ▸ hBB⟩
  have left := I.lawful.general.el_left hf
  have right := I.lawful.general.el_right hf
  obtain ⟨v₁, v₁', B, B', hv₁, hv₁', hB, hB', hvv₁⟩ := call ha
  cases hD.unique hB
  cases hD'.unique hB'
  have hDD := I.lawful.general.el_ty hvv₁
  obtain ⟨v₂, v₂', B₂, B₂', hv₂, hv₂', hB₂, hB₂', hvv₂⟩ := call hc
  have hB₂D := hq ((I.lawful.general.el_left hc).conv hd.symm) hB₂
  have hB₂D' := hq' ((I.lawful.general.el_right hc).conv hd'.symm) hB₂'
  have hvv₂ := I.lawful.general.conv hvv₂ hB₂D hB₂D' hDD
  have hR := I.lawful.formers.equal hDD hvv₁ hvv₂
  cases (I.lawful.elements.equal hE (forces_self rfl) (forces_self rfl)).1 ht with
  | same hy hy' h =>
      obtain ⟨hyy, ⟨h₁, h₂⟩, h₃, h₄⟩ := h
      obtain ⟨v, v', B₃, B₃', hv, hv', hB₃, hB₃', hvv⟩ := call hyy
      have s₁ := same left hF hd h₁ hv₁ hv hD
      have s₂ := same right hF' hd' h₃ hv₁' hv' hD'
      have hvv := I.lawful.general.conv hvv (s₁.2 hB₃).symm (s₂.2 hB₃').symm hDD
      have t₁ := (same left hF hd h₂ hv hv₂ hB₃).1.conv (s₁.2 hB₃).symm
      have t₂ := (same right hF' hd' h₄ hv' hv₂' hB₃').1.conv (s₂.2 hB₃').symm
      exact ⟨_, _, v₁, v₂, v₁', v₂', .same hy hv, .same hy' hv', hv₁, hv₂, hv₁', hv₂',
        (I.lawful.elements.equal hR (forces_self rfl) (forces_self rfl)).2
          (.same (forces_self rfl) (forces_self rfl) ⟨hvv, ⟨s₁.1, t₁⟩, s₂.1, t₂⟩)⟩
  | stuck h =>
      obtain ⟨T, n, hy, hT, hn⟩ := h
      obtain ⟨K₁, a₁, c₁, hT₁, hK₁, ha₁, hc₁⟩ := hT.equal_inv (forces_self rfl)
      obtain ⟨u₀, u₁, _, _, hu₁, _, _⟩ := left.call hF (ha₁.conv hd.symm)
      obtain ⟨u₀, u₂, _, _, hu₂, _, _⟩ := left.call hF (hc₁.conv hd.symm)
      obtain ⟨_, _, _, h₁, _, hr⟩ := left.type.quant_inv hF
      cases h₁.unique hF
      obtain ⟨_, D₁, _, hD₁, _⟩ := hr _ _ (ha₁.conv hd.symm)
      have s₁ := same left hF hd ha₁ hv₁ hu₁ hD
      have s₂ := same left hF hd hc₁ hv₂ hu₂ hB₂
      obtain ⟨r, hr, hn⟩ := I.neutrals.cong hn (forces_self rfl) hf hF hF' hd' hD' hq' hv₁' hv₂'
      refine ⟨_, r, v₁, v₂, v₁', v₂', .neutral hy hT₁ hF hD₁ hu₁ hu₂, hr, hv₁, hv₂, hv₁', hv₂',
        I.lawful.elements.reflect hR ?_ hn⟩
      exact .equal (forces_self rfl) (forces_self rfl) (s₁.2 hD₁) s₁.1 (s₂.1.conv hB₂D)

end Equality

end Interpretation

end TypeKernel
