/-
# TypeKernel.Proofs.ExactNeutrals — stuck eliminators and equality

An eliminator whose target is stuck gives a stuck value, which reads back alike whenever the target and
the other arguments do.
-/
import TypeKernel.Proofs.Motives

namespace TypeKernel

set_option autoImplicit false

namespace Agree

variable {t t' : Neutral} {B B' b b' S S' s s' M M' m m' F F' f f' L L' l l' R R' r r' N N' k k' : Value}

theorem proj (p : Projection) (h : Agree (.neutral t) (.neutral t')) :
    Agree (.neutral (.proj p t)) (.neutral (.proj p t')) :=
  h.of_one (fun _ n => .proj p n) (.proj p) (.proj p)

theorem fold (q : Fold) (h : Agree (.neutral t) (.neutral t')) (hB : TyEq .large B B')
    (hb : ElEq B b b') (hS : TyEq .large S S') (hs : ElEq S s s') :
    Agree (.neutral (.fold q t (.mk B b) (.mk S s)))
      (.neutral (.fold q t' (.mk B' b') (.mk S' s'))) :=
  h.of_four (fun σ t B b s => .fold q t (σ.annotate B b) s) (.fold q) (.fold q) hB.agree
    (hb.agree hB) (hs.agree hS)

theorem induct (i : Induction) (h : Agree (.neutral t) (.neutral t')) (hM : TyEq .large M M')
    (hm : ElEq M m m') (hB : TyEq .large B B') (hb : ElEq B b b') (hS : TyEq .large S S')
    (hs : ElEq S s s') :
    Agree (.neutral (.induct i t (.mk M m) (.mk B b) (.mk S s)))
      (.neutral (.induct i t' (.mk M' m') (.mk B' b') (.mk S' s'))) :=
  h.of_four (fun _ t m b s => .induct i t m b s) (.induct i) (.induct i) (hm.agree hM)
    (hb.agree hB) (hs.agree hS)

theorem transport (q : Transport) (h : Agree (.neutral t) (.neutral t')) (hM : TyEq .large M M')
    (hm : ElEq M m m') (hB : TyEq .large B B') (hb : ElEq B b b') :
    Agree (.neutral (.transport q t (.mk M m) (.mk B b)))
      (.neutral (.transport q t' (.mk M' m') (.mk B' b'))) :=
  h.of_three (fun _ t m b => .transport q t m b) (.transport q) (.transport q) (hm.agree hM)
    (hb.agree hB)

theorem indVec (hk : ElEq .nat k k') (h : Agree (.neutral t) (.neutral t'))
    (hM : TyEq .large M M') (hm : ElEq M m m') (hB : TyEq .large B B') (hb : ElEq B b b')
    (hS : TyEq .large S S') (hs : ElEq S s s') :
    Agree (.neutral (.indVec (.mk .nat k) t (.mk M m) (.mk B b) (.mk S s)))
      (.neutral (.indVec (.mk .nat k') t' (.mk M' m') (.mk B' b') (.mk S' s'))) :=
  (hk.agree hk.type).of_five (fun _ k t m b s => .indVec k t m b s) .indVec .indVec h
    (hm.agree hM) (hb.agree hB) (hs.agree hS)

/-- Elements of `Absurd` need only exist. -/
theorem indAbsurd (h : Agree (.neutral t) (.neutral t)) (h' : Agree (.neutral t') (.neutral t'))
    (hm : TyEq .small m m') :
    Agree (.neutral (.indAbsurd t (.mk M m))) (.neutral (.indAbsurd t' (.mk M' m'))) := by
  intro σ X
  obtain ⟨n, _, hn, _⟩ := h σ X
  obtain ⟨n', _, hn', _⟩ := h' σ X
  obtain ⟨nm, nm', hnm, hnm', heq⟩ := hm.agree σ X
  refine ⟨_, _, .indAbsurd hn hnm, .indAbsurd hn' hnm', ?_⟩
  rintro b rfl
  rw [heq b rfl]
  rfl

theorem trans' (hL : TyEq .large L L') (hl : ElEq L l l') (hR : TyEq .large R R')
    (hr : ElEq R r r') :
    Agree (.neutral (.trans (.mk L l) (.mk R r))) (.neutral (.trans (.mk L' l') (.mk R' r'))) :=
  (hl.agree hL).of_two (fun _ l r => .trans l r) .trans .trans (hr.agree hR)

theorem cong (h : Agree (.neutral t) (.neutral t')) (hF : TyEq .large F F') (hf : ElEq F f f') :
    Agree (.neutral (.cong t (.mk F f))) (.neutral (.cong t' (.mk F' f'))) :=
  h.of_three (fun σ t F f => .cong t (σ.annotate F f)) .cong .cong hF.agree (hf.agree hF)

end Agree

theorem ElEq.of_stuck {C T u : Value} {n : Neutral} (hu : Forces u (.neutral T n))
    (hT : TyEq .large C T) (hn : Agree (.neutral n) (.neutral n)) : ElEq C u (.neutral T n) :=
  (ElEq.reflect hT hT hn).form hu.coincides.symm

namespace Frame.exact

/-- Two proofs in a row, at least one of them stuck. -/
theorem trans {w : Unit} {A C A₁ C₁ L R K' a' b' K₁' b₁' c' l l' r r' : Value}
    (hC : Forces C (.equal K' a' b')) (hC₁ : Forces C₁ (.equal K₁' b₁' c'))
    (hK : TyEq .large K' K₁') (hl : Frame.exact.el w A C l l')
    (hr : Frame.exact.el w A₁ C₁ r r') (hL : TyEq .large A L) (hR : TyEq .large A₁ R)
    (hs : (∃ T n, Forces l (.neutral T n)) ∨ ∃ T n, Forces r (.neutral T n)) :
    ∃ v, Transes l' r' v ∧
      Frame.exact.stuck w (.equal K' a' c') (.trans (.mk L l) (.mk R r)) v := by
  -- The proofs on the right, seen as elements of the types on the right.
  have fl := (ElEq.equal_iff hl.1.refl_right hC).1 (hl.2.conv hl.1)
  have fr := (ElEq.equal_iff hr.1.refl_right hC₁).1 (hr.2.conv hr.1)
  have hCL := hl.1.symm.trans hL
  have hCR := hr.1.symm.trans hR
  have form : ∀ {A L v v' x : Value}, ElEq A v v' → TyEq .large A L → Forces v' x → ElEq L v x :=
    fun h hL hx => (h.form_right hx.coincides).conv hL
  cases fl with
  | same hx hx' hxx =>
      cases fr with
      | same hy =>
          rcases hs with ⟨T, n, h⟩ | ⟨T, n, h⟩
          · cases hx.unique h
          · cases hy.unique h
      | stuck h =>
          obtain ⟨T, n, T', n', hn, hn', hT, hT', he⟩ := h
          obtain ⟨K₃, b₃, c₃, hT₃, hK₃, hb₃, hc₃⟩ := hT'.equal_inv hC₁
          have hKK := hK.trans hK₃
          have ha' := hxx.2.1.trans hxx.1
          have hb' := hxx.2.2.symm.trans hxx.1
          refine ⟨_, .same_neutral hx' hn' hT₃, _, _, (forces_self rfl), ?_, ?_⟩
          · exact .equal (forces_self rfl) (forces_self rfl) hKK ha' (hc₃.conv hK.symm)
          · refine .trans' (hCL.symm.trans (.equal hC (forces_self rfl) hKK ha' hb')) (form hl.2 hL hx')
              (hCR.symm.trans (hT'.form_right hT₃.coincides)) (form hr.2 hR hn')
  | stuck h =>
      obtain ⟨T, n, T', n', hn, hn', hT, hT', he⟩ := h
      obtain ⟨K₂, a₂, b₂, hT₂, hK₂, ha₂, hb₂⟩ := hT'.equal_inv hC
      cases fr with
      | same hy hy' hyy =>
          have hKK := hK.symm.trans hK₂
          have hc' := hyy.2.2.symm.trans hyy.1
          have hb₁ := hyy.2.1.trans hyy.1
          refine ⟨_, .neutral_same hn' hy' hT₂, _, _, (forces_self rfl), ?_, ?_⟩
          · exact .equal (forces_self rfl) (forces_self rfl) hK₂ ha₂ (hc'.conv hK.symm)
          · exact .trans' (hCL.symm.trans (hT'.form_right hT₂.coincides)) (form hl.2 hL hn')
              (hCR.symm.trans (.equal hC₁ (forces_self rfl) hKK hb₁ hc')) (form hr.2 hR hy')
      | stuck h' =>
          obtain ⟨T₁, n₁, T₁', n₁', hn₁, hn₁', hT₁, hT₁', he₁⟩ := h'
          obtain ⟨K₃, b₃, c₃, hT₃, hK₃, hb₃, hc₃⟩ := hT₁'.equal_inv hC₁
          refine ⟨_, .neutral hn' hn₁' hT₂ hT₃, _, _, (forces_self rfl), ?_, ?_⟩
          · exact .equal (forces_self rfl) (forces_self rfl) hK₂ ha₂ (hc₃.conv hK.symm)
          · exact .trans' (hCL.symm.trans (hT'.form_right hT₂.coincides)) (form hl.2 hL hn')
              (hCR.symm.trans (hT₁'.form_right hT₃.coincides)) (form hr.2 hR hn₁')

theorem neutrals : Frame.exact.Neutrals where
  head := by
    rintro w C n u E k m ⟨T, n', hu, hT, hn⟩ hC hk
    obtain ⟨E', k', hT', hE, _⟩ := hT.vec_inv hC
    exact ⟨_, .neutral hu hT', E', _, (forces_self rfl), hE, hn.proj .head⟩
  tail := by
    rintro w C n u E k m ⟨T, n', hu, hT, hn⟩ hC hk
    obtain ⟨E', k', hT', hE, hkk⟩ := hT.vec_inv hC
    obtain ⟨m', hk', hm⟩ := ((ElEq.nat_iff (forces_self rfl)).1 hkk).add1_inv hk
    refine ⟨_, .neutral hu hT' hk', .vec E' m', _, (forces_self rfl), ?_, hn.proj .tail⟩
    exact .vec (forces_self rfl) (forces_self rfl) hE ((ElEq.nat_iff (forces_self rfl)).2 hm)
  symm := by
    rintro w C n u K a b ⟨T, n', hu, hT, hn⟩ hC
    obtain ⟨K', a', b', hT', hK, ha, hb⟩ := hT.equal_inv hC
    exact ⟨_, .neutral hu hT', _, _, (forces_self rfl), .equal (forces_self rfl) (forces_self rfl) hK hb ha,
      hn.proj .symm⟩
  natFold := by
    rintro w C n u f S B B' b b' s s' hf ⟨T, n', hu, hT, hn⟩ hC hB hb hs
    exact ⟨_, .neutral hf hu, B', _, (forces_self rfl), hB.refl_right, hn.fold f hB hb.2 hs.1 hs.2⟩
  recList := by
    rintro w C n u E E₁ E' B B' b b' s s' ⟨T, n', hu, hT, hn⟩ hC hE hB hb hs
    obtain ⟨E₂, hT', hE₂⟩ := hT.list_inv hC
    have hS : TyEq .large (.recListStep E B) (.recListStep E₁ B) := .recListStep hE hB.refl_left
    have hS' : TyEq .large (.recListStep E' B') (.recListStep E₂ B') := .recListStep hE₂ hB.refl_right
    exact ⟨_, .neutral_list hu hT', B', _, (forces_self rfl), hB.refl_right,
      hn.fold .recList hB hb.2 ((hS.symm.trans hs.1).trans hS') (hs.2.conv hS)⟩
  indNat := by
    rintro w C n u m m' D Z Z' b b' s s' ⟨T, n', hu, hT, hn⟩ hC hm hD hZ hZ' hb hs
    have hu' := (ElEq.of_stuck hu hT hn.refl_right).conv (.const rfl hC (forces_self rfl))
    obtain ⟨D₀, D₁, hD₀, hD₁, hDD⟩ := hm.2.refl_right.motive hu'
    cases hD.unique hD₀
    exact ⟨_, .neutral_nat hu hD₁ hZ', D₁, _, (forces_self rfl), hDD.lift,
      hn.induct .indNat hm.1 hm.2 hb.1 hb.2 hs.1 hs.2⟩
  indList := by
    rintro w C n u E E₁ E' m m' D Z Z' b b' s s' ⟨T, n', hu, hT, hn⟩ hC hE hm hD hZ hZ' hb hs
    obtain ⟨E₂, hT', hE₂⟩ := hT.list_inv hC
    have hm' := hm.2.refl_right.conv hm.1
    have hu' := (ElEq.of_stuck hu hT hn.refl_right).conv (hT.refl_left.coincides hC.coincides)
    obtain ⟨D₀, D₁, hD₀, hD₁, hDD⟩ := hm'.motive hu'
    cases hD.unique hD₀
    have hM : TyEq .large (.listMotive E) (.listMotive E₁) := .listMotive hE
    have hM' : TyEq .large (.listMotive E') (.listMotive E₂) := .listMotive hE₂
    have hS : TyEq .large (.indListStep E m) (.indListStep E₁ m) := .indListStep hE hm.2.refl_left
    have hS' : TyEq .large (.indListStep E' m') (.indListStep E₂ m') := .indListStep hE₂ hm'
    exact ⟨_, .neutral_list hu hT' hD₁ hZ', D₁, _, (forces_self rfl), hDD.lift,
      hn.induct .indList ((hM.symm.trans hm.1).trans hM') (hm.2.conv hM) hb.1 hb.2
        ((hS.symm.trans hs.1).trans hS') (hs.2.conv hS)⟩
  indEither := by
    rintro w C n u l l₁ l' r r₁ r' m m' D b b' s s' ⟨T, n', hu, hT, hn⟩ hC hl hr hm hD hb hs
    obtain ⟨l₂, r₂, hT', hl₂, hr₂⟩ := hT.either_inv hC
    have hm' := hm.2.refl_right.conv hm.1
    have hu' := (ElEq.of_stuck hu hT hn.refl_right).conv (hT.refl_left.coincides hC.coincides)
    obtain ⟨D₀, D₁, hD₀, hD₁, hDD⟩ := hm'.motive hu'
    cases hD.unique hD₀
    have hM : TyEq .large (.simpleMotive (.either l r)) (.simpleMotive (.either l₁ r₁)) :=
      .simpleMotive (.either (forces_self rfl) (forces_self rfl) hl hr)
    have hM' : TyEq .large (.simpleMotive (.either l' r')) (.simpleMotive (.either l₂ r₂)) :=
      .simpleMotive (.either (forces_self rfl) (forces_self rfl) hl₂ hr₂)
    have hB := TyEq.eitherLeft hl hr.refl_left hm.2.refl_left
    have hB' := TyEq.eitherLeft hl₂ hr₂.refl_left hm'
    have hS := TyEq.eitherRight hr hl.refl_left hm.2.refl_left
    have hS' := TyEq.eitherRight hr₂ hl₂.refl_left hm'
    exact ⟨_, .neutral_either hu hT' hD₁, D₁, _, (forces_self rfl), hDD.lift,
      hn.induct .indEither ((hM.symm.trans hm.1).trans hM') (hm.2.conv hM)
        ((hB.symm.trans hb.1).trans hB') (hb.2.conv hB)
        ((hS.symm.trans hs.1).trans hS') (hs.2.conv hS)⟩
  indVec := by
    rintro w C n u E E₁ E' k k' m m' D Z Z' b b' s s' ⟨T, n', hu, hT, hn⟩ hC hE hk hm hD hZ hZ' hb hs
    obtain ⟨E₂, k₂, hT', hE₂, _⟩ := hT.vec_inv hC
    have hm' := hm.2.refl_right.conv hm.1
    have hu' := (ElEq.of_stuck hu hT hn.refl_right).conv (hT.refl_left.coincides hC.coincides)
    obtain ⟨D₀, D₁, hD₀, hD₁, hDD⟩ := hm'.vecMotive hk.2.refl_right hu'
    cases hD.unique hD₀
    have hM : TyEq .large (.vecMotive E) (.vecMotive E₁) := .vecMotive hE
    have hM' : TyEq .large (.vecMotive E') (.vecMotive E₂) := .vecMotive hE₂
    have hS : TyEq .large (.indVecStep E m) (.indVecStep E₁ m) := .indVecStep hE hm.2.refl_left
    have hS' : TyEq .large (.indVecStep E' m') (.indVecStep E₂ m') := .indVecStep hE₂ hm'
    exact ⟨_, .neutral hu hT' hD₁ hZ', D₁, _, (forces_self rfl), hDD.lift,
      .indVec hk.2 hn ((hM.symm.trans hm.1).trans hM') (hm.2.conv hM) hb.1 hb.2
        ((hS.symm.trans hs.1).trans hS') (hs.2.conv hS)⟩
  indAbsurd := by
    rintro w A C T n v u m m' hvu hA hC hv hm
    obtain ⟨⟨T₀, n₀, _, _, hv', _, _, _, hn⟩, T₁, n₁, _, _, hu, _, _, _, hn₁⟩ :=
      (ElEq.absurd_iff hA).1 hvu.2
    cases hv.unique hv'
    exact ⟨_, .neutral hu, m', _, (forces_self rfl), hm.refl_right.lift,
      .indAbsurd hn.refl_left hn₁.refl_left hm⟩
  replace := by
    rintro w C n u K K₁ K' a a' c' m m' D Z Z₂ Z' b b' ⟨T, n', hu, hT, hn⟩ hC hK hm hD hZ hZ' hZ₂ hb
    obtain ⟨K₂, a₂, c₂, hT', hK₂, ha₂, hc₂⟩ := hT.equal_inv hC
    have hm' := hm.2.refl_right.conv hm.1
    obtain ⟨D₀, D₁, hD₀, hD₁, hDD⟩ := hm'.motive hc₂
    obtain ⟨Z₀, Z₁, hZ₀, hZ₁, hZZ⟩ := hm'.motive ha₂
    cases hD.unique hD₀
    cases hZ'.unique hZ₀
    have hM : TyEq .large (.simpleMotive K) (.simpleMotive K₁) := .simpleMotive hK
    have hM' : TyEq .large (.simpleMotive K') (.simpleMotive K₂) := .simpleMotive hK₂
    exact ⟨_, .neutral_replace hu hT' hD₁ hZ₁, D₁, _, (forces_self rfl), hDD.lift,
      hn.transport .replace ((hM.symm.trans hm.1).trans hM') (hm.2.conv hM)
        (hZ₂.symm.trans (hb.1.trans hZZ.lift)) (hb.2.conv hZ₂)⟩
  indEqual := by
    rintro w C n u K K₁ K' a a₁ a' c' m m' D Z Z₂ Z' b b' ⟨T, n', hu, hT, hn⟩ hC hK ha hm hD hZ hZ'
      hZ₂ hb
    obtain ⟨K₂, a₂, c₂, hT', hK₂, ha₂, hc₂⟩ := hT.equal_inv hC
    have hm' := hm.2.refl_right.conv hm.1
    have hu' := (ElEq.of_stuck hu hT hn.refl_right).conv (hT.refl_left.coincides hC.coincides)
    obtain ⟨D₀, D₁, hD₀, hD₁, hDD⟩ := hm'.equalMotive hc₂ hu'
    obtain ⟨Z₀, Z₁, hZ₀, hZ₁, hZZ⟩ := hm'.equalMotive ha₂ ha₂.same
    cases hD.unique hD₀
    cases hZ'.unique hZ₀
    have hM : TyEq .large (.equalMotive K a) (.equalMotive K₁ a₁) := .equalMotive hK ha
    have hM' : TyEq .large (.equalMotive K' a') (.equalMotive K₂ a₂) := .equalMotive hK₂ ha₂
    exact ⟨_, .neutral_indEqual hu hT' hD₁ hZ₁, D₁, _, (forces_self rfl), hDD.lift,
      hn.transport .indEqual ((hM.symm.trans hm.1).trans hM') (hm.2.conv hM)
        (hZ₂.symm.trans (hb.1.trans hZZ.lift)) (hb.2.conv hZ₂)⟩
  trans _ hC _ hC₁ hK _ hl hr hL hR hs := trans hC hC₁ hK hl hr hL hR hs
  cong := by
    rintro w C n u K' a' c' F F' x x' d d' q q' D f f' v v' ⟨T, n', hu, hT, hn⟩ hC hf hF hF' hd hD
      hDD hv hv'
    obtain ⟨K₂, a₂, c₂, hT', hK₂, ha₂, hc₂⟩ := hT.equal_inv hC
    have hf' := hf.2.refl_right.conv hf.1
    obtain ⟨_, _, _, hF₁, _, hq⟩ := hf.1.refl_right.quant_inv hF'
    cases hF'.unique hF₁
    obtain ⟨D₀, D₂, hD₀, hD₂, hDD₂⟩ := hq _ _ (ha₂.conv hd.symm)
    obtain ⟨v₀, v₂, B, hv₀, hv₂, hB, hvv⟩ := hf'.call hF' (ha₂.conv hd.symm)
    obtain ⟨w₀, w₂, B', hw₀, hw₂, hB', hww⟩ := hf'.call hF' (hc₂.conv hd.symm)
    cases hD.unique hD₀
    cases hv.unique hv₀
    cases hD.unique hB
    cases hv'.unique hw₀
    have hc' := hc₂.refl_left.conv hd.symm
    refine ⟨_, .neutral hu hT' hF' hD₂ hv₂ hw₂, _, _, (forces_self rfl), ?_, ?_⟩
    · exact .equal (forces_self rfl) (forces_self rfl) hDD₂ hvv (hww.conv (hDD hc' hB'))
    · have hFx := hf.1.refl_left.coincides hF.coincides
      exact hn.cong ((hf.1.form hF.coincides).form_right hF'.coincides) (hf.2.conv hFx)

end Frame.exact

/-- Equality is an interpretation. -/
def Interpretation.exact : Interpretation where
  toFrame := Frame.exact
  lawful := Frame.exact.lawful
  neutrals := Frame.exact.neutrals

end TypeKernel
