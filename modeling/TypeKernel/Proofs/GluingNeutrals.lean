/-
# TypeKernel.Proofs.GluingNeutrals — stuck eliminators and instances

A stuck eliminator read back is the same eliminator of the readings of its arguments. Evaluated with
the variables replaced it eliminates what its target stands for, and the other arguments evaluate to
values equal to their instances. So it is enough that eliminators give equal results for equal
arguments, which equality satisfies as every interpretation does, and that in a scope the typing rules
accept the eliminator.
-/
import TypeKernel.Proofs.Eliminators
import TypeKernel.Proofs.ExactNeutrals
import TypeKernel.Proofs.Gluing

namespace TypeKernel

set_option autoImplicit false

/-! ## Equal results for equal arguments

All types are those of the arguments on the right. -/

namespace ElEq

variable {A t u b b' s s' m m' B B' E k l r K a c D Z : Value}

theorem exact {A v w : Value} (h : ElEq A v w) : Interpretation.exact.el () A A v w := ⟨h.type, h⟩

theorem heads (h : ElEq A t u) (hA : Forces A (.vec E k)) (hk : Forces k (.add1 m)) :
    ∃ a a', Heads t a ∧ Heads u a' ∧ ElEq E a a' := by
  obtain ⟨a, a', ha, ha', haa⟩ := Interpretation.head h.exact hA hA hk
  exact ⟨a, a', ha, ha', haa.2⟩

theorem tails (h : ElEq A t u) (hA : Forces A (.vec E k)) (hk : Forces k (.add1 m)) :
    ∃ a a', Tails t a ∧ Tails u a' ∧ ElEq (.vec E m) a a' := by
  obtain ⟨_, a, a', _, _, ha, ha', haa⟩ := Interpretation.tail h.exact hA hA hk
  exact ⟨a, a', ha, ha', haa.2⟩

theorem symms (h : ElEq A t u) (hA : Forces A (.equal K l r)) :
    ∃ a a', Symms t a ∧ Symms u a' ∧ ElEq (.equal K r l) a a' := by
  obtain ⟨a, a', ha, ha', haa⟩ := Interpretation.symm h.exact hA hA
  exact ⟨a, a', ha, ha', haa.2⟩

theorem folds {f : Fold} {S : Value → Value} (hf : NatFold f S) (ht : ElEq .nat t u)
    (hB : TyEq .large B B') (hb : ElEq B' b b') (hs : ElEq (S B') s s') :
    ∃ v v', Folds f t (some B) b s v ∧ Folds f u (some B') b' s' v' ∧ ElEq B' v v' := by
  have hS := TyEq.natFoldStep hf hB
  obtain ⟨v, v', hv, hv', hvv⟩ := Interpretation.natFold (I := .exact) (w := ()) hf ht.exact hB
    ⟨hB, hb.conv hB.symm⟩ ⟨hS, hs.conv hS.symm⟩
  exact ⟨v, v', hv, hv', hvv.2.conv hB⟩

theorem foldsList (ht : ElEq (.list E) t u) (hE : TyEq .large E E) (hB : TyEq .large B B')
    (hb : ElEq B' b b') (hs : ElEq (.recListStep E B') s s') :
    ∃ v v', Folds .recList t (some B) b s v ∧ Folds .recList u (some B') b' s' v' ∧
      ElEq B' v v' := by
  have hS := TyEq.recListStep hE hB
  obtain ⟨v, v', hv, hv', hvv⟩ := Interpretation.recList (I := .exact) (w := ()) ht.exact hB
    ⟨hB, hb.conv hB.symm⟩ ⟨hS, hs.conv hS.symm⟩
  exact ⟨v, v', hv, hv', hvv.2.conv hB⟩

theorem inductsNat (ht : ElEq .nat t u) (hm : ElEq .natMotive m m') (hZ : Calls m' .zero Z)
    (hb : ElEq Z b b') (hs : ElEq (.indNatStep m') s s') (hD : Calls m' u D) :
    ∃ v v', Inducts .indNat t m b s v ∧ Inducts .indNat u m' b' s' v' ∧ ElEq D v v' := by
  obtain ⟨Z₀, _, hZ₀, h₁, hZZ⟩ := hm.motive .zero
  cases hZ.unique h₁
  have hS := TyEq.indNatStep hm
  obtain ⟨v, v', D₀, _, hv, hv', _, h₂, hvv⟩ := Interpretation.indNat (I := .exact) (w := ())
    ht.exact hm.exact hZ₀ hZ ⟨hZZ.lift, hb.conv hZZ.lift.symm⟩ ⟨hS, hs.conv hS.symm⟩
  cases hD.unique h₂
  exact ⟨v, v', hv, hv', hvv.2.conv hvv.1⟩

theorem inductsList (ht : ElEq (.list E) t u) (hE : TyEq .large E E)
    (hm : ElEq (.listMotive E) m m') (hZ : Calls m' .nil Z) (hb : ElEq Z b b')
    (hs : ElEq (.indListStep E m') s s') (hD : Calls m' u D) :
    ∃ v v', Inducts .indList t m b s v ∧ Inducts .indList u m' b' s' v' ∧ ElEq D v v' := by
  obtain ⟨Z₀, _, hZ₀, h₁, hZZ⟩ := hm.motive (Frame.exact.lawful.nil (w := ()) hE).2
  cases hZ.unique h₁
  have hS := TyEq.indListStep hE hm
  obtain ⟨v, v', D₀, _, hv, hv', _, h₂, hvv⟩ := Interpretation.indList (I := .exact) (w := ())
    ht.exact hm.exact hZ₀ hZ ⟨hZZ.lift, hb.conv hZZ.lift.symm⟩ ⟨hS, hs.conv hS.symm⟩
  cases hD.unique h₂
  exact ⟨v, v', hv, hv', hvv.2.conv hvv.1⟩

theorem inductsEither (ht : ElEq (.either l r) t u) (hl : TyEq .large l l) (hr : TyEq .large r r)
    (hm : ElEq (.simpleMotive (.either l r)) m m') (hb : ElEq (.eitherCase .left l m') b b')
    (hs : ElEq (.eitherCase .right r m') s s') (hD : Calls m' u D) :
    ∃ v v', Inducts .indEither t m b s v ∧ Inducts .indEither u m' b' s' v' ∧ ElEq D v v' := by
  have hL := TyEq.eitherLeft hl hr hm
  have hR := TyEq.eitherRight hr hl hm
  obtain ⟨v, v', D₀, _, hv, hv', _, h₂, hvv⟩ := Interpretation.indEither (I := .exact) (w := ())
    ht.exact hm.exact ⟨hL, hb.conv hL.symm⟩ ⟨hR, hs.conv hR.symm⟩
  cases hD.unique h₂
  exact ⟨v, v', hv, hv', hvv.2.conv hvv.1⟩

theorem indVecs {k' : Value} (hk : ElEq .nat k k') (ht : ElEq (.vec E k') t u)
    (hE : TyEq .large E E) (hm : ElEq (.vecMotive E) m m') (hZ : CallsBoth m' .zero .vecNil Z)
    (hb : ElEq Z b b') (hs : ElEq (.indVecStep E m') s s') (hD : CallsBoth m' k' u D) :
    ∃ v v', IndVecs k t m b s v ∧ IndVecs k' u m' b' s' v' ∧ ElEq D v v' := by
  obtain ⟨Z₀, _, hZ₀, h₁, hZZ⟩ := hm.vecMotive .zero (Frame.exact.lawful.vecNil (w := ()) hE).2
  cases hZ.unique h₁
  have hS := TyEq.indVecStep hE hm
  have hV : TyEq .large (.vec E k) (.vec E k') := .vec (forces_self rfl) (forces_self rfl) hE hk
  obtain ⟨v, v', D₀, _, hv, hv', _, h₂, hvv⟩ := Interpretation.indVec (I := .exact) (w := ())
    hk.exact ⟨hV, ht.conv hV.symm⟩ hm.exact hZ₀ hZ ⟨hZZ.lift, hb.conv hZZ.lift.symm⟩
    ⟨hS, hs.conv hS.symm⟩
  cases hD.unique h₂
  exact ⟨v, v', hv, hv', hvv.2.conv hvv.1⟩

theorem indAbsurds (ht : ElEq .absurd t u) (hm : TyEq .small m m') :
    ∃ v v', IndAbsurds t m v ∧ IndAbsurds u m' v' ∧ ElEq m' v v' := by
  obtain ⟨v, v', hv, hv', hvv⟩ := Interpretation.indAbsurd (I := .exact) (w := ()) ht.exact hm
  exact ⟨v, v', hv, hv', hvv.2.conv hvv.1⟩

theorem replaces (ht : ElEq (.equal K a c) t u) (ha : ElEq K a a)
    (hm : ElEq (.simpleMotive K) m m') (hZ : Calls m' a Z) (hb : ElEq Z b b')
    (hD : Calls m' c D) :
    ∃ v v', Transports .replace t m b v ∧ Transports .replace u m' b' v' ∧ ElEq D v v' := by
  obtain ⟨Z₀, _, hZ₀, h₁, hZZ⟩ := hm.motive ha
  cases hZ.unique h₁
  obtain ⟨v, v', D₀, _, hv, hv', _, h₂, hvv⟩ := Interpretation.replace (I := .exact) (w := ())
    ht.exact hm.exact hZ₀ hZ ⟨hZZ.lift, hb.conv hZZ.lift.symm⟩
  cases hD.unique h₂
  exact ⟨v, v', hv, hv', hvv.2.conv hvv.1⟩

theorem inductsEqual (ht : ElEq (.equal K a c) t u) (ha : ElEq K a a)
    (hm : ElEq (.equalMotive K a) m m') (hZ : CallsBoth m' a (.same a) Z) (hb : ElEq Z b b')
    (hD : CallsBoth m' c u D) :
    ∃ v v', Transports .indEqual t m b v ∧ Transports .indEqual u m' b' v' ∧ ElEq D v v' := by
  obtain ⟨Z₀, _, hZ₀, h₁, hZZ⟩ := hm.equalMotive ha ha.same
  cases hZ.unique h₁
  obtain ⟨v, v', D₀, _, hv, hv', _, h₂, hvv⟩ := Interpretation.indEqual (I := .exact) (w := ())
    ht.exact hm.exact hZ₀ hZ ⟨hZZ.lift, hb.conv hZZ.lift.symm⟩
  cases hD.unique h₂
  exact ⟨v, v', hv, hv', hvv.2.conv hvv.1⟩

theorem transes {K₁ b₁ l' r' : Value} (hl : ElEq (.equal K a b) l l')
    (hr : ElEq (.equal K₁ b₁ c) r r') (hK : TyEq .large K K₁) (hb : ElEq K b b₁) :
    ∃ v v', Transes l r v ∧ Transes l' r' v' ∧ ElEq (.equal K a c) v v' := by
  obtain ⟨v, v', hv, hv', hvv⟩ := Interpretation.trans (I := .exact) (w := ()) hl.exact hr.exact hK hK
    hb hb
  exact ⟨v, v', hv, hv', hvv.2⟩

theorem congs {F F' d f f' v v' : Value} {x : Name} {q : Closure}
    (ht : ElEq (.equal K a c) t u) (hFF : TyEq .large F F') (hf : ElEq F' f f')
    (hF : Forces F' (.pi x d q)) (hd : TyEq .large d K) (hD : Applies q a D)
    (hq : ∀ {b B}, ElEq d b b → Applies q b B → TyEq .large B D) (hv : Calls f' a v)
    (hv' : Calls f' c v') :
    ∃ r r', Congs t (some F) f r ∧ Congs u (some F') f' r' ∧ ElEq (.equal D v v') r r' := by
  obtain ⟨x₁, d₁, q₁, hF₁, hdd, hr⟩ := hFF.symm.quant_inv hF
  obtain ⟨_, _, _, h₁, _, ha, _⟩ := ht.type.equal_inv (forces_self rfl)
  cases h₁.unique (forces_self rfl)
  obtain ⟨_, D₁, h₂, hD₁, hDD₁⟩ := hr a a (ha.conv hd.symm)
  cases hD.unique h₂
  have hq₁ : ∀ {b B}, ElEq d₁ b b → Applies q₁ b B → TyEq .large B D₁ := by
    intro b B hb hB
    obtain ⟨B', _, hB', h₃, hBB⟩ := hr b b (hb.conv hdd.symm)
    cases hB.unique h₃
    exact (hBB.symm.trans (hq (hb.conv hdd.symm) hB')).trans hDD₁
  obtain ⟨r, r', v₁, v₂, v₁', v₂', hr, hr', hv₁, hv₂, hv₁', hv₂', hrr⟩ :=
    Interpretation.cong (I := .exact) (w := ()) ht.exact ⟨hFF, hf.conv hFF.symm⟩ hF₁ hF
      (hdd.symm.trans hd) hd hD₁ hD hq₁ hq
  cases hv.unique hv₁'
  cases hv'.unique hv₂'
  exact ⟨r, r', hr, hr', hrr.2.conv hrr.1⟩

end ElEq

/-! ## Stuck eliminators -/

theorem Replacement.Meets.later {σ : Style} {w : Replacement σ} {n : Expr} {C u : Value}
    (h : w.Meets n (.value C u)) : ∃ l, Laters w.env n l ∧ ElEq C l u := by
  obtain ⟨t, ht, htu⟩ := h.holds
  exact Laters.of_equal ht htu

namespace Frame.glued

open Replacement

variable {σ : Style} {w w' : Replacement σ}

theorem argument {A A' C v u : Value} {n : Expr} (hσ : σ.Fresh) (h : (glued σ).el w A C v u)
    (hA : TyEq .large A A') (hw : w.Le w') (hn : Reads σ w'.names (.value A' v) n)
    (ha : n.Avoids w'.hidden) : w'.Meets n (.value C u) :=
  element_gives hσ (general.el_mono h hw) hA n hn ha

theorem annotated {B B' b b' : Value} {nB nb : Expr} (hσ : σ.Fresh) (hB : (glued σ).ty .large w B B')
    (hb : (glued σ).el w B B' b b') (hw : w.Le w') (hnB : Reads σ w'.names (.type B) nB)
    (hnb : Reads σ w'.names (.value B b) nb) (ha : (σ.annotate nB nb).Avoids w'.hidden) :
    ∃ e, σ.annotate nB nb = .the nB e ∧ w'.Meets nB (.type .large B') ∧ w'.Meets e (.value B' b') := by
  obtain ⟨haB, hab⟩ := Expr.avoids_the.1 ha
  have type := type_gives hσ (general.ty_mono hB hw) nB hnB haB
  refine ⟨_, rfl, type, ?_⟩
  have gives := argument hσ hb hB.1 hw hnb
  by_cases h : nB = .absurd
  · simp only [h, if_true] at hab ⊢
    subst h
    obtain ⟨t, ht, htB⟩ := type.holds
    cases ht.symm.trans (Evals.const .absurd)
    have hb' := (general.el_right hb).conv htB.symm
    exact w'.meets_element _ (fun v hv => (ElEq.of_absurd hv hb').conv htB) gives hab
  · simp only [h, if_false] at hab ⊢
    exact gives hab

/-- A range at a variable, read back without the variable, gives the range at every argument. -/
theorem hidden_range {a d d' B D : Value} {q q' : Closure} {y : Name} {n : Expr} (hσ : σ.Fresh)
    (hd : (glued σ).ty .large (w.hide y) d d')
    (hr : ∀ {a b}, (glued σ).el (w.hide y) d d' a b → ∃ B B', Applies q a B ∧ Applies q' b B' ∧
      (glued σ).ty .large (w.hide y) B B')
    (ha : ElEq d' a a) (hB : Applies q (.ofVar y d) B) (hD : Applies q' a D)
    (hn : Reads σ (y :: w.names) (.type B) n) (avoids : n.Avoids (y :: w.hidden)) :
    (w.hide y).Meets n (.type .large D) := by
  have arg := (elements hσ).reflect hd hd.1 (stands_hide ha)
  obtain ⟨B', D', hB', hD', hBD⟩ := hr arg
  cases hB.unique hB'
  cases hD.unique hD'
  exact type_gives hσ hBD n hn avoids

/-- A function type read back with a range that does not mention the variable shows the range at every
argument. -/
theorem simpleRange_holds {C a d d' D : Value} {x x' : Name} {q q' : Closure} {t n : Expr}
    (hσ : σ.Fresh) (h : (glued σ).ty .large w (.pi x d q) C) (hC : Forces C (.pi x' d' q'))
    (ha : ElEq d' a a) (hD : Applies q' a D) (ht : Reads σ w.names (.type (.pi x d q)) t)
    (avoids : t.Avoids w.hidden) (hn : t.simpleRange? = some n) :
    ∃ D', Evals w.env n D' ∧ TyEq .large D' D := by
  obtain ⟨y, B, nd, b, rfl, hy, hB, reads⟩ := ht.pi_inv
  simp only [Expr.simpleRange?, Option.ite_none_right_eq_some, Option.some.injEq] at hn
  obtain ⟨free, rfl⟩ := hn
  have hy' : y ∉ w.hidden := fun h => hσ w.names x (hy ▸ w.used y h)
  have avoids : b.Avoids (y :: w.hidden) := by
    intro z hz
    rcases List.mem_cons.1 hz with rfl | hz
    · exact free
    · exact ((Expr.avoids_quant hy').1 avoids).2 z hz
  obtain ⟨_, _, _, hC', hd, hr⟩ :=
    formers.quant_inv (general.ty_mono h (le_hide w y)) (forces_self rfl)
  cases hC.unique hC'
  exact (hidden_range hσ hd (hr (.refl _)) ha hB hD reads avoids).holds

section Eliminators

variable {C D u : Value} {e : Neutral} (hσ : σ.Fresh) (h : w.Stands C e u)

include h

theorem proj {p : Projection} (hp : ∀ {t}, ElEq C t u → ∃ v v',
      Eval.project answer p t = .ok v ∧ Eval.project answer p u = .ok v' ∧ ElEq D v v')
    (hj : ∀ {P Γ n v}, (Role.neutral C u).Fits P Γ n → (Role.neutral D v).Fits P Γ (.proj p n)) :
    ∃ r, Eval.project answer p u = .ok r ∧ w.Stands D (.proj p e) r := by
  obtain ⟨_, r, _, hr, hrr⟩ := hp h.good
  refine ⟨r, hr, h.reads.proj p, hrr.refl_right, fun hw n hn ha => ?_⟩
  cases hn with
  | proj _ hn =>
      obtain ⟨⟨t, ht, htu⟩, fits⟩ := h.gives hw _ hn ha
      obtain ⟨v, _, hv, hv', hvv⟩ := hp htu
      cases hv'.symm.trans hr
      exact ⟨⟨v, .proj ht hv, hvv⟩, fun Γ hΓ => hj (fits Γ hΓ)⟩

include hσ

theorem fold {f : Fold} {B B' b b' S S₁ S' s s' : Value} (hB : (glued σ).ty .large w B B')
    (hb : (glued σ).el w B B' b b') (hs : (glued σ).el w S S' s s') (hS : TyEq .large S S₁)
    (hf : ∀ {t B b s}, ElEq C t u → TyEq .large B B' → ElEq B' b b' → ElEq S' s s' → ∃ v v',
      Folds f t (some B) b s v ∧ Folds f u (some B') b' s' v' ∧ ElEq B' v v')
    (hj : ∀ {P Γ nt n nb ns v}, (Role.neutral C u).Fits P Γ nt → (Role.type .large B').Met P Γ n →
      (Role.value B' b').Fits P Γ nb → (Role.value S' s').Fits P Γ ns →
      (Role.neutral B' v).Fits P Γ (.fold f nt (.the n nb) ns)) :
    ∃ r, Folds f u (some B') b' s' r ∧ w.Stands B' (.fold f e (.mk B b) (.mk S₁ s)) r := by
  obtain ⟨_, r, _, hr, hrr⟩ := hf h.good hB.2.1 (general.el_right hb) (general.el_right hs)
  refine ⟨r, hr, h.reads.fold f hB.1 (general.el_left hb) hS.refl_right
    ((general.el_left hs).conv hS), hrr.refl_right, fun hw n hn ha => ?_⟩
  cases hn with
  | fold _ ht hnB hnb hns =>
      obtain ⟨hat, hab, has⟩ := Expr.avoids_fold.1 ha
      obtain ⟨⟨t, ht, htu⟩, fits⟩ := h.gives hw _ ht hat
      obtain ⟨eb, heq, mB, mb⟩ := annotated hσ hB hb hw hnB hnb hab
      have ms := argument hσ hs hS hw hns has
      obtain ⟨tB, htB, hBB⟩ := mB.holds
      obtain ⟨lb, hlb, hbb⟩ := mb.later
      obtain ⟨ls, hls, hss⟩ := ms.later
      obtain ⟨v, _, hv, hv', hvv⟩ := hf htu hBB hbb hss
      cases hv'.symm.trans hr
      rw [heq]
      exact ⟨⟨v, .fold htB hlb ht hls hv, hvv⟩,
        fun Γ hΓ => hj (fits Γ hΓ) (mB.met hΓ) (mb.fits Γ hΓ) (ms.fits Γ hΓ)⟩

theorem induct {i : Induction} {M M₁ M' m m' Z Z₁ Z' b b' S S₁ S' s s' : Value}
    (hm : (glued σ).el w M M' m m') (hM : TyEq .large M M₁) (hb : (glued σ).el w Z Z' b b')
    (hZ : TyEq .large Z Z₁) (hs : (glued σ).el w S S' s s') (hS : TyEq .large S S₁)
    (hi : ∀ {t m b s}, ElEq C t u → ElEq M' m m' → ElEq Z' b b' → ElEq S' s s' → ∃ v v',
      Inducts i t m b s v ∧ Inducts i u m' b' s' v' ∧ ElEq D v v')
    (hj : ∀ {P Γ nt nm nb ns v}, (Role.neutral C u).Met P Γ nt → (Role.value M' m').Met P Γ nm →
      (Role.value Z' b').Fits P Γ nb → (Role.value S' s').Fits P Γ ns →
      (Role.neutral D v).Fits P Γ (.induct i nt nm nb ns)) :
    ∃ r, Inducts i u m' b' s' r ∧
      w.Stands D (.induct i e (.mk M₁ m) (.mk Z₁ b) (.mk S₁ s)) r := by
  obtain ⟨_, r, _, hr, hrr⟩ := hi h.good (general.el_right hm) (general.el_right hb)
    (general.el_right hs)
  refine ⟨r, hr, h.reads.induct i hM.refl_right ((general.el_left hm).conv hM) hZ.refl_right
    ((general.el_left hb).conv hZ) hS.refl_right ((general.el_left hs).conv hS), hrr.refl_right,
    fun hw n hn ha => ?_⟩
  cases hn with
  | induct _ ht hnm hnb hns =>
      obtain ⟨hat, ham, hab, has⟩ := Expr.avoids_induct.1 ha
      have mt := h.gives hw _ ht hat
      have mm := argument hσ hm hM hw hnm ham
      have mb := argument hσ hb hZ hw hnb hab
      have ms := argument hσ hs hS hw hns has
      obtain ⟨t, ht, htu⟩ := mt.holds
      obtain ⟨lm, hlm, hmm⟩ := mm.later
      obtain ⟨lb, hlb, hbb⟩ := mb.later
      obtain ⟨ls, hls, hss⟩ := ms.later
      obtain ⟨v, _, hv, hv', hvv⟩ := hi htu hmm hbb hss
      cases hv'.symm.trans hr
      exact ⟨⟨v, .induct ht hlm hlb hls hv, hvv⟩,
        fun Γ hΓ => hj (mt.met hΓ) (mm.met hΓ) (mb.fits Γ hΓ) (ms.fits Γ hΓ)⟩

theorem transport {k : Transport} {M M₁ M' m m' Z Z₁ Z' b b' : Value}
    (hm : (glued σ).el w M M' m m') (hM : TyEq .large M M₁) (hb : (glued σ).el w Z Z' b b')
    (hZ : TyEq .large Z Z₁) (hk : ∀ {t m b}, ElEq C t u → ElEq M' m m' → ElEq Z' b b' → ∃ v v',
      Transports k t m b v ∧ Transports k u m' b' v' ∧ ElEq D v v')
    (hj : ∀ {P Γ nt nm nb v}, (Role.neutral C u).Met P Γ nt → (Role.value M' m').Met P Γ nm →
      (Role.value Z' b').Fits P Γ nb → (Role.neutral D v).Fits P Γ (.transport k nt nm nb)) :
    ∃ r, Transports k u m' b' r ∧ w.Stands D (.transport k e (.mk M₁ m) (.mk Z₁ b)) r := by
  obtain ⟨_, r, _, hr, hrr⟩ := hk h.good (general.el_right hm) (general.el_right hb)
  refine ⟨r, hr, h.reads.transport k hM.refl_right ((general.el_left hm).conv hM) hZ.refl_right
    ((general.el_left hb).conv hZ), hrr.refl_right, fun hw n hn ha => ?_⟩
  cases hn with
  | transport _ ht hnm hnb =>
      obtain ⟨hat, ham, hab⟩ := Expr.avoids_transport.1 ha
      have mt := h.gives hw _ ht hat
      have mm := argument hσ hm hM hw hnm ham
      have mb := argument hσ hb hZ hw hnb hab
      obtain ⟨t, ht, htu⟩ := mt.holds
      obtain ⟨lm, hlm, hmm⟩ := mm.later
      obtain ⟨lb, hlb, hbb⟩ := mb.later
      obtain ⟨v, _, hv, hv', hvv⟩ := hk htu hmm hbb
      cases hv'.symm.trans hr
      exact ⟨⟨v, .transport ht hlm hlb hv, hvv⟩,
        fun Γ hΓ => hj (mt.met hΓ) (mm.met hΓ) (mb.fits Γ hΓ)⟩

theorem indVec {E E₁ E' k k' m m' Z Z' b b' s s' : Value} (hC : Forces C (.vec E' k'))
    (hE : TyEq .large E E₁) (hk : (glued σ).el w .nat .nat k k')
    (hm : (glued σ).el w (.vecMotive E) (.vecMotive E') m m') (hD : CallsBoth m' k' u D)
    (hZ' : CallsBoth m' .zero .vecNil Z') (hb : (glued σ).el w Z Z' b b')
    (hs : (glued σ).el w (.indVecStep E m) (.indVecStep E' m') s s') :
    ∃ r, IndVecs k' u m' b' s' r ∧ w.Stands D
      (.indVec (.mk .nat k) e (.mk (.vecMotive E₁) m) (.mk Z b) (.mk (.indVecStep E₁ m) s)) r := by
  obtain ⟨_, _, h₁, hE', _⟩ := h.good.type.vec_inv hC
  cases h₁.unique hC
  have h := h.conv (h.good.type.form_right hC.coincides)
  have hM : TyEq .large (.vecMotive E) (.vecMotive E₁) := .vecMotive hE
  have hS : TyEq .large (.indVecStep E m) (.indVecStep E₁ m) :=
    .indVecStep hE (general.el_left hm)
  have hZ := (general.el_left hb).type
  have hi : ∀ {k t m b s}, ElEq .nat k k' → ElEq (.vec E' k') t u → ElEq (.vecMotive E') m m' →
      ElEq Z' b b' → ElEq (.indVecStep E' m') s s' → ∃ v v', IndVecs k t m b s v ∧
        IndVecs k' u m' b' s' v' ∧ ElEq D v v' := fun hk ht hm hb hs =>
    ElEq.indVecs hk ht hE' hm hZ' hb hs hD
  obtain ⟨_, r, _, hr, hrr⟩ := hi (general.el_right hk) h.good (general.el_right hm)
    (general.el_right hb) (general.el_right hs)
  refine ⟨r, hr, .indVec (general.el_left hk) h.reads hM.refl_right ((general.el_left hm).conv hM) hZ
    (general.el_left hb) hS.refl_right ((general.el_left hs).conv hS), hrr.refl_right,
    fun hw n hn ha => ?_⟩
  cases hn with
  | indVec hnk ht hnm hnb hns =>
      obtain ⟨hak, hat, ham, hab, has⟩ := Expr.avoids_indVec.1 ha
      have mk := argument hσ hk .nat hw hnk hak
      have mt := h.gives hw _ ht hat
      have mm := argument hσ hm hM hw hnm ham
      have mb := argument hσ hb hZ hw hnb hab
      have ms := argument hσ hs hS hw hns has
      obtain ⟨lk, hlk, hkk⟩ := mk.later
      obtain ⟨t, ht, htu⟩ := mt.holds
      obtain ⟨lm, hlm, hmm⟩ := mm.later
      obtain ⟨lb, hlb, hbb⟩ := mb.later
      obtain ⟨ls, hls, hss⟩ := ms.later
      obtain ⟨v, _, hv, hv', hvv⟩ := hi hkk htu hmm hbb hss
      cases hv'.symm.trans hr
      exact ⟨⟨v, .indVec hlk ht hlm hlb hls hv, hvv⟩, fun Γ hΓ => .indVec (mk.met hΓ) (mt.met hΓ)
        (forces_self rfl) (mm.met hΓ) hD hZ' (mb.fits Γ hΓ) (ms.fits Γ hΓ)⟩

theorem cong {K a c F F' d d' f f' v v' : Value} {x x' : Name} {q q' : Closure}
    (hC : Forces C (.equal K a c)) (hf : (glued σ).el w F F' f f') (hF : Forces F (.pi x d q))
    (hF' : Forces F' (.pi x' d' q')) (hd : TyEq .large d' K) (hD : Applies q' a D)
    (hq : ∀ {b B}, ElEq d' b b → Applies q' b B → TyEq .large B D) (hv : Calls f' a v)
    (hv' : Calls f' c v') : ∃ r, Congs u (some F') f' r ∧
      w.Stands (.equal D v v') (.cong e (.mk (.pi x d q) f)) r := by
  have h := h.conv (h.good.type.form_right hC.coincides)
  obtain ⟨_, _, _, hE, _, haa, _⟩ := h.good.type.equal_inv (forces_self rfl)
  cases hE.unique (forces_self rfl)
  have hFF := general.el_ty hf
  have hFp : TyEq .large F (.pi x d q) := hFF.1.form_right hF.coincides
  have hP := general.ty_form hFF hF.coincides (.refl F')
  have hf₁ := general.conv hf hFp hFF.2.1 hP
  have hi : ∀ {t F f}, ElEq (.equal K a c) t u → TyEq .large F F' → ElEq F' f f' → ∃ r r',
      Congs t (some F) f r ∧ Congs u (some F') f' r' ∧ ElEq (.equal D v v') r r' :=
    fun ht hF hf => ElEq.congs ht hF hf hF' hd hD hq hv hv'
  obtain ⟨_, r, _, hr, hrr⟩ := hi h.good hFF.2.1 (general.el_right hf)
  refine ⟨r, hr, h.reads.cong hP.1 (general.el_left hf₁), hrr.refl_right, fun {w'} hw n hn ha => ?_⟩
  cases hn with
  | cong ht hnF hnf =>
      obtain ⟨hat, haf⟩ := Expr.avoids_cong.1 ha
      obtain ⟨⟨t, ht, htu⟩, fits⟩ := h.gives hw _ ht hat
      obtain ⟨ef, heq, mF, mf⟩ := annotated hσ hP hf₁ hw hnF hnf haf
      have range := fun n => simpleRange_holds (n := n) hσ (general.ty_mono hP hw) hF'
        (haa.conv hd.symm) hD hnF (Expr.avoids_the.1 haf).1
      obtain ⟨tF, htF, hFF⟩ := mF.holds
      obtain ⟨lf, hlf, hff⟩ := mf.later
      obtain ⟨s, _, hs, hs', hss⟩ := hi htu hFF hff
      cases hs'.symm.trans hr
      rw [heq]
      refine ⟨⟨s, .cong htF hlf ht hs, hss⟩, fun Γ hΓ => ?_⟩
      exact .cong (fits Γ hΓ) (forces_self rfl) (mF.met hΓ) (mf.met hΓ) hF' hd hD hq
        ((w'.within Γ hΓ).2.1 ▸ range) hv hv'

end Eliminators

theorem indAbsurd {A C T v u m m' : Value} {e : Neutral} (hσ : σ.Fresh)
    (h : (glued σ).el w A C v u) (hA : Forces A .absurd) (hC : Forces C .absurd)
    (hv : Forces v (.neutral T e)) (hm : (glued σ).ty .small w m m') :
    ∃ r, IndAbsurds u m' r ∧ w.Stands m' (.indAbsurd e (.mk .univ m)) r := by
  have hG : Glued (Size.large.glued σ) w A C fun w => w.Held .absurd .absurd := .const hA hC .absurd
  obtain ⟨_, _, T', n, hv', _, h⟩ := (el_iff hG).1 h
  cases hv.unique hv'
  obtain ⟨_, r, _, hr, hrr⟩ := ElEq.indAbsurds h.good hm.2.1
  refine ⟨r, hr, .indAbsurd h.reads h.reads hm.1, hrr.refl_right, fun {w'} hw n hn ha => ?_⟩
  cases hn with
  | indAbsurd ht hnm =>
      obtain ⟨hat, ham⟩ := Expr.avoids_indAbsurd.1 ha
      obtain ⟨⟨t, ht, htu⟩, fits⟩ := w'.meets_element (.neutral .absurd u)
        (fun _ hv => ElEq.of_absurd hv h.good) (h.gives hw _ ht) (Expr.avoids_the.1 hat).2
      have mm := type_gives hσ (general.ty_mono hm hw) _ hnm ham
      obtain ⟨tm, htm, hmm⟩ := mm.holds
      obtain ⟨v, _, hv, hv', hvv⟩ := ElEq.indAbsurds htu hmm
      cases hv'.symm.trans hr
      exact ⟨⟨v, .indAbsurd (.the _ ht) htm hv, hvv⟩,
        fun Γ hΓ => (fits Γ hΓ).indAbsurd (mm.met hΓ)⟩

/-- A proof of equality reads back as a neutral form or by `same`, as it is stuck or not. -/
theorem proof_meets {A C L K K' a a' b b' p p' : Value} {n : Expr} (hσ : σ.Fresh)
    (hA : Forces A (.equal K a b)) (hC : Forces C (.equal K' a' b')) (h : (glued σ).el w A C p p')
    (hL : TyEq .large A L) (hw : w.Le w') (hn : Reads σ w'.names (.value L p) n)
    (ha : n.Avoids w'.hidden) :
    w'.Meets n (.neutral (.equal K' a' b') p') ∨ (∃ v, Forces p (.same v)) ∧ ∃ m c, n = .same m ∧
      w'.Meets m (.value K' c) ∧ ElEq K' a' c ∧ ElEq K' c b' := by
  obtain ⟨K₁, a₁, b₁, hL₁, hK, _, _⟩ := hL.equal_inv hA
  have hCE := (general.el_ty h).2.1.form_right hC.coincides
  cases hn with
  | value hL' hn =>
      cases hL₁.unique hL'
      cases hn with
      | byForm _ hp hn =>
          cases ((elements hσ).equal (general.el_ty h) hA hC).1 h with
          | same hp' _ hc =>
              cases hp.unique hp'
              cases hn with
              | same hn =>
                  obtain ⟨hc, _, h₁, h₂⟩ := hc
                  exact .inr ⟨⟨_, hp'⟩, _, _, rfl, argument hσ hc hK hw hn ha, h₁, h₂⟩
          | stuck hs =>
              obtain ⟨T, e, hp', _, hs⟩ := hs
              cases hp.unique hp'
              cases hn with
              | stuck hn => exact .inl ((Stands.conv hs hCE).gives hw n hn ha)

theorem trans {A C A₁ C₁ L R K a b K' a' b' K₁ b₁ c K₁' b₁' c' l l' r r' : Value} (hσ : σ.Fresh)
    (hA : Forces A (.equal K a b)) (hC : Forces C (.equal K' a' b'))
    (hA₁ : Forces A₁ (.equal K₁ b₁ c)) (hC₁ : Forces C₁ (.equal K₁' b₁' c'))
    (hK : TyEq .large K' K₁') (hb : ElEq K' b' b₁') (hl : (glued σ).el w A C l l')
    (hr : (glued σ).el w A₁ C₁ r r') (hL : TyEq .large A L) (hR : TyEq .large A₁ R)
    (hn : (∃ T n, Forces l (.neutral T n)) ∨ ∃ T n, Forces r (.neutral T n)) :
    ∃ v, Transes l' r' v ∧ w.Stands (.equal K' a' c') (.trans (.mk L l) (.mk R r)) v := by
  have at_form : ∀ {C D t u}, Forces C D → ElEq C t u → ElEq D t u := fun hC h =>
    h.conv (h.type.form_right hC.coincides)
  obtain ⟨_, v, _, hv, hvv⟩ := (at_form hC (general.el_right hl)).transes
    (at_form hC₁ (general.el_right hr)) hK hb
  refine ⟨v, hv, .trans' hL.refl_right ((general.el_left hl).conv hL) hR.refl_right
    ((general.el_left hr).conv hR), hvv.refl_right, fun {w'} hw n hnt ha => ?_⟩
  cases hnt with
  | trans hnl hnr =>
      obtain ⟨hal, har⟩ := Expr.avoids_trans.1 ha
      obtain ⟨tl, htl, hll⟩ := (argument hσ hl hL hw hnl hal).holds
      obtain ⟨tr, htr, hrr⟩ := (argument hσ hr hR hw hnr har).holds
      obtain ⟨s, _, hs, hs', hss⟩ := (at_form hC hll).transes (at_form hC₁ hrr) hK hb
      cases hs'.symm.trans hv
      refine ⟨⟨s, .trans htl htr hs, hss⟩, fun Γ hΓ => ?_⟩
      -- Two proofs by `same` would not be stuck.
      rcases proof_meets hσ hA hC hl hL hw hnl hal with ml | ⟨⟨p, hp⟩, ml, d, rfl, md, h₁, h₂⟩
      · rcases proof_meets hσ hA₁ hC₁ hr hR hw hnr har with mr | ⟨_, mr, d, rfl, md, h₁, h₂⟩
        · exact .trans (ml.fits Γ hΓ) (mr.fits Γ hΓ) hK hb
        · exact .transSame (ml.fits Γ hΓ) (md.met hΓ) h₁ h₂ hK hb
      · rcases proof_meets hσ hA₁ hC₁ hr hR hw hnr har with mr | ⟨⟨q, hq⟩, _⟩
        · exact .sameTrans (md.met hΓ) h₁ h₂ (mr.fits Γ hΓ) hK hb
        · rcases hn with ⟨T, n, hn⟩ | ⟨T, n, hn⟩
          · cases hp.unique hn
          · cases hq.unique hn

theorem neutrals (hσ : σ.Fresh) : (glued σ).Neutrals where
  head h hC hk := proj (p := .head) h (fun ht => ht.heads hC hk) fun ht => ht.head hC hk
  tail h hC hk := proj (p := .tail) h (fun ht => ht.tails hC hk) fun ht => ht.tail hC hk
  symm h hC := proj (p := .symm) h (fun ht => ht.symms hC) fun ht => ht.symm hC
  natFold := by
    intro w C n u f S B B' b b' s s' hf h hC hB hb hs
    have hCN : TyEq .large C .nat := .const rfl hC (forces_self rfl)
    exact fold hσ h hB hb hs (.natFoldStep hf hB.1)
      (fun ht hB hb hs => ElEq.folds hf (ht.conv hCN) hB hb hs)
      fun ht hB hb hs => .natFold hf ht hC hB hb hs
  recList := by
    intro w C n u E E₁ E' B B' b b' s s' h hC hE hB hb hs
    have hCC := Stands.good h |>.type
    obtain ⟨_, h₁, hE'⟩ := hCC.list_inv hC
    cases h₁.unique hC
    exact fold hσ h hB hb hs (.recListStep hE hB.1)
      (fun ht hB hb hs => ElEq.foldsList (ht.conv (hCC.form_right hC.coincides)) hE' hB hb hs)
      fun ht hB hb hs => .recList ht hC hB hb hs
  indNat := by
    intro w C n u m m' D Z Z' b b' s s' h hC hm hD hZ hZ' hb hs
    have hCN : TyEq .large C .nat := .const rfl hC (forces_self rfl)
    exact induct hσ h hm (general.el_left hm).type hb (general.el_left hb).type hs
      (general.el_left hs).type
      (fun ht hm hb hs => ElEq.inductsNat (ht.conv hCN) hm hZ' hb hs hD)
      fun ht hm hb hs => .indNat ht hC hm hD hZ' hb hs
  indList := by
    intro w C n u E E₁ E' m m' D Z Z' b b' s s' h hC hE hm hD hZ hZ' hb hs
    have hCC := Stands.good h |>.type
    obtain ⟨_, h₁, hE'⟩ := hCC.list_inv hC
    cases h₁.unique hC
    exact induct hσ h hm (.listMotive hE) hb (general.el_left hb).type hs
      (.indListStep hE (general.el_left hm))
      (fun ht hm hb hs =>
        ElEq.inductsList (ht.conv (hCC.form_right hC.coincides)) hE' hm hZ' hb hs hD)
      fun ht hm hb hs => .indList ht hC hm hD hZ' hb hs
  indEither := by
    intro w C n u l l₁ l' r r₁ r' m m' D b b' s s' h hC hl hr hm hD hb hs
    have hCC := Stands.good h |>.type
    obtain ⟨_, _, h₁, hl', hr'⟩ := hCC.either_inv hC
    cases h₁.unique hC
    have hm₁ := general.el_left hm
    exact induct hσ h hm (.simpleMotive (.either (forces_self rfl) (forces_self rfl) hl hr)) hb
      (.eitherLeft hl hr.refl_left hm₁) hs (.eitherRight hr hl.refl_left hm₁)
      (fun ht hm hb hs =>
        ElEq.inductsEither (ht.conv (hCC.form_right hC.coincides)) hl' hr' hm hb hs hD)
      fun ht hm hb hs => .indEither ht hC hm hD hb hs
  indVec h hC hE hk hm hD _ hZ' hb hs := indVec hσ h hC hE hk hm hD hZ' hb hs
  indAbsurd h hA hC hv hm := indAbsurd hσ h hA hC hv hm
  replace := by
    intro w C n u K K₁ K' a a' c' m m' D Z Z₁ Z' b b' h hC hK hm hD hZ hZ' hZ₁ hb
    have hCC := Stands.good h |>.type
    obtain ⟨_, _, _, h₁, _, ha, _⟩ := hCC.equal_inv hC
    cases h₁.unique hC
    exact transport hσ h hm (.simpleMotive hK) hb hZ₁
      (fun ht hm hb => ElEq.replaces (ht.conv (hCC.form_right hC.coincides)) ha hm hZ' hb hD)
      fun ht hm hb => .replace ht.fits hC hm hD hZ' hb
  indEqual := by
    intro w C n u K K₁ K' a a₁ a' c' m m' D Z Z₁ Z' b b' h hC hK ha hm hD hZ hZ' hZ₁ hb
    have hCC := Stands.good h |>.type
    obtain ⟨_, _, _, h₁, _, ha', _⟩ := hCC.equal_inv hC
    cases h₁.unique hC
    exact transport hσ h hm (.equalMotive hK ha) hb hZ₁
      (fun ht hm hb => ElEq.inductsEqual (ht.conv (hCC.form_right hC.coincides)) ha' hm hZ' hb hD)
      fun ht hm hb => .indEqual ht hC hm hD hZ' hb
  trans hA hC hA₁ hC₁ hK hb hl hr hL hR hn := trans hσ hA hC hA₁ hC₁ hK hb hl hr hL hR hn
  cong h hC hf hF hF' hd hD hq hv hv' := cong hσ h hC hf hF hF' hd hD hq hv hv'

end Frame.glued

/-- Instances are an interpretation. -/
def Interpretation.glued (σ : Style) (hσ : σ.Fresh) : Interpretation where
  toFrame := Frame.glued σ
  lawful := Frame.glued.lawful hσ
  neutrals := Frame.glued.neutrals hσ

end TypeKernel
