/-
# TypeKernel.Proofs.NeutralRoles — neutral forms under the typing rules

A neutral form evaluates to a stuck value, and the arguments that its value holds are the values of the
arguments of the form. So it is stable if they are, and the rules find a type for it that is equal to the
one at which it is stuck.
-/
import TypeKernel.Proofs.Roles

namespace TypeKernel

set_option autoImplicit false

namespace Role.Fits

variable {P : Discipline} {Γ : Context} {p : Prop} {n nt na nb nm ns : Expr}
  {A B C D E K T Z a b c d k l m r s t u v : Value}

theorem var {x : Name} (hx : Γ.lookup x = some (.free T)) (hC : TyEq .large T C) :
    (Role.neutral C u).Fits p Γ (.var x) where
  accepted {P} _ := by
    refine ⟨T, hC, fun r hr => ?_⟩
    have := Judged.var (P := P) (r := r) ((congrArg Γ.lookup (hr x)).trans hx) rfl
    rwa [hr x] at this
  stable _ := ⟨_, T, .var x, .var (Context.get?_env_of_free hx), (forces_self rfl), hC.symm, .var x⟩

theorem app {x : Name} {q : Closure} (hf : (Role.neutral C u).Fits p Γ n)
    (hC : Forces C (.pi x d q)) (ha : (Role.value d a).Met p Γ na) (hB : Applies q a B) :
    (Role.neutral B v).Fits p Γ (.app n na) where
  accepted hP := by
    obtain ⟨T, hT, hf⟩ := hf.accepted hP
    obtain ⟨z, d', q', hT, hd, hq⟩ := hT.symm.quant_inv hC
    obtain ⟨t, ht, hta⟩ := ha.holds
    obtain ⟨_, B', h₁, hB', hBB⟩ := hq _ _ hta.symm
    cases hB.unique h₁
    exact ⟨B', hBB.symm, fun r hr => .app (hf r hr) hT (ha.fits.accepted hP d' hd r hr) ht hB'⟩
  stable hp := by
    obtain ⟨f, T, e, hf, he, hT, hn⟩ := hf.stable hp
    obtain ⟨z, d', q', hT, hd, hq⟩ := hT.quant_inv hC
    obtain ⟨i, hi, hia, hna⟩ := ha.later hp
    obtain ⟨_, B', h₁, hB', hBB⟩ := hq _ _ hia.symm
    cases hB.unique h₁
    exact ⟨_, B', _, .app hf hi (.neutral he hT hB'), (forces_self rfl), hBB, .app hn (hna d' hd)⟩

theorem car {x : Name} {q : Closure} (h : (Role.neutral C u).Fits p Γ n)
    (hC : Forces C (.sigma x d q)) : (Role.neutral d v).Fits p Γ (.proj .car n) where
  accepted hP := by
    obtain ⟨T, hT, h⟩ := h.accepted hP
    obtain ⟨z, d', q', hT, hd, _⟩ := hT.symm.quant_inv hC
    exact ⟨d', hd.symm, fun r hr => .car (h r hr) hT⟩
  stable hp := by
    obtain ⟨t, T, e, ht, he, hT, hn⟩ := h.stable hp
    obtain ⟨z, d', q', hT, hd, _⟩ := hT.quant_inv hC
    exact ⟨_, d', _, .proj ht (Cars.neutral he hT), (forces_self rfl), hd, .proj .car hn⟩

theorem cdr {x : Name} {q : Closure} (h : (Role.neutral C u).Met p Γ n)
    (hC : Forces C (.sigma x d q)) (ha : Cars u a) (hB : Applies q a B) :
    (Role.neutral B v).Fits p Γ (.proj .cdr n) where
  accepted hP := by
    obtain ⟨T, hT, hn⟩ := h.fits.accepted hP
    obtain ⟨z, d', q', hT, _, hq⟩ := hT.symm.quant_inv hC
    obtain ⟨t, ht, htu⟩ := h.holds
    obtain ⟨_, _, s, _, a', _, _, hs, _, ha', _, hsa, _⟩ := (ElEq.sigma_iff htu.type hC).1 htu
    cases ha.unique ha'
    obtain ⟨_, B', h₁, hB', hBB⟩ := hq _ _ hsa.symm
    cases hB.unique h₁
    exact ⟨B', hBB.symm, fun r hr => .cdr (hn r hr) hT ht hs hB'⟩
  stable hp := by
    obtain ⟨t, T, e, ht, he, hT, htu, hn⟩ := h.stuck hp
    obtain ⟨z, d', q', hT, _, hq⟩ := hT.quant_inv hC
    obtain ⟨_, _, s, _, a', _, _, hs, _, ha', _, hsa, _⟩ := (ElEq.sigma_iff htu.type hC).1 htu
    cases ha.unique ha'
    cases hs.unique (.neutral (forces_self rfl) hT)
    obtain ⟨_, B', h₁, hB', hBB⟩ := hq _ _ hsa.symm
    cases hB.unique h₁
    exact ⟨_, B', _, .proj ht (Cdrs.neutral he hT hB'), (forces_self rfl), hBB, .proj .cdr hn⟩

theorem head (h : (Role.neutral C u).Fits p Γ n) (hC : Forces C (.vec E k))
    (hk : Forces k (.add1 m)) : (Role.neutral E v).Fits p Γ (.proj .head n) where
  accepted hP := by
    obtain ⟨T, hT, h⟩ := h.accepted hP
    obtain ⟨E', k', m', hT, hk', hE, _⟩ := vec_type hT.symm hC hk
    exact ⟨E', hE.symm, fun r hr => .head (h r hr) hT hk'⟩
  stable hp := by
    obtain ⟨t, T, e, ht, he, hT, hn⟩ := h.stable hp
    obtain ⟨E', k', m', hT, hk', hE, _⟩ := vec_type hT hC hk
    exact ⟨_, E', _, .proj ht (Heads.neutral he hT), (forces_self rfl), hE, .proj .head hn⟩

theorem tail (h : (Role.neutral C u).Fits p Γ n) (hC : Forces C (.vec E k))
    (hk : Forces k (.add1 m)) : (Role.neutral (.vec E m) v).Fits p Γ (.proj .tail n) where
  accepted hP := by
    obtain ⟨T, hT, h⟩ := h.accepted hP
    obtain ⟨E', k', m', hT, hk', hE, hm⟩ := vec_type hT.symm hC hk
    exact ⟨_, .symm (.vec (forces_self rfl) (forces_self rfl) hE hm), fun r hr => .tail (h r hr) hT hk'⟩
  stable hp := by
    obtain ⟨t, T, e, ht, he, hT, hn⟩ := h.stable hp
    obtain ⟨E', k', m', hT, hk', hE, hm⟩ := vec_type hT hC hk
    exact ⟨_, _, _, .proj ht (Tails.neutral he hT hk'), (forces_self rfl),
      .vec (forces_self rfl) (forces_self rfl) hE hm, .proj .tail hn⟩

theorem symm (h : (Role.neutral C u).Fits p Γ n) (hC : Forces C (.equal K a b)) :
    (Role.neutral (.equal K b a) v).Fits p Γ (.proj .symm n) where
  accepted hP := by
    obtain ⟨T, hT, h⟩ := h.accepted hP
    obtain ⟨K', a', b', hT, hK, ha, hb⟩ := hT.symm.equal_inv hC
    exact ⟨.equal K' b' a', .symm (.equal (forces_self rfl) (forces_self rfl) hK hb ha),
      fun r hr => .symm (h r hr) hT⟩
  stable hp := by
    obtain ⟨t, T, e, ht, he, hT, hn⟩ := h.stable hp
    obtain ⟨K', a', b', hT, hK, ha, hb⟩ := hT.equal_inv hC
    exact ⟨_, _, _, .proj ht (Symms.neutral he hT), (forces_self rfl),
      .equal (forces_self rfl) (forces_self rfl) hK hb ha, .proj .symm hn⟩

/-! ## Arguments -/

/-- An annotated argument has the value of its annotation for a type. -/
theorem annotated (hP : P.Complete p) (hB : (Role.type .large B).Met p Γ n)
    (hb : (Role.value B b).Accepted P Γ nb) : ∃ B', TyEq .large B B' ∧
      P.Accepts Γ (.the n nb) (.synth B') ∧ P.Annotated Γ B' (.the n nb) (.the n nb) := by
  obtain ⟨B', hB', hBB, hn⟩ := hB.type_of_stable
  exact ⟨B', hBB.symm, fun r hr => .the (hB.fits.accepted hP r hr) hB' (hb B' hBB.symm r hr),
    .kept hP.lax (hP.annotates hn)⟩

theorem natFold {f : Fold} {S : Value → Value} (hf : NatFold f S)
    (ht : (Role.neutral C u).Fits p Γ nt) (hC : Forces C .nat) (hB : (Role.type .large B).Met p Γ n)
    (hb : (Role.value B b).Fits p Γ nb) (hs : (Role.value (S B) s).Fits p Γ ns) :
    (Role.neutral B v).Fits p Γ (.fold f nt (.the n nb) ns) where
  accepted hP := by
    obtain ⟨T, hT, ht⟩ := ht.accepted hP
    obtain ⟨B', hBB, hb, annotated⟩ := annotated hP hB (hb.accepted hP)
    exact ⟨B', hBB.symm, fun r hr => .natFold hf (ht r hr) (hT.symm.const_inv hC) (hb r hr)
      (hs.accepted hP _ (.natFoldStep hf hBB) r hr) annotated⟩
  stable hp := by
    obtain ⟨t, T, e, ht, he, _, hn⟩ := ht.stable hp
    obtain ⟨B', hB', hBB, hnB⟩ := hB.type hp
    obtain ⟨i, hi, hnb⟩ := (hb.stable hp).later
    obtain ⟨j, hj, hns⟩ := (hs.stable hp).later
    refine ⟨_, B', _, .fold hB' hi ht hj (.neutral hf he), (forces_self rfl), hBB.symm, ?_⟩
    rw [← Style.asHinted_annotate]
    exact .fold f hn hnB (hnb B' hBB.symm) (hns _ (.natFoldStep hf hBB.symm))

theorem recList (ht : (Role.neutral C u).Fits p Γ nt) (hC : Forces C (.list E))
    (hB : (Role.type .large B).Met p Γ n) (hb : (Role.value B b).Fits p Γ nb)
    (hs : (Role.value (.recListStep E B) s).Fits p Γ ns) :
    (Role.neutral B v).Fits p Γ (.fold .recList nt (.the n nb) ns) where
  accepted hP := by
    obtain ⟨T, hT, ht⟩ := ht.accepted hP
    obtain ⟨E', hT, hE⟩ := hT.symm.list_inv hC
    obtain ⟨B', hBB, hb, annotated⟩ := annotated hP hB (hb.accepted hP)
    exact ⟨B', hBB.symm, fun r hr => .recList (ht r hr) hT (hb r hr)
      (hs.accepted hP _ (.recListStep hE hBB) r hr) annotated⟩
  stable hp := by
    obtain ⟨t, T, e, ht, he, hT, hn⟩ := ht.stable hp
    obtain ⟨E', hT, hE⟩ := hT.list_inv hC
    obtain ⟨B', hB', hBB, hnB⟩ := hB.type hp
    obtain ⟨i, hi, hnb⟩ := (hb.stable hp).later
    obtain ⟨j, hj, hns⟩ := (hs.stable hp).later
    refine ⟨_, B', _, .fold hB' hi ht hj (.neutral_list he hT), (forces_self rfl), hBB.symm, ?_⟩
    rw [← Style.asHinted_annotate]
    exact .fold .recList hn hnB (hnb B' hBB.symm) (hns _ (.recListStep hE hBB.symm))

/-! ## Eliminators with a motive -/

theorem indNat (ht : (Role.neutral C u).Met p Γ nt) (hC : Forces C .nat)
    (hm : (Role.value .natMotive m).Met p Γ nm) (hD : Calls m u D) (hZ : Calls m .zero Z)
    (hb : (Role.value Z b).Fits p Γ nb) (hs : (Role.value (.indNatStep m) s).Fits p Γ ns) :
    (Role.neutral D v).Fits p Γ (.induct .indNat nt nm nb ns) := by
  have motive : ∀ {t m'}, ElEq C t u → ElEq .natMotive m' m → ∃ D' Z', Calls m' t D' ∧
      Calls m' .zero Z' ∧ TyEq .small D' D ∧ TyEq .small Z' Z := by
    intro t m' htu hmm
    have htu : ElEq .nat t u := htu.conv (.const rfl hC (forces_self rfl))
    obtain ⟨D', _, hD', h₁, hDD⟩ := hmm.motive htu
    obtain ⟨Z', _, hZ', h₂, hZZ⟩ := hmm.motive .zero
    cases hD.unique h₁
    cases hZ.unique h₂
    exact ⟨D', Z', hD', hZ', hDD, hZZ⟩
  refine ⟨fun hP => ?_, fun hp => ?_⟩
  · obtain ⟨T, hT, hnt⟩ := ht.fits.accepted hP
    have hT := hT.symm.const_inv hC
    obtain ⟨t, ht, htu⟩ := ht.holds
    obtain ⟨m', hm', hmm⟩ := hm.holds
    obtain ⟨D', Z', hD', hZ', hDD, hZZ⟩ := motive htu hmm
    exact ⟨D', hDD.lift, fun r hr => .indNat (hnt r hr) hT (hm.fits.accepted hP _ .natMotive r hr)
      hm' hZ' (hb.accepted hP Z' hZZ.lift.symm r hr) (hs.accepted hP _ (.indNatStep hmm.symm) r hr)
      ht hD'⟩
  · obtain ⟨t, T, e, ht, he, _, htu, hn⟩ := ht.stuck hp
    obtain ⟨m', hm', hmm, hnm⟩ := hm.later hp
    obtain ⟨i, hi, hnb⟩ := (hb.stable hp).later
    obtain ⟨j, hj, hns⟩ := (hs.stable hp).later
    obtain ⟨D', Z', hD', hZ', hDD, hZZ⟩ := motive htu hmm
    exact ⟨_, D', _, .induct ht hm' hi hj (.neutral_nat he hD' hZ'), (forces_self rfl), hDD.lift.symm,
      .induct .indNat hn (hnm _ .natMotive) (hnb Z' hZZ.lift.symm) (hns _ (.indNatStep hmm.symm))⟩

theorem indList (ht : (Role.neutral C u).Met p Γ nt) (hC : Forces C (.list E))
    (hm : (Role.value (.listMotive E) m).Met p Γ nm) (hD : Calls m u D) (hZ : Calls m .nil Z)
    (hb : (Role.value Z b).Fits p Γ nb) (hs : (Role.value (.indListStep E m) s).Fits p Γ ns) :
    (Role.neutral D v).Fits p Γ (.induct .indList nt nm nb ns) := by
  have motive : ∀ {t m'}, TyEq .large E E → ElEq C t u → ElEq (.listMotive E) m' m → ∃ D' Z',
      Calls m' t D' ∧ Calls m' .nil Z' ∧ TyEq .small D' D ∧ TyEq .small Z' Z := by
    intro t m' hE htu hmm
    have htu : ElEq (.list E) t u := htu.conv (htu.type.form_right hC.coincides)
    obtain ⟨D', _, hD', h₁, hDD⟩ := hmm.motive htu
    obtain ⟨Z', _, hZ', h₂, hZZ⟩ := hmm.motive (Frame.exact.lawful.nil (w := ()) hE).2
    cases hD.unique h₁
    cases hZ.unique h₂
    exact ⟨D', Z', hD', hZ', hDD, hZZ⟩
  refine ⟨fun hP => ?_, fun hp => ?_⟩
  · obtain ⟨T, hT, hnt⟩ := ht.fits.accepted hP
    obtain ⟨E', hT, hE⟩ := hT.symm.list_inv hC
    obtain ⟨t, ht, htu⟩ := ht.holds
    obtain ⟨m', hm', hmm⟩ := hm.holds
    obtain ⟨D', Z', hD', hZ', hDD, hZZ⟩ := motive hE.refl_left htu hmm
    exact ⟨D', hDD.lift, fun r hr => .indList (hnt r hr) hT (hm.fits.accepted hP _ (.listMotive hE) r hr)
      hm' hZ' (hb.accepted hP Z' hZZ.lift.symm r hr) (hs.accepted hP _ (.indListStep hE hmm.symm) r hr)
      ht hD'⟩
  · obtain ⟨t, T, e, ht, he, hT, htu, hn⟩ := ht.stuck hp
    obtain ⟨E', hT, hE⟩ := hT.list_inv hC
    obtain ⟨m', hm', hmm, hnm⟩ := hm.later hp
    obtain ⟨i, hi, hnb⟩ := (hb.stable hp).later
    obtain ⟨j, hj, hns⟩ := (hs.stable hp).later
    obtain ⟨D', Z', hD', hZ', hDD, hZZ⟩ := motive hE.refl_left htu hmm
    exact ⟨_, D', _, .induct ht hm' hi hj (.neutral_list he hT hD' hZ'), (forces_self rfl),
      hDD.lift.symm, .induct .indList hn (hnm _ (.listMotive hE)) (hnb Z' hZZ.lift.symm)
        (hns _ (.indListStep hE hmm.symm))⟩

theorem indEither (ht : (Role.neutral C u).Met p Γ nt) (hC : Forces C (.either l r))
    (hm : (Role.value (.simpleMotive (.either l r)) m).Met p Γ nm) (hD : Calls m u D)
    (hb : (Role.value (.eitherCase .left l m) b).Fits p Γ nb)
    (hs : (Role.value (.eitherCase .right r m) s).Fits p Γ ns) :
    (Role.neutral D v).Fits p Γ (.induct .indEither nt nm nb ns) := by
  have motive : ∀ {t m'}, ElEq C t u → ElEq (.simpleMotive (.either l r)) m' m → ∃ D',
      Calls m' t D' ∧ TyEq .small D' D := by
    intro t m' htu hmm
    have htu : ElEq (.either l r) t u := htu.conv (htu.type.form_right hC.coincides)
    obtain ⟨D', _, hD', h₁, hDD⟩ := hmm.motive htu
    cases hD.unique h₁
    exact ⟨D', hD', hDD⟩
  refine ⟨fun hP => ?_, fun hp => ?_⟩
  · obtain ⟨T, hT, hnt⟩ := ht.fits.accepted hP
    obtain ⟨l', r', hT, hl, hr⟩ := hT.symm.either_inv hC
    obtain ⟨t, ht, htu⟩ := ht.holds
    obtain ⟨m', hm', hmm⟩ := hm.holds
    obtain ⟨D', hD', hDD⟩ := motive htu hmm
    exact ⟨D', hDD.lift, fun ρ hρ => .indEither (hnt ρ hρ) hT
      (hm.fits.accepted hP _ (.simpleMotive (.either (forces_self rfl) (forces_self rfl) hl hr)) ρ hρ) hm'
      (hb.accepted hP _ (.eitherLeft hl hr.refl_left hmm.symm) ρ hρ)
      (hs.accepted hP _ (.eitherRight hr hl.refl_left hmm.symm) ρ hρ) ht hD'⟩
  · obtain ⟨t, T, e, ht, he, hT, htu, hn⟩ := ht.stuck hp
    obtain ⟨l', r', hT, hl, hr⟩ := hT.either_inv hC
    obtain ⟨m', hm', hmm, hnm⟩ := hm.later hp
    obtain ⟨i, hi, hnb⟩ := (hb.stable hp).later
    obtain ⟨j, hj, hns⟩ := (hs.stable hp).later
    obtain ⟨D', hD', hDD⟩ := motive htu hmm
    exact ⟨_, D', _, .induct ht hm' hi hj (.neutral_either he hT hD'), (forces_self rfl),
      hDD.lift.symm, .induct .indEither hn
        (hnm _ (.simpleMotive (.either (forces_self rfl) (forces_self rfl) hl hr)))
        (hnb _ (.eitherLeft hl hr.refl_left hmm.symm)) (hns _ (.eitherRight hr hl.refl_left hmm.symm))⟩

theorem indVec {nk : Expr} (hk : (Role.value .nat k).Met p Γ nk) (ht : (Role.neutral C u).Met p Γ nt)
    (hC : Forces C (.vec E k)) (hm : (Role.value (.vecMotive E) m).Met p Γ nm)
    (hD : CallsBoth m k u D) (hZ : CallsBoth m .zero .vecNil Z) (hb : (Role.value Z b).Fits p Γ nb)
    (hs : (Role.value (.indVecStep E m) s).Fits p Γ ns) :
    (Role.neutral D v).Fits p Γ (.indVec nk nt nm nb ns) := by
  have motive : ∀ {j t m'}, TyEq .large E E → ElEq .nat j k → ElEq C t u →
      ElEq (.vecMotive E) m' m → ∃ D' Z', CallsBoth m' j t D' ∧ CallsBoth m' .zero .vecNil Z' ∧
        TyEq .small D' D ∧ TyEq .small Z' Z := by
    intro j t m' hE hjk htu hmm
    have htu : ElEq (.vec E j) t u := htu.conv ((htu.type.form_right hC.coincides).trans
      (.vec (forces_self rfl) (forces_self rfl) hE hjk.symm))
    obtain ⟨D', _, hD', h₁, hDD⟩ := hmm.vecMotive hjk htu
    obtain ⟨Z', _, hZ', h₂, hZZ⟩ := hmm.vecMotive .zero (Frame.exact.lawful.vecNil (w := ()) hE).2
    cases hD.unique h₁
    cases hZ.unique h₂
    exact ⟨D', Z', hD', hZ', hDD, hZZ⟩
  refine ⟨fun hP => ?_, fun hp => ?_⟩
  · obtain ⟨T, hT, hnt⟩ := ht.fits.accepted hP
    obtain ⟨E', l, hT, hE, hkl⟩ := hT.symm.vec_inv hC
    obtain ⟨j, hj, hjk⟩ := hk.holds
    obtain ⟨t, ht, htu⟩ := ht.holds
    obtain ⟨m', hm', hmm⟩ := hm.holds
    obtain ⟨D', Z', hD', hZ', hDD, hZZ⟩ := motive hE.refl_left hjk htu hmm
    exact ⟨D', hDD.lift, fun r hr => .indVec (hk.fits.accepted hP _ .nat r hr) hj (hnt r hr) hT
      (hP.same (hjk.trans hkl)) (hm.fits.accepted hP _ (.vecMotive hE) r hr) hm' hZ'
      (hb.accepted hP Z' hZZ.lift.symm r hr) (hs.accepted hP _ (.indVecStep hE hmm.symm) r hr) ht hD'⟩
  · obtain ⟨j, hj, hjk, hnk⟩ := hk.later hp
    obtain ⟨t, T, e, ht, he, hT, htu, hn⟩ := ht.stuck hp
    obtain ⟨E', l, hT, hE, _⟩ := hT.vec_inv hC
    obtain ⟨m', hm', hmm, hnm⟩ := hm.later hp
    obtain ⟨i, hi, hnb⟩ := (hb.stable hp).later
    obtain ⟨o, ho, hns⟩ := (hs.stable hp).later
    obtain ⟨D', Z', hD', hZ', hDD, hZZ⟩ := motive hE.refl_left hjk htu hmm
    exact ⟨_, D', _, .indVec hj ht hm' hi ho (.neutral he hT hD' hZ'), (forces_self rfl),
      hDD.lift.symm, .indVec (hnk _ .nat) hn (hnm _ (.vecMotive hE)) (hnb Z' hZZ.lift.symm)
        (hns _ (.indVecStep hE hmm.symm))⟩

theorem indAbsurd (ht : (Role.neutral .absurd u).Fits p Γ nt) (hm : (Role.type .small m).Met p Γ nm) :
    (Role.neutral m v).Fits p Γ (.indAbsurd (.the .absurd nt) nm) where
  accepted hP := by
    obtain ⟨M, hM, hMm⟩ := hm.holds
    exact ⟨M, hMm.lift, fun r hr => .indAbsurd (the_absurd hP (ht.accepted hP) r hr) (forces_self rfl)
      (hm.fits.of_small.accepted hP _ .univ r hr) hM⟩
  stable hp := by
    obtain ⟨t, T, e, ht, he, _, hn⟩ := ht.stable hp
    obtain ⟨M, hM, hMm, hnm⟩ := hm.type hp
    exact ⟨_, M, _, .indAbsurd (.the _ ht) hM (.neutral he), (forces_self rfl), hMm.lift.symm,
      .indAbsurd hn hnm⟩

theorem replace (ht : (Role.neutral C u).Fits p Γ nt) (hC : Forces C (.equal K a c))
    (hm : (Role.value (.simpleMotive K) m).Met p Γ nm) (hD : Calls m c D) (hZ : Calls m a Z)
    (hb : (Role.value Z b).Fits p Γ nb) :
    (Role.neutral D v).Fits p Γ (.transport .replace nt nm nb) := by
  have motive : ∀ {a' c' m'}, ElEq K a a' → ElEq K c c' → ElEq (.simpleMotive K) m' m → ∃ D' Z',
      Calls m' c' D' ∧ Calls m' a' Z' ∧ TyEq .small D' D ∧ TyEq .small Z' Z := by
    intro a' c' m' ha hc hmm
    obtain ⟨D', _, hD', h₁, hDD⟩ := hmm.motive hc.symm
    obtain ⟨Z', _, hZ', h₂, hZZ⟩ := hmm.motive ha.symm
    cases hD.unique h₁
    cases hZ.unique h₂
    exact ⟨D', Z', hD', hZ', hDD, hZZ⟩
  refine ⟨fun hP => ?_, fun hp => ?_⟩
  · obtain ⟨T, hT, ht⟩ := ht.accepted hP
    obtain ⟨K', a', c', hT, hK, ha, hc⟩ := hT.symm.equal_inv hC
    obtain ⟨m', hm', hmm⟩ := hm.holds
    obtain ⟨D', Z', hD', hZ', hDD, hZZ⟩ := motive ha hc hmm
    exact ⟨D', hDD.lift, fun r hr => .replace (ht r hr) hT
      (hm.fits.accepted hP _ (.simpleMotive hK) r hr) hm' hZ' (hb.accepted hP Z' hZZ.lift.symm r hr) hD'⟩
  · obtain ⟨t, T, e, ht, he, hT, hn⟩ := ht.stable hp
    obtain ⟨K', a', c', hT, hK, ha, hc⟩ := hT.equal_inv hC
    obtain ⟨m', hm', hmm, hnm⟩ := hm.later hp
    obtain ⟨i, hi, hnb⟩ := (hb.stable hp).later
    obtain ⟨D', Z', hD', hZ', hDD, hZZ⟩ := motive ha hc hmm
    exact ⟨_, D', _, .transport ht hm' hi (.neutral_replace he hT hD' hZ'), (forces_self rfl),
      hDD.lift.symm, .transport .replace hn (hnm _ (.simpleMotive hK)) (hnb Z' hZZ.lift.symm)⟩

theorem indEqual (ht : (Role.neutral C u).Met p Γ nt) (hC : Forces C (.equal K a c))
    (hm : (Role.value (.equalMotive K a) m).Met p Γ nm) (hD : CallsBoth m c u D)
    (hZ : CallsBoth m a (.same a) Z) (hb : (Role.value Z b).Fits p Γ nb) :
    (Role.neutral D v).Fits p Γ (.transport .indEqual nt nm nb) := by
  have motive : ∀ {t a' c' m'}, TyEq .large K K → ElEq C t u → ElEq K a a' → ElEq K c c' →
      ElEq (.equalMotive K a) m' m → ∃ D' Z', CallsBoth m' c' t D' ∧ CallsBoth m' a' (.same a') Z' ∧
        TyEq .small D' D ∧ TyEq .small Z' Z := by
    intro t a' c' m' hK htu ha hc hmm
    have htu : ElEq (.equal K a c') t u := htu.conv ((htu.type.form_right hC.coincides).trans
      (.equal (forces_self rfl) (forces_self rfl) hK ha.refl_left hc))
    have hs : ElEq (.equal K a a') (.same a') (.same a) := ElEq.conv ha.symm.same
      (.equal (forces_self rfl) (forces_self rfl) hK ha.symm ha.refl_right)
    obtain ⟨D', _, hD', h₁, hDD⟩ := hmm.equalMotive hc.symm htu
    obtain ⟨Z', _, hZ', h₂, hZZ⟩ := hmm.equalMotive ha.symm hs
    cases hD.unique h₁
    cases hZ.unique h₂
    exact ⟨D', Z', hD', hZ', hDD, hZZ⟩
  refine ⟨fun hP => ?_, fun hp => ?_⟩
  · obtain ⟨T, hT, hnt⟩ := ht.fits.accepted hP
    obtain ⟨K', a', c', hT, hK, ha, hc⟩ := hT.symm.equal_inv hC
    obtain ⟨t, ht, htu⟩ := ht.holds
    obtain ⟨m', hm', hmm⟩ := hm.holds
    obtain ⟨D', Z', hD', hZ', hDD, hZZ⟩ := motive hK.refl_left htu ha hc hmm
    exact ⟨D', hDD.lift, fun r hr => .indEqual (hnt r hr) hT
      (hm.fits.accepted hP _ (.equalMotive hK ha) r hr) hm' hZ' (hb.accepted hP Z' hZZ.lift.symm r hr)
      ht hD'⟩
  · obtain ⟨t, T, e, ht, he, hT, htu, hn⟩ := ht.stuck hp
    obtain ⟨K', a', c', hT, hK, ha, hc⟩ := hT.equal_inv hC
    obtain ⟨m', hm', hmm, hnm⟩ := hm.later hp
    obtain ⟨i, hi, hnb⟩ := (hb.stable hp).later
    obtain ⟨D', Z', hD', hZ', hDD, hZZ⟩ := motive hK.refl_left htu ha hc hmm
    exact ⟨_, D', _, .transport ht hm' hi (.neutral_indEqual he hT hD' hZ'), (forces_self rfl),
      hDD.lift.symm, .transport .indEqual hn (hnm _ (.equalMotive hK ha)) (hnb Z' hZZ.lift.symm)⟩

/-! ## Proofs of equality -/

theorem trans {K' b' : Value} (h : (Role.neutral (.equal K a b) u).Fits p Γ n)
    (h' : (Role.neutral (.equal K' b' c) t).Fits p Γ nt) (hK : TyEq .large K K') (hb : ElEq K b b') :
    (Role.neutral (.equal K a c) v).Fits p Γ (.trans n nt) where
  accepted hP := by
    obtain ⟨T, hT, h⟩ := h.accepted hP
    obtain ⟨T', hT', h'⟩ := h'.accepted hP
    obtain ⟨K₁, a₁, b₁, hT, hK₁, ha₁, hb₁⟩ := hT.symm.equal_inv (forces_self rfl)
    obtain ⟨K₂, b₂, c₂, hT', hK₂, hb₂, hc₂⟩ := hT'.symm.equal_inv (forces_self rfl)
    refine ⟨.equal K₁ a₁ c₂, .symm (.equal (forces_self rfl) (forces_self rfl) hK₁ ha₁ (hc₂.conv hK.symm)),
      fun r hr => .trans (h r hr) hT (h' r hr) hT' (hP.sameType ((hK₁.symm.trans hK).trans hK₂)) ?_⟩
    exact hP.same <| ((hb₁.symm.trans hb).trans (hb₂.conv hK.symm)).conv hK₁
  stable hp := by
    obtain ⟨w, T, e, hw, he, hT, hn⟩ := h.stable hp
    obtain ⟨w', T', e', hw', he', hT', hn'⟩ := h'.stable hp
    obtain ⟨K₁, a₁, b₁, hT, hK₁, ha₁, _⟩ := hT.equal_inv (forces_self rfl)
    obtain ⟨K₂, b₂, c₂, hT', _, _, hc₂⟩ := hT'.equal_inv (forces_self rfl)
    exact ⟨_, _, _, .trans hw hw' (.neutral he he' hT hT'), (forces_self rfl),
      .equal (forces_self rfl) (forces_self rfl) hK₁ ha₁ (hc₂.conv hK.symm),
      .trans (.value (forces_self rfl) (.byForm rfl (forces_self rfl) (.stuck hn)))
        (.value (forces_self rfl) (.byForm rfl (forces_self rfl) (.stuck hn')))⟩

theorem sameTrans {K' b' : Value} (h : (Role.value K s).Met p Γ n) (ha : ElEq K a s) (hb : ElEq K s b)
    (h' : (Role.neutral (.equal K' b' c) t).Fits p Γ nt) (hK : TyEq .large K K') (hbb : ElEq K b b') :
    (Role.neutral (.equal K a c) v).Fits p Γ (.trans (.same n) nt) where
  accepted hP := by
    obtain ⟨T', hT', h'⟩ := h'.accepted hP
    obtain ⟨K₂, b₂, c₂, hT', hK₂, hb₂, hc₂⟩ := hT'.symm.equal_inv (forces_self rfl)
    obtain ⟨s', hs, hss⟩ := h.holds
    have hK := hK.trans hK₂
    refine ⟨.equal K₂ s' c₂, .symm (.equal (forces_self rfl) (forces_self rfl) hK (ha.trans hss.symm) ?_),
      fun r hr => .sameTrans hP.lax (h' r hr) hT' (h.fits.accepted hP K₂ hK r hr) hs ?_⟩
    · exact hc₂.conv (hK₂.trans hK.symm)
    · exact hP.same <| (((hss.trans hb).trans hbb).trans (hb₂.conv (hK₂.trans hK.symm))).conv hK
  stable hp := by
    obtain ⟨w', T', e', hw', he', hT', hn'⟩ := h'.stable hp
    obtain ⟨K₂, b₂, c₂, hT', hK₂, _, hc₂⟩ := hT'.equal_inv (forces_self rfl)
    obtain ⟨l, hl, hls, hn⟩ := h.later hp
    have hK := hK.trans hK₂
    exact ⟨_, _, _, .trans (.unary .same hl) hw' (.same_neutral (forces_self rfl) he' hT'),
      (forces_self rfl), .equal (forces_self rfl) (forces_self rfl) hK (ha.trans hls.symm)
        (hc₂.conv (hK₂.trans hK.symm)),
      .trans (.value (forces_self rfl) (.byForm rfl (forces_self rfl) (.same (hn K₂ hK))))
        (.value (forces_self rfl) (.byForm rfl (forces_self rfl) (.stuck hn')))⟩

theorem transSame {K' b' : Value} (h : (Role.neutral (.equal K a b) u).Fits p Γ n)
    (h' : (Role.value K' s).Met p Γ nt) (hb : ElEq K' b' s) (hc : ElEq K' s c)
    (hK : TyEq .large K K') (hbb : ElEq K b b') :
    (Role.neutral (.equal K a c) v).Fits p Γ (.trans n (.same nt)) where
  accepted hP := by
    obtain ⟨T, hT, h⟩ := h.accepted hP
    obtain ⟨K₁, a₁, b₁, hT, hK₁, ha₁, hb₁⟩ := hT.symm.equal_inv (forces_self rfl)
    obtain ⟨s', hs, hss⟩ := h'.holds
    refine ⟨.equal K₁ a₁ s', .symm (.equal (forces_self rfl) (forces_self rfl) hK₁ ha₁ ?_),
      fun r hr => .transSame hP.lax (h r hr) hT (h'.fits.accepted hP K₁ (hK.symm.trans hK₁) r hr) hs ?_⟩
    · exact (hss.trans hc).symm.conv hK.symm
    · exact hP.same <| ((hb₁.symm.trans hbb).trans ((hb.trans hss.symm).conv hK.symm)).conv hK₁
  stable hp := by
    obtain ⟨w, T, e, hw, he, hT, hn⟩ := h.stable hp
    obtain ⟨K₁, a₁, b₁, hT, hK₁, ha₁, _⟩ := hT.equal_inv (forces_self rfl)
    obtain ⟨l, hl, hls, hnt⟩ := h'.later hp
    exact ⟨_, _, _, .trans hw (.unary .same hl) (.neutral_same he (forces_self rfl) hT),
      (forces_self rfl), .equal (forces_self rfl) (forces_self rfl) hK₁ ha₁
        ((hls.trans hc).symm.conv hK.symm),
      .trans (.value (forces_self rfl) (.byForm rfl (forces_self rfl) (.stuck hn)))
        (.value (forces_self rfl) (.byForm rfl (forces_self rfl) (.same (hnt K₁ (hK.symm.trans hK₁)))))⟩

/-- The range of the function does not depend on the argument. -/
theorem cong {x : Name} {q : Closure} {F f w : Value} (ht : (Role.neutral C u).Fits p Γ nt)
    (hC : Forces C (.equal K a c)) (hnF : (Role.type .large F).Met p Γ n)
    (hnf : (Role.value F f).Met p Γ nb) (hF : Forces F (.pi x d q)) (hd : TyEq .large d K)
    (hD : Applies q a D) (hq : ∀ {b B}, ElEq d b b → Applies q b B → TyEq .large B D)
    (hr : ∀ e, n.simpleRange? = some e → ∃ D', Evals Γ.env e D' ∧ TyEq .large D' D)
    (hv : Calls f a v) (hw : Calls f c w) :
    (Role.neutral (.equal D v w) s).Fits p Γ (.cong nt (.the n nb)) := by
  -- The parts of the type and the function that the normal form evaluates to.
  have parts : ∀ {a' c' F' g}, ElEq K a a' → ElEq K c c' → TyEq .large F' F → ElEq F g f →
      ∃ z d' q' D' v' w', Forces F' (.pi z d' q') ∧ TyEq .large d' K ∧ Applies q' a' D' ∧
        (∀ {b B}, ElEq d' b b → Applies q' b B → TyEq .large B D') ∧ Calls g a' v' ∧ Calls g c' w' ∧
        TyEq .large D D' ∧ ElEq D v v' ∧ ElEq D w w' := by
    intro a' c' F' g ha hc hFF hgf
    obtain ⟨z, d', q', hF₁, hdd, hqq⟩ := hFF.symm.quant_inv hF
    have haa := ha.conv hd.symm
    have hcc := hc.conv hd.symm
    obtain ⟨_, D', h₁, hD', hDD⟩ := hqq a a' haa
    cases hD.unique h₁
    obtain ⟨v', _, _, hv', h₂, h₃, hvv⟩ := hgf.call hF haa.symm
    cases hv.unique h₂
    obtain ⟨w', _, _, hw', h₄, h₅, hww⟩ := hgf.call hF hcc.symm
    cases hw.unique h₄
    have hvv := hvv.conv (hq haa.refl_right h₃)
    have hww := hww.conv (hq hcc.refl_right h₅)
    refine ⟨z, d', q', D', v', w', hF₁, hdd.symm.trans hd, hD', ?_, hv', hw', hDD, hvv.symm, hww.symm⟩
    intro b B hb hB
    obtain ⟨B₁, _, hB₁, h₆, hBB⟩ := hqq b b (hb.conv hdd.symm)
    cases hB.unique h₆
    exact (hBB.symm.trans (hq (hb.conv hdd.symm) hB₁)).trans hDD
  refine ⟨fun hP => ?_, fun hp => ?_⟩
  · obtain ⟨T, hT, ht⟩ := ht.accepted hP
    obtain ⟨K', a', c', hT, hK, ha, hc⟩ := hT.symm.equal_inv hC
    obtain ⟨F', hF', hFF, hn⟩ := hnF.type_of_stable
    obtain ⟨g, hg, hgf⟩ := hnf.holds
    obtain ⟨z, d', q', D', v', w', hF₁, hdK, hD', hq', hv', hw', hDD, hvv, hww⟩ := parts ha hc hFF hgf
    have reads := fun hp => (hn hp).of_coincides_type hF₁.coincides
    obtain ⟨D₁, simple, hD₁⟩ := hP.simple reads hD' hDD.refl_right hq' fun e he => by
      obtain ⟨D₁, hD₁, hDD₁⟩ := hr e he
      exact ⟨D₁, hD₁, hDD₁.trans hDD⟩
    refine ⟨.equal D₁ v' w',
      .symm (.equal (forces_self rfl) (forces_self rfl) (hDD.trans hD₁.symm) hvv hww), fun r hr => ?_⟩
    exact .cong (ht r hr) hT
      (.the (hnF.fits.accepted hP r hr) hF' (hnf.fits.accepted hP F' hFF.symm r hr)) hF₁
      (hP.sameType (hdK.trans hK)) simple (.the n hg) hv' hw'
      (.kept hP.lax (hP.annotates reads))
  · obtain ⟨t, T, e, ht, he, hT, hn⟩ := ht.stable hp
    obtain ⟨K', a', c', hT, _, ha, hc⟩ := hT.equal_inv hC
    obtain ⟨F', hF', hFF, hnF⟩ := hnF.type hp
    obtain ⟨g, hg, hgf, hnf⟩ := hnf.later hp
    obtain ⟨z, d', q', D', v', w', hF₁, _, hD', _, hv', hw', hDD, hvv, hww⟩ := parts ha hc hFF hgf
    refine ⟨_, _, _, .cong hF' hg ht (.neutral he hT hF₁ hD' hv' hw'), (forces_self rfl),
      .equal (forces_self rfl) (forces_self rfl) hDD hvv hww, ?_⟩
    rw [← Style.asHinted_annotate]
    exact .cong hn (hnF.of_coincides_type hF₁.coincides)
      (hnf _ (hFF.symm.trans (hFF.refl_left.form_right hF₁.coincides)))

end Role.Fits

end TypeKernel
