/-
# TypeKernel.Proofs.FamilyEliminators — eliminators for all values of the variables

The rules of `Families`, for eliminators. Evaluation puts motives, bases and steps off; what is asked of
bases and steps is computed from the motive, so the types at the motive are changed to those at the motive
that is put off.
-/
import TypeKernel.Proofs.Families

namespace TypeKernel

set_option autoImplicit false

/-- The result of a function. -/
noncomputable def Dependent.call (𝓕 𝒱 : Dependent) : Dependent := fun ρ =>
  settle (Eval.call answer (𝓕 ρ) (𝒱 ρ))

/-- The result of a function with two arguments. -/
noncomputable def Dependent.callBoth (𝓕 𝒱 𝒲 : Dependent) : Dependent := fun ρ =>
  settle (Eval.callBoth answer (𝓕 ρ) (𝒱 ρ) (𝒲 ρ))

theorem Dependent.call_eq {𝓕 𝒱 : Dependent} {ρ : Env} {v : Value} (h : Calls (𝓕 ρ) (𝒱 ρ) v) :
    Dependent.call 𝓕 𝒱 ρ = v :=
  settle_eq h

theorem Dependent.callBoth_eq {𝓕 𝒱 𝒲 : Dependent} {ρ : Env} {v : Value}
    (h : CallsBoth (𝓕 ρ) (𝒱 ρ) (𝒲 ρ) v) : Dependent.callBoth 𝓕 𝒱 𝒲 ρ = v :=
  settle_eq h

theorem CallsBoth.of_coincides {f f' a b v : Value} (h : CallsBoth f a b v) (hf : Coincides f f') :
    CallsBoth f' a b v := by
  rw [CallsBoth, Eval.callBoth, ← hf.call a]
  exact h

namespace Telescope

/-! ## Motives -/

section Motives

variable {Θ : Telescope} {𝒟 ℰ 𝒯 𝓚 𝓜 𝒱 𝒲 : Dependent} {x : Name}

theorem Member.call_motive (hm : Θ.Member (fun ρ => .piFamily x (𝒟 ρ) (.always .univ)) 𝓜)
    (hv : Θ.Member 𝒟 𝒱) : Θ.IsFamily .large (.call 𝓜 𝒱) := by
  intro I w ρ ρ' hρ
  obtain ⟨D, D', hD, hD', hDD⟩ := I.lawful.motive (hm hρ) (hv hρ)
  rw [Dependent.call_eq hD, Dependent.call_eq hD']
  exact I.lawful.general.lift hDD

theorem Member.call_vecMotive (hm : Θ.Member (fun ρ => .vecMotive (ℰ ρ)) 𝓜)
    (hk : Θ.Member (fun _ => .nat) 𝓚) (hv : Θ.Member (fun ρ => .vec (ℰ ρ) (𝓚 ρ)) 𝒱) :
    Θ.IsFamily .large (.callBoth 𝓜 𝓚 𝒱) := by
  intro I w ρ ρ' hρ
  obtain ⟨D, D', hD, hD', hDD⟩ := I.lawful.vecMotive_call (hm hρ) (hk hρ) (hv hρ)
  rw [Dependent.callBoth_eq hD, Dependent.callBoth_eq hD']
  exact I.lawful.general.lift hDD

theorem Member.call_equalMotive (hm : Θ.Member (fun ρ => .equalMotive (𝒯 ρ) (𝒱 ρ)) 𝓜)
    (hw : Θ.Member 𝒯 𝒲) (hk : Θ.Member (fun ρ => .equal (𝒯 ρ) (𝒱 ρ) (𝒲 ρ)) 𝓚) :
    Θ.IsFamily .large (.callBoth 𝓜 𝒲 𝓚) := by
  intro I w ρ ρ' hρ
  obtain ⟨D, D', hD, hD', hDD⟩ := I.lawful.equalMotive_call (hm hρ) (hw hρ) (hk hρ)
  rw [Dependent.callBoth_eq hD, Dependent.callBoth_eq hD']
  exact I.lawful.general.lift hDD

/-- What is asked of one case of `Either`; `hc` says that its constructor gives elements. -/
theorem isFamily_eitherCase {Γ : Context} {c : Unary} (hΘ : Θ.Describes Γ)
    (hK : Θ.IsFamily .large 𝓚) (hm : Θ.Member (fun ρ => .simpleMotive (𝒯 ρ)) 𝓜)
    (hc : ∀ {I : Interpretation} {w : I.World} {ρ ρ' v v'}, Θ.Related I w ρ ρ' →
      I.el w (𝓚 ρ) (𝓚 ρ') v v' → I.el w (𝒯 ρ) (𝒯 ρ') (.unary c v) (.unary c v')) :
    Θ.IsFamily .large fun ρ => .eitherCase c (𝓚 ρ) (𝓜 ρ) := by
  have self : ∀ {ρ}, Θ.Fills ρ →
      TyEq .large (.eitherCase c (𝓚 ρ) (𝓜 ρ)) (.eitherCase c (𝓚 ρ) (𝓜 ρ)) := fun hρ =>
    .eitherCase (hΘ.tyEq hK hρ) (hΘ.elEq hm hρ) fun _ _ ha =>
      (hc (hΘ.exact hρ) ⟨ha.type, ha⟩).2
  intro I w ρ ρ' hρ
  exact I.lawful.eitherCase (self hρ.left) (self hρ.right) (hK hρ) (hm hρ)
    fun hw ha => hc (hρ.mono hw) ha

end Motives

namespace Has

variable {Θ : Telescope} {Γ : Context} {𝒜 𝒯 𝒮 𝒟 ℰ 𝓕 𝓚 𝓛 𝓜 𝓝 𝒱 𝒲 : Dependent} {𝒳 : Env → Name}
  {𝓡 : Env → Closure} {a b e f k m s t p q : Expr} (hΘ : Θ.Describes Γ)

include hΘ

/-! ## Functions and projections -/

theorem app (form : Θ.QuantForm .large .pi 𝒜 𝒳 𝒟 𝓡) (hf : Θ.Has 𝒜 f) (ha : Θ.Has 𝒟 a) :
    Θ.Has (Dependent.range 𝓡 a.value) (.app f a) := by
  have later : Θ.Has (Dependent.range 𝓡 a.later) (.app f a) := .intro hΘ fun {I _ _ _} hρ => by
    obtain ⟨c, c', B, B', hc, hc', hB, hB', hcc⟩ := I.lawful.elements.pi_elim (hf.member hρ)
      (form.form hρ.left) (form.form hρ.right) (ha.later hρ)
    simp only [Dependent.range, settle_eq hB, settle_eq hB']
    exact ⟨c, c', .app (hf.evals hρ.left) (ha.laters hρ.left) hc,
      .app (hf.evals hρ.right) (ha.laters hρ.right) hc', hcc⟩
  exact later.conv hΘ (form.family_range ha.member)
    (form.range_later hΘ hf.family ha hΘ.identity).symm

theorem car (form : Θ.QuantForm .large .sigma 𝒜 𝒳 𝒟 𝓡) (h : Θ.Has 𝒜 t) :
    Θ.Has 𝒟 (.proj .car t) := by
  refine .intro hΘ fun {I _ _ _} hρ => ?_
  obtain ⟨a, a', _, _, _, _, ha, ha', _, _, _, _, haa, _⟩ := I.lawful.elements.sigma_elim
    (h.member hρ) (form.form hρ.left) (form.form hρ.right)
  exact ⟨a, a', .proj (h.evals hρ.left) ha, .proj (h.evals hρ.right) ha', haa⟩

theorem cdr (form : Θ.QuantForm .large .sigma 𝒜 𝒳 𝒟 𝓡) (h : Θ.Has 𝒜 t) :
    Θ.Has (Dependent.range 𝓡 (Expr.proj .car t).value) (.proj .cdr t) := by
  refine .intro hΘ fun {I _ _ _} hρ => ?_
  obtain ⟨a, a', b, b', B, B', ha, ha', hb, hb', hB, hB', _, hbb⟩ := I.lawful.elements.sigma_elim
    (h.member hρ) (form.form hρ.left) (form.form hρ.right)
  have hl := h.evals hρ.left
  have hr := h.evals hρ.right
  simp only [Dependent.range, Expr.value_eq (.proj (p := .car) hl ha),
    Expr.value_eq (.proj (p := .car) hr ha'), settle_eq hB, settle_eq hB']
  exact ⟨b, b', .proj hl hb, .proj hr hb', hbb⟩

theorem head (form : ∀ {ρ}, Θ.Fills ρ → Forces (𝓚 ρ) (.add1 (𝓜 ρ)))
    (h : Θ.Has (fun ρ => .vec (ℰ ρ) (𝓚 ρ)) t) : Θ.Has ℰ (.proj .head t) := by
  refine .intro hΘ fun hρ => ?_
  obtain ⟨a, a', ha, ha', haa⟩ :=
    Interpretation.head (h.member hρ) (forces_self rfl) (forces_self rfl) (form hρ.left)
  exact ⟨a, a', .proj (h.evals hρ.left) ha, .proj (h.evals hρ.right) ha', haa⟩

theorem tail (form : ∀ {ρ}, Θ.Fills ρ → Forces (𝓚 ρ) (.add1 (𝓜 ρ)))
    (h : Θ.Has (fun ρ => .vec (ℰ ρ) (𝓚 ρ)) t) :
    Θ.Has (fun ρ => .vec (ℰ ρ) (𝓜 ρ)) (.proj .tail t) := by
  refine .intro hΘ fun hρ => ?_
  obtain ⟨m', a, a', hm', _, ha, ha', haa⟩ :=
    Interpretation.tail (h.member hρ) (forces_self rfl) (forces_self rfl) (form hρ.left)
  cases hm'.unique (form hρ.right)
  exact ⟨a, a', .proj (h.evals hρ.left) ha, .proj (h.evals hρ.right) ha', haa⟩

theorem symm (h : Θ.Has (fun ρ => .equal (𝒯 ρ) (𝒱 ρ) (𝒲 ρ)) t) :
    Θ.Has (fun ρ => .equal (𝒯 ρ) (𝒲 ρ) (𝒱 ρ)) (.proj .symm t) := by
  refine .intro hΘ fun hρ => ?_
  obtain ⟨a, a', ha, ha', haa⟩ := Interpretation.symm (h.member hρ) (forces_self rfl) (forces_self rfl)
  exact ⟨a, a', .proj (h.evals hρ.left) ha, .proj (h.evals hρ.right) ha', haa⟩

/-! ## Folds -/

theorem natFold {o : Fold} {S : Value → Value} (ho : NatFold o S) (ht : Θ.Has (fun _ => .nat) t)
    (he : Θ.HasType .large e) (hb : Θ.Has e.value b) (hs : Θ.Has (fun ρ => S (e.value ρ)) s) :
    Θ.Has e.value (.fold o t (.the e b) s) := by
  refine .intro hΘ fun hρ => ?_
  obtain ⟨r, r', hr, hr', hrr⟩ :=
    Interpretation.natFold ho (ht.member hρ) (he.family hρ) (hb.later hρ) (hs.later hρ)
  exact ⟨r, r',
    .fold (he.evals hρ.left) (hb.laters hρ.left) (ht.evals hρ.left) (hs.laters hρ.left) hr,
    .fold (he.evals hρ.right) (hb.laters hρ.right) (ht.evals hρ.right) (hs.laters hρ.right) hr', hrr⟩

theorem recList (ht : Θ.Has (fun ρ => .list (ℰ ρ)) t) (he : Θ.HasType .large e)
    (hb : Θ.Has e.value b) (hs : Θ.Has (fun ρ => .recListStep (ℰ ρ) (e.value ρ)) s) :
    Θ.Has e.value (.fold .recList t (.the e b) s) := by
  refine .intro hΘ fun hρ => ?_
  obtain ⟨r, r', hr, hr', hrr⟩ :=
    Interpretation.recList (ht.member hρ) (he.family hρ) (hb.later hρ) (hs.later hρ)
  exact ⟨r, r',
    .fold (he.evals hρ.left) (hb.laters hρ.left) (ht.evals hρ.left) (hs.laters hρ.left) hr,
    .fold (he.evals hρ.right) (hb.laters hρ.right) (ht.evals hρ.right) (hs.laters hρ.right) hr', hrr⟩

/-! ## Inductions -/

omit hΘ in
/-- A motive that is put off gives what its value gives. -/
theorem calls {v D : Value} {ρ : Env} (h : Θ.Has 𝒯 m) (hρ : Θ.Fills ρ) :
    Calls (m.later ρ) v D ↔ Calls (m.value ρ) v D :=
  ⟨fun hD => hD.of_coincides (h.coincides hρ).symm, fun hD => hD.of_coincides (h.coincides hρ)⟩

omit hΘ in
theorem callsBoth {v u D : Value} {ρ : Env} (h : Θ.Has 𝒯 m) (hρ : Θ.Fills ρ) :
    CallsBoth (m.later ρ) v u D ↔ CallsBoth (m.value ρ) v u D :=
  ⟨fun hD => hD.of_coincides (h.coincides hρ).symm, fun hD => hD.of_coincides (h.coincides hρ)⟩

theorem indNat (ht : Θ.Has (fun _ => .nat) t) (hm : Θ.Has (fun _ => .natMotive) m)
    (hb : Θ.Has (.call m.value fun _ => .zero) b)
    (hs : Θ.Has (fun ρ => .indNatStep (m.value ρ)) s) :
    Θ.Has (.call m.value t.value) (.induct .indNat t m b s) := by
  have hs : Θ.Has (fun ρ => .indNatStep (m.later ρ)) s :=
    hs.conv hΘ (fun {I _ _ _} hρ => I.lawful.indNatStep (hm.later hρ))
      (.indNatStep (hm.elEq_later hΘ hΘ.identity))
  refine .intro hΘ fun {I _ _ _} hρ => ?_
  have hl := hρ.left
  have hr := hρ.right
  obtain ⟨Z, Z', hZ, hZ', _⟩ := I.lawful.motive (hm.member hρ) I.lawful.zero
  have hb' := hb.later hρ
  rw [Dependent.call_eq hZ, Dependent.call_eq hZ'] at hb'
  obtain ⟨v, v', D, D', hv, hv', hD, hD', hvv⟩ := Interpretation.indNat (ht.member hρ) (hm.later hρ)
    ((hm.calls hl).2 hZ) ((hm.calls hr).2 hZ') hb' (hs.later hρ)
  rw [Dependent.call_eq ((hm.calls hl).1 hD), Dependent.call_eq ((hm.calls hr).1 hD')]
  exact ⟨v, v', .induct (ht.evals hl) (hm.laters hl) (hb.laters hl) (hs.laters hl) hv,
    .induct (ht.evals hr) (hm.laters hr) (hb.laters hr) (hs.laters hr) hv', hvv⟩

theorem indList (ht : Θ.Has (fun ρ => .list (ℰ ρ)) t) (hE : Θ.IsFamily .large ℰ)
    (hm : Θ.Has (fun ρ => .listMotive (ℰ ρ)) m) (hb : Θ.Has (.call m.value fun _ => .nil) b)
    (hs : Θ.Has (fun ρ => .indListStep (ℰ ρ) (m.value ρ)) s) :
    Θ.Has (.call m.value t.value) (.induct .indList t m b s) := by
  have hs : Θ.Has (fun ρ => .indListStep (ℰ ρ) (m.later ρ)) s :=
    hs.conv hΘ (fun {I _ _ _} hρ => I.lawful.indListStep (hE hρ) (hm.later hρ))
      (.indListStep (hΘ.tyEq hE hΘ.identity) (hm.elEq_later hΘ hΘ.identity))
  refine .intro hΘ fun {I _ _ _} hρ => ?_
  have hl := hρ.left
  have hr := hρ.right
  obtain ⟨Z, Z', hZ, hZ', _⟩ := I.lawful.motive (hm.member hρ) (I.lawful.nil (hE hρ))
  have hb' := hb.later hρ
  rw [Dependent.call_eq hZ, Dependent.call_eq hZ'] at hb'
  obtain ⟨v, v', D, D', hv, hv', hD, hD', hvv⟩ := Interpretation.indList (ht.member hρ)
    (hm.later hρ) ((hm.calls hl).2 hZ) ((hm.calls hr).2 hZ') hb' (hs.later hρ)
  rw [Dependent.call_eq ((hm.calls hl).1 hD), Dependent.call_eq ((hm.calls hr).1 hD')]
  exact ⟨v, v', .induct (ht.evals hl) (hm.laters hl) (hb.laters hl) (hs.laters hl) hv,
    .induct (ht.evals hr) (hm.laters hr) (hb.laters hr) (hs.laters hr) hv', hvv⟩

/-- One case of `Either`, asked of the motive that is put off. -/
theorem eitherCase {c : Unary} (h : Θ.Has (fun ρ => .eitherCase c (𝒮 ρ) (m.value ρ)) e)
    (h𝒮 : Θ.IsFamily .large 𝒮) (hm : Θ.Has (fun ρ => .simpleMotive (𝒯 ρ)) m)
    (hc : ∀ {I : Interpretation} {w : I.World} {ρ ρ' v v'}, Θ.Related I w ρ ρ' →
      I.el w (𝒮 ρ) (𝒮 ρ') v v' → I.el w (𝒯 ρ) (𝒯 ρ') (.unary c v) (.unary c v')) :
    Θ.Has (fun ρ => .eitherCase c (𝒮 ρ) (m.later ρ)) e := by
  refine h.conv hΘ (isFamily_eitherCase hΘ h𝒮 hm.later hc) ?_
  exact .eitherCase (hΘ.tyEq h𝒮 hΘ.identity) (hm.elEq_later hΘ hΘ.identity)
    fun _ _ ha => (hc (hΘ.exact hΘ.identity) ⟨ha.type, ha⟩).2

theorem indEither (ht : Θ.Has (fun ρ => .either (𝓛 ρ) (𝓚 ρ)) t) (hL : Θ.IsFamily .large 𝓛)
    (hK : Θ.IsFamily .large 𝓚) (hm : Θ.Has (fun ρ => .simpleMotive (.either (𝓛 ρ) (𝓚 ρ))) m)
    (hb : Θ.Has (fun ρ => .eitherCase .left (𝓛 ρ) (m.value ρ)) b)
    (hs : Θ.Has (fun ρ => .eitherCase .right (𝓚 ρ) (m.value ρ)) s) :
    Θ.Has (.call m.value t.value) (.induct .indEither t m b s) := by
  have hb := hb.eitherCase hΘ hL hm fun {I _ _ _ _ _} hρ ha => I.lawful.left ha (hK hρ)
  have hs := hs.eitherCase hΘ hK hm fun {I _ _ _ _ _} hρ ha => I.lawful.right (hL hρ) ha
  refine .intro hΘ fun hρ => ?_
  have hl := hρ.left
  have hr := hρ.right
  obtain ⟨v, v', D, D', hv, hv', hD, hD', hvv⟩ :=
    Interpretation.indEither (ht.member hρ) (hm.later hρ) (hb.later hρ) (hs.later hρ)
  rw [Dependent.call_eq ((hm.calls hl).1 hD), Dependent.call_eq ((hm.calls hr).1 hD')]
  exact ⟨v, v', .induct (ht.evals hl) (hm.laters hl) (hb.laters hl) (hs.laters hl) hv,
    .induct (ht.evals hr) (hm.laters hr) (hb.laters hr) (hs.laters hr) hv', hvv⟩

/-- The length in the type of the target may be another one that is equal. -/
theorem indVec (hk : Θ.Has (fun _ => .nat) k) (hE : Θ.IsFamily .large ℰ)
    (ht : Θ.Has (fun ρ => .vec (ℰ ρ) (k.value ρ)) t) (hm : Θ.Has (fun ρ => .vecMotive (ℰ ρ)) m)
    (hb : Θ.Has (.callBoth m.value (fun _ => .zero) fun _ => .vecNil) b)
    (hs : Θ.Has (fun ρ => .indVecStep (ℰ ρ) (m.value ρ)) s) :
    Θ.Has (.callBoth m.value k.value t.value) (.indVec k t m b s) := by
  have hs : Θ.Has (fun ρ => .indVecStep (ℰ ρ) (m.later ρ)) s :=
    hs.conv hΘ (fun {I _ _ _} hρ => I.lawful.indVecStep (hE hρ) (hm.later hρ))
      (.indVecStep (hΘ.tyEq hE hΘ.identity) (hm.elEq_later hΘ hΘ.identity))
  have ht' : Θ.Has (fun ρ => .vec (ℰ ρ) (k.later ρ)) t :=
    ht.conv hΘ (fun {I _ _ _} hρ => I.lawful.formers.vec (hE hρ) (hk.later hρ))
      (.vec (forces_self rfl) (forces_self rfl) (hΘ.tyEq hE hΘ.identity) (hk.elEq_later hΘ hΘ.identity))
  have later : Θ.Has (.callBoth m.value k.later t.value) (.indVec k t m b s) := by
    refine .intro hΘ fun {I _ _ _} hρ => ?_
    have hl := hρ.left
    have hr := hρ.right
    obtain ⟨Z, Z', hZ, hZ', _⟩ :=
      I.lawful.vecMotive_call (hm.member hρ) I.lawful.zero (I.lawful.vecNil (hE hρ))
    have hb' := hb.later hρ
    rw [Dependent.callBoth_eq hZ, Dependent.callBoth_eq hZ'] at hb'
    obtain ⟨v, v', D, D', hv, hv', hD, hD', hvv⟩ := Interpretation.indVec (hk.later hρ)
      (ht'.member hρ) (hm.later hρ) ((hm.callsBoth hl).2 hZ) ((hm.callsBoth hr).2 hZ') hb'
      (hs.later hρ)
    rw [Dependent.callBoth_eq ((hm.callsBoth hl).1 hD), Dependent.callBoth_eq ((hm.callsBoth hr).1 hD')]
    exact ⟨v, v',
      .indVec (hk.laters hl) (ht.evals hl) (hm.laters hl) (hb.laters hl) (hs.laters hl) hv,
      .indVec (hk.laters hr) (ht.evals hr) (hm.laters hr) (hb.laters hr) (hs.laters hr) hv', hvv⟩
  obtain ⟨D, D', hD, hD', hDD⟩ := (hΘ.elEq hm.member hΘ.identity).vecMotive
    (hk.elEq_later hΘ hΘ.identity).symm (hΘ.elEq ht'.member hΘ.identity)
  refine later.conv hΘ (Member.call_vecMotive hm.member hk.member ht.member) ?_
  rw [Dependent.callBoth_eq hD, Dependent.callBoth_eq hD']
  exact hDD.lift

theorem indAbsurd (ht : Θ.Has (fun _ => .absurd) t) (hm : Θ.HasType .small m) :
    Θ.Has m.value (.indAbsurd t m) := by
  refine .intro hΘ fun hρ => ?_
  obtain ⟨v, v', hv, hv', hvv⟩ := Interpretation.indAbsurd (ht.member hρ) (hm.family hρ)
  exact ⟨v, v', .indAbsurd (ht.evals hρ.left) (hm.evals hρ.left) hv,
    .indAbsurd (ht.evals hρ.right) (hm.evals hρ.right) hv', hvv⟩

/-! ## Equality -/

theorem replace (ht : Θ.Has (fun ρ => .equal (𝒯 ρ) (𝒱 ρ) (𝒲 ρ)) t) (hv : Θ.Member 𝒯 𝒱)
    (hm : Θ.Has (fun ρ => .simpleMotive (𝒯 ρ)) m) (hb : Θ.Has (.call m.value 𝒱) b) :
    Θ.Has (.call m.value 𝒲) (.transport .replace t m b) := by
  refine .intro hΘ fun {I _ _ _} hρ => ?_
  have hl := hρ.left
  have hr := hρ.right
  obtain ⟨Z, Z', hZ, hZ', _⟩ := I.lawful.motive (hm.member hρ) (hv hρ)
  have hb' := hb.later hρ
  rw [Dependent.call_eq hZ, Dependent.call_eq hZ'] at hb'
  obtain ⟨v, v', D, D', hv, hv', hD, hD', hvv⟩ := Interpretation.replace (ht.member hρ)
    (hm.later hρ) ((hm.calls hl).2 hZ) ((hm.calls hr).2 hZ') hb'
  rw [Dependent.call_eq ((hm.calls hl).1 hD), Dependent.call_eq ((hm.calls hr).1 hD')]
  exact ⟨v, v', .transport (ht.evals hl) (hm.laters hl) (hb.laters hl) hv,
    .transport (ht.evals hr) (hm.laters hr) (hb.laters hr) hv', hvv⟩

theorem indEqual (ht : Θ.Has (fun ρ => .equal (𝒯 ρ) (𝒱 ρ) (𝒲 ρ)) t) (hv : Θ.Member 𝒯 𝒱)
    (hm : Θ.Has (fun ρ => .equalMotive (𝒯 ρ) (𝒱 ρ)) m)
    (hb : Θ.Has (.callBoth m.value 𝒱 fun ρ => .same (𝒱 ρ)) b) :
    Θ.Has (.callBoth m.value 𝒲 t.value) (.transport .indEqual t m b) := by
  refine .intro hΘ fun {I _ _ _} hρ => ?_
  have hl := hρ.left
  have hr := hρ.right
  obtain ⟨Z, Z', hZ, hZ', _⟩ :=
    I.lawful.equalMotive_call (hm.member hρ) (hv hρ) (I.lawful.same (hv hρ))
  have hb' := hb.later hρ
  rw [Dependent.callBoth_eq hZ, Dependent.callBoth_eq hZ'] at hb'
  obtain ⟨v, v', D, D', hv, hv', hD, hD', hvv⟩ := Interpretation.indEqual (ht.member hρ)
    (hm.later hρ) ((hm.callsBoth hl).2 hZ) ((hm.callsBoth hr).2 hZ') hb'
  rw [Dependent.callBoth_eq ((hm.callsBoth hl).1 hD), Dependent.callBoth_eq ((hm.callsBoth hr).1 hD')]
  exact ⟨v, v', .transport (ht.evals hl) (hm.laters hl) (hb.laters hl) hv,
    .transport (ht.evals hr) (hm.laters hr) (hb.laters hr) hv', hvv⟩

theorem trans (ha : Θ.Has (fun ρ => .equal (𝒯 ρ) (𝒱 ρ) (𝓜 ρ)) a)
    (hb : Θ.Has (fun ρ => .equal (𝒮 ρ) (𝓝 ρ) (𝒲 ρ)) b)
    (hT : ∀ {ρ}, Θ.Fills ρ → TyEq .large (𝒯 ρ) (𝒮 ρ))
    (hm : ∀ {ρ}, Θ.Fills ρ → ElEq (𝒯 ρ) (𝓜 ρ) (𝓝 ρ)) :
    Θ.Has (fun ρ => .equal (𝒯 ρ) (𝒱 ρ) (𝒲 ρ)) (.trans a b) := by
  refine .intro hΘ fun hρ => ?_
  obtain ⟨v, v', hv, hv', hvv⟩ := Interpretation.trans (ha.member hρ) (hb.member hρ) (hT hρ.left)
    (hT hρ.right) (hm hρ.left) (hm hρ.right)
  exact ⟨v, v', .trans (ha.evals hρ.left) (hb.evals hρ.left) hv,
    .trans (ha.evals hρ.right) (hb.evals hρ.right) hv', hvv⟩

/-- The function is annotated with its type; its range is one type for all arguments. -/
theorem cong (ht : Θ.Has (fun ρ => .equal (𝒯 ρ) (𝒱 ρ) (𝒲 ρ)) t) (hv : Θ.Member 𝒯 𝒱)
    (he : Θ.HasType .large e) (form : Θ.QuantForm .large .pi e.value 𝒳 𝒟 𝓡) (hf : Θ.Has e.value f)
    (hd : ∀ {ρ}, Θ.Fills ρ → TyEq .large (𝒟 ρ) (𝒯 ρ)) (h𝒮 : Θ.IsFamily .large 𝒮)
    (hR : ∀ {ρ u B}, Θ.Fills ρ → ElEq (𝒟 ρ) u u → Applies (𝓡 ρ) u B → TyEq .large B (𝒮 ρ)) :
    Θ.Has (fun ρ => .equal (𝒮 ρ) (Dependent.call f.value 𝒱 ρ) (Dependent.call f.value 𝒲 ρ))
      (.cong t (.the e f)) := by
  have hv : Θ.Member 𝒟 𝒱 := fun {I _ _ _} hρ =>
    I.lawful.general.conv (hv hρ) (hd hρ.left).symm (hd hρ.right).symm (form.domain hρ)
  -- The range at the left end is the one type, and so is every other range.
  have range : ∀ {ρ}, Θ.Fills ρ → TyEq .large (Dependent.range 𝓡 𝒱 ρ) (𝒮 ρ) := fun hρ =>
    hR hρ (hΘ.elEq hv hρ) (form.applies hΘ hv hρ)
  have ranges : ∀ {ρ}, Θ.Fills ρ → ∀ {u B}, ElEq (𝒟 ρ) u u → Applies (𝓡 ρ) u B →
      TyEq .large B (Dependent.range 𝓡 𝒱 ρ) := fun hρ _ _ hu hB =>
    (hR hρ hu hB).trans (range hρ).symm
  refine .intro hΘ fun {I _ _ _} hρ => ?_
  have hl := hρ.left
  have hr := hρ.right
  obtain ⟨v, v', u₁, u₂, u₁', u₂', hv, hv', h₁, h₂, h₁', h₂', hvv⟩ := Interpretation.cong
    (ht.member hρ) (hf.later hρ) (form.form hl) (form.form hr) (hd hl) (hd hr)
    (form.applies hΘ hv hl) (form.applies hΘ hv hr) (ranges hl) (ranges hr)
  rw [Dependent.call_eq ((hf.calls hl).1 h₁), Dependent.call_eq ((hf.calls hl).1 h₂),
    Dependent.call_eq ((hf.calls hr).1 h₁'), Dependent.call_eq ((hf.calls hr).1 h₂')]
  refine ⟨v, v', .cong (he.evals hl) (hf.laters hl) (ht.evals hl) hv,
    .cong (he.evals hr) (hf.laters hr) (ht.evals hr) hv', ?_⟩
  obtain ⟨_, _, _, h, _, hu₁, hu₂⟩ := I.lawful.formers.equal_inv (I.lawful.general.el_ty hvv)
    (forces_self rfl)
  cases h.unique (forces_self rfl)
  have ends := I.lawful.formers.equal (h𝒮 hρ)
    (I.lawful.general.conv hu₁ (range hl) (range hr) (h𝒮 hρ))
    (I.lawful.general.conv hu₂ (range hl) (range hr) (h𝒮 hρ))
  refine I.lawful.general.conv hvv ?_ ?_ ends
  · exact .equal (forces_self rfl) (forces_self rfl) (range hl) (I.lawful.general.el_left hu₁)
      (I.lawful.general.el_left hu₂)
  · exact .equal (forces_self rfl) (forces_self rfl) (range hr) (I.lawful.general.el_right hu₁)
      (I.lawful.general.el_right hu₂)

end Has

end Telescope

end TypeKernel
