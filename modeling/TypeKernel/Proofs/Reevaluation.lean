/-
# TypeKernel.Proofs.Reevaluation — what a reading evaluates to

A type read back and evaluated with its variables replaced gives its instance, and so does an element;
in a scope the typing rules accept the readings. Conversely, an element that is stuck is related to
everything that its neutral form stands for. As in `Readable`, the three facts are proved together, one
type former at a time.

An element may be read back at any type equal to its own: the type at which a stuck value reads back is
recorded when the value gets stuck, and equality is all that is known of it later.
-/
import TypeKernel.Proofs.Instances
import TypeKernel.Proofs.NeutralRoles

namespace TypeKernel

set_option autoImplicit false

open Replacement

/-! ## Names avoided by the parts of an expression -/

namespace Expr

variable {Y : List Name} {e₁ e₂ e₃ e₄ e₅ : Expr}

theorem avoids_binary {b : Binary} :
    (Expr.binary b e₁ e₂).Avoids Y ↔ e₁.Avoids Y ∧ e₂.Avoids Y := by
  simp only [Avoids, occursFree, orSearch_eq_false, forall_and]

theorem avoids_equal :
    (Expr.equal e₁ e₂ e₃).Avoids Y ↔ e₁.Avoids Y ∧ e₂.Avoids Y ∧ e₃.Avoids Y := by
  simp only [Avoids, occursFree, orSearch_eq_false, forall_and]

theorem avoids_the : (Expr.the e₁ e₂).Avoids Y ↔ e₁.Avoids Y ∧ e₂.Avoids Y := by
  simp only [Avoids, occursFree, orSearch_eq_false, forall_and]

theorem avoids_app : (Expr.app e₁ e₂).Avoids Y ↔ e₁.Avoids Y ∧ e₂.Avoids Y := by
  simp only [Avoids, occursFree, orSearch_eq_false, forall_and]

theorem avoids_fold {f : Fold} :
    (Expr.fold f e₁ e₂ e₃).Avoids Y ↔ e₁.Avoids Y ∧ e₂.Avoids Y ∧ e₃.Avoids Y := by
  simp only [Avoids, occursFree, orSearch_eq_false, forall_and]

theorem avoids_induct {i : Induction} : (Expr.induct i e₁ e₂ e₃ e₄).Avoids Y ↔
    e₁.Avoids Y ∧ e₂.Avoids Y ∧ e₃.Avoids Y ∧ e₄.Avoids Y := by
  simp only [Avoids, occursFree, orSearch_eq_false, forall_and]

theorem avoids_transport {k : Transport} :
    (Expr.transport k e₁ e₂ e₃).Avoids Y ↔ e₁.Avoids Y ∧ e₂.Avoids Y ∧ e₃.Avoids Y := by
  simp only [Avoids, occursFree, orSearch_eq_false, forall_and]

theorem avoids_indAbsurd : (Expr.indAbsurd e₁ e₂).Avoids Y ↔ e₁.Avoids Y ∧ e₂.Avoids Y := by
  simp only [Avoids, occursFree, orSearch_eq_false, forall_and]

theorem avoids_indVec : (Expr.indVec e₁ e₂ e₃ e₄ e₅).Avoids Y ↔
    e₁.Avoids Y ∧ e₂.Avoids Y ∧ e₃.Avoids Y ∧ e₄.Avoids Y ∧ e₅.Avoids Y := by
  simp only [Avoids, occursFree, orSearch_eq_false, forall_and]

theorem avoids_trans : (Expr.trans e₁ e₂).Avoids Y ↔ e₁.Avoids Y ∧ e₂.Avoids Y := by
  simp only [Avoids, occursFree, orSearch_eq_false, forall_and]

theorem avoids_cong : (Expr.cong e₁ e₂).Avoids Y ↔ e₁.Avoids Y ∧ e₂.Avoids Y := by
  simp only [Avoids, occursFree, orSearch_eq_false, forall_and]

end Expr

/-! ## Postponed values -/

theorem Laters.of_equal {ρ : Env} {n : Expr} {C t u : Value} (ht : Evals ρ n t) (h : ElEq C t u) :
    ∃ l, Laters ρ n l ∧ ElEq C l u := by
  obtain ⟨l, hl, hc⟩ := Laters.of_evals ht
  exact ⟨l, hl, h.form hc⟩

theorem Laters.of_equal_type {ρ : Env} {n : Expr} {C t : Value} {ℓ : Size} (ht : Evals ρ n t)
    (h : TyEq ℓ t C) : ∃ l, Laters ρ n l ∧ TyEq ℓ l C := by
  obtain ⟨l, hl, hc⟩ := Laters.of_evals ht
  exact ⟨l, hl, h.form hc⟩

/-! ## Elements by their form -/

section Forms

variable {σ : Style} {w : Replacement σ} {A A' C E E' K K' v u : Value}

/-- The instance of a type whose elements are read by their form is one too, where variables stand for
themselves. -/
def Replacement.Plain (w : Replacement σ) (C : Value) : Prop :=
  ∀ Γ, w.scope = some Γ → w.hidden = [] → C.ReadByForm

theorem Replacement.Meets.value {n : Expr} (h : w.Meets n (.neutral C u)) (hC : w.Plain C) :
    w.Meets n (.value C u) :=
  ⟨h.holds, fun Γ hΓ => (h.fits Γ hΓ).value (hC Γ hΓ)⟩

theorem Replacement.plain_of_forces {C' : Value} (hC : Forces C C') (h : C'.byForm = true) : w.Plain C :=
  fun _ _ _ => ⟨C', hC, h⟩

/-- What a stuck type stands for is stuck. -/
theorem Replacement.Stands.plain {e : Neutral} (h : w.Stands .univ e C) : w.Plain C := by
  intro Γ hΓ hidden
  obtain ⟨n, _, hn, _⟩ := h.reads σ w.names
  have avoids : n.Avoids w.hidden := by
    rw [hidden]
    exact nofun
  obtain ⟨v, T, e', hv, he, _, hvC, _⟩ := ((h.gives (.refl w) n hn avoids).met hΓ).stuck hidden
  obtain ⟨_, _, hC, _⟩ := ((ElEq.univ_iff (forces_self rfl)).1 hvC).stuck_inv (forces_self rfl)
  exact ⟨_, hC, rfl⟩

theorem Replacement.Held.gives (h : w.Held A C v u) (hA : A'.byForm = true) (hC : w.Plain C) :
    w.Gives (.element A' v) (.value C u) := by
  obtain ⟨T, e, hv, _, he⟩ := h
  intro n hn ha
  cases hn with
  | byForm _ hv' h =>
      cases hv.unique hv'
      cases h with
      | stuck h => exact (he.gives (.refl w) n h ha).value hC
  | _ => cases hA

theorem NatGlued.gives (h : NatGlued w v u) : w.Gives (.element .nat v) (.value .nat u) := by
  induction h with
  | zero hv hu =>
      intro n hn ha
      cases hn with
      | byForm _ hv' h =>
          cases hv.unique hv'
          cases h
          exact ⟨⟨_, .const .zero, ElEq.zero.form_right hu.coincides.symm⟩, fun _ _ => .zero⟩
  | add1 hv hu _ ih =>
      intro n hn ha
      cases hn with
      | byForm _ hv' h =>
          cases hv.unique hv'
          cases h with
          | add1 h =>
              cases h with
              | value hN h =>
                  cases hN.unique (forces_self rfl)
                  obtain ⟨⟨t, ht, htu⟩, fits⟩ := ih _ h ha
                  obtain ⟨l, hl, hlu⟩ := Laters.of_equal ht htu
                  exact ⟨⟨_, .unary .add1 hl, hlu.add1.form_right hu.coincides.symm⟩,
                    fun Γ hΓ => (fits Γ hΓ).add1⟩
  | stuck h => exact h.gives rfl (plain_of_forces (forces_self rfl) rfl)

theorem AtomForm.gives (h : AtomForm (w.Held .atom .atom) v u) :
    w.Gives (.element .atom v) (.value .atom u) := by
  cases h with
  | quote hv hu =>
      intro n hn ha
      cases hn with
      | byForm _ hv' h =>
          cases hv.unique hv'
          cases h
          exact ⟨⟨_, .quote _, (ElEq.atom_iff (forces_self rfl)).2 (.quote (forces_self rfl) hu)⟩,
            fun _ _ => .quote _⟩
  | stuck h => exact h.gives rfl (plain_of_forces (forces_self rfl) rfl)

theorem ElEq.of_absurd {v u : Value} (hv : ElEq .absurd v v) (hu : ElEq .absurd u u) :
    ElEq .absurd v u :=
  (ElEq.absurd_iff (forces_self rfl)).2 ⟨((ElEq.absurd_iff (forces_self rfl)).1 hv).1,
    ((ElEq.absurd_iff (forces_self rfl)).1 hu).1⟩

/-- The variable for elements of `Absurd` does as well as any. There is none in a scope. -/
theorem Replacement.meets_element (role : Role) {n : Expr}
    (hr : ∀ v, ElEq .absurd v v → role.Holds v) (h : n.Avoids w.hidden → w.Meets n role)
    (ha : (σ.element n).Avoids w.hidden) : w.Meets (σ.element n) role := by
  unfold Style.element at ha ⊢
  cases hb : σ.impossible with
  | none =>
      simp only [hb] at ha ⊢
      exact h ha
  | some b =>
      obtain ⟨_, t, ht, hg⟩ := w.impossible b hb
      refine ⟨⟨t, .var ht, hr t hg⟩, fun Γ hΓ => ?_⟩
      cases hb.symm.trans (w.within Γ hΓ).1

theorem Replacement.Held.gives_absurd (h : w.Held .absurd .absurd v u) :
    w.Gives (.element .absurd v) (.value .absurd u) := by
  obtain ⟨T, e, hv, _, he⟩ := h
  intro n hn ha
  cases hn with
  | absurd hv' h =>
      cases hv.unique hv'
      obtain ⟨⟨t, ht, htu⟩, fits⟩ := w.meets_element (.neutral .absurd u)
        (fun _ hv => ElEq.of_absurd hv he.good) (he.gives (.refl w) _ h) (Expr.avoids_the.1 ha).2
      exact ⟨⟨t, .the _ ht, htu⟩, fun Γ hΓ => (fits Γ hΓ).absurd⟩
  | byForm hA => cases hA

theorem ListForm.gives {R : Rel} {E₁ E' : Value} (hE' : TyEq .large E' E')
    (hR : ∀ a b, R a b → w.Gives (.value E₁ a) (.value E' b))
    (h : ListForm (w.Held A (.list E')) R v u) :
    w.Gives (.element (.list E₁) v) (.value (.list E') u) := by
  have hL : TyEq .large (.list E') (.list E') := .list (forces_self rfl) (forces_self rfl) hE'
  induction h with
  | nil hv hu =>
      intro n hn ha
      cases hn with
      | byForm _ hv' h =>
          cases hv.unique hv'
          cases h
          exact ⟨⟨_, .const .nil, (ElEq.list_iff hL (forces_self rfl)).2 (.nil (forces_self rfl) hu)⟩,
            fun _ _ => .nil⟩
  | cons hv hu hab _ ih =>
      intro n hn ha
      cases hn with
      | byForm _ hv' h =>
          cases hv.unique hv'
          cases h with
          | listCons h hs =>
              obtain ⟨ha, has⟩ := Expr.avoids_binary.1 ha
              cases hs with
              | value hN hs =>
                  cases hN.unique (forces_self rfl)
                  obtain ⟨⟨t, ht, htu⟩, fits⟩ := hR _ _ hab _ h ha
                  obtain ⟨⟨ts, hts, htus⟩, fitss⟩ := ih _ hs has
                  obtain ⟨l, hl, hlu⟩ := Laters.of_equal ht htu
                  obtain ⟨ls, hls, hlus⟩ := Laters.of_equal hts htus
                  exact ⟨⟨_, .binary .listCons hl hls,
                    (hlu.listCons hlus).form_right hu.coincides.symm⟩,
                    fun Γ hΓ => (fits Γ hΓ).listCons (fitss Γ hΓ)⟩
  | stuck h => exact h.gives rfl (plain_of_forces (forces_self rfl) rfl)

/-- The length in the type shrinks with the vector. -/
theorem VecForm.gives {R : Rel} {E E₁ E' k k' : Value} (hE' : TyEq .large E' E')
    (hR : ∀ a b, R a b → w.Gives (.value E₁ a) (.value E' b))
    (h : VecForm (fun k k' => w.Held (.vec E k) (.vec E' k')) R k k' v u) :
    ∀ {k₁}, NatEq k k₁ → ElEq .nat k' k' →
      w.Gives (.element (.vec E₁ k₁) v) (.value (.vec E' k') u) := by
  induction h with
  | nil hk hk' hv hu =>
      intro k₁ _ hkk n hn ha
      cases hn with
      | byForm _ hv' h =>
          cases hv.unique hv'
          cases h
          refine ⟨⟨_, .const .vecNil, (ElEq.vec_iff ?_ (forces_self rfl)).2 (.nil hk' hk' (forces_self rfl) hu)⟩,
            fun _ _ => .vecNil hk'⟩
          exact .vec (forces_self rfl) (forces_self rfl) hE' hkk
  | cons hk hk' hv hu hab _ ih =>
      intro k₁ hkk₁ hkk n hn ha
      obtain ⟨m, hm, hkm⟩ := hkk₁.add1_inv hk
      cases hn with
      | byForm _ hv' h =>
          cases hv.unique hv'
          cases h with
          | vecCons hk₁ h hs =>
              cases hm.unique hk₁
              obtain ⟨ha, has⟩ := Expr.avoids_binary.1 ha
              obtain ⟨_, hl', hll⟩ := ((ElEq.nat_iff (forces_self rfl)).1 hkk).add1_inv hk'
              cases hl'.unique hk'
              have hll := (ElEq.nat_iff (A := .nat) (forces_self rfl)).2 hll
              cases hs with
              | value hN hs =>
                  cases hN.unique (forces_self rfl)
                  obtain ⟨⟨t, ht, htu⟩, fits⟩ := hR _ _ hab _ h ha
                  obtain ⟨⟨ts, hts, htus⟩, fitss⟩ := ih hkm hll _ hs has
                  obtain ⟨l, hl, hlu⟩ := Laters.of_equal ht htu
                  obtain ⟨ls, hls, hlus⟩ := Laters.of_equal hts htus
                  refine ⟨⟨_, .binary .vecCons hl hls, ?_⟩,
                    fun Γ hΓ => (fits Γ hΓ).vecCons hk' (fitss Γ hΓ)⟩
                  have := (ElEq.vecCons hll hlu hlus).form_right hu.coincides.symm
                  exact this.conv (.vec (forces_self rfl) (forces_self rfl) hE' (hkk.form hk'.coincides))
  | stuck h => exact fun _ _ => h.gives rfl (plain_of_forces (forces_self rfl) rfl)

theorem EitherForm.gives {L R : Rel} {l₁ r₁ l' r' : Value} (hl' : TyEq .large l' l')
    (hr' : TyEq .large r' r') (hL : ∀ a b, L a b → w.Gives (.value l₁ a) (.value l' b))
    (hR : ∀ a b, R a b → w.Gives (.value r₁ a) (.value r' b))
    (h : EitherForm (w.Held A (.either l' r')) L R v u) :
    w.Gives (.element (.either l₁ r₁) v) (.value (.either l' r') u) := by
  cases h with
  | left hv hu hab =>
      intro n hn ha
      cases hn with
      | byForm _ hv' h =>
          cases hv.unique hv'
          cases h with
          | left h =>
              obtain ⟨⟨t, ht, htu⟩, fits⟩ := hL _ _ hab _ h ha
              obtain ⟨s, hs, hsu⟩ := Laters.of_equal ht htu
              exact ⟨⟨_, .unary .left hs, (hsu.left hr').form_right hu.coincides.symm⟩,
                fun Γ hΓ => (fits Γ hΓ).left⟩
  | right hv hu hab =>
      intro n hn ha
      cases hn with
      | byForm _ hv' h =>
          cases hv.unique hv'
          cases h with
          | right h =>
              obtain ⟨⟨t, ht, htu⟩, fits⟩ := hR _ _ hab _ h ha
              obtain ⟨s, hs, hsu⟩ := Laters.of_equal ht htu
              exact ⟨⟨_, .unary .right hs, (hsu.right hl').form_right hu.coincides.symm⟩,
                fun Γ hΓ => (fits Γ hΓ).right⟩
  | stuck h => exact h.gives rfl (plain_of_forces (forces_self rfl) rfl)

theorem EqualForm.gives {R : Rel} {K₁ a₁ c₁ K' a' c' : Value}
    (hE : TyEq .large (.equal K' a' c') (.equal K' a' c'))
    (hR : ∀ a b, R a b → w.Gives (.value K₁ a) (.value K' b))
    (h : EqualForm (w.Held A (.equal K' a' c'))
      (fun a b => R a b ∧ ElEq K' a' b ∧ ElEq K' b c') v u) :
    w.Gives (.element (.equal K₁ a₁ c₁) v) (.value (.equal K' a' c') u) := by
  cases h with
  | same hv hu hab =>
      obtain ⟨hab, h₁, h₂⟩ := hab
      intro n hn ha
      cases hn with
      | byForm _ hv' h =>
          cases hv.unique hv'
          cases h with
          | same h =>
              have meets := hR _ _ hab _ h ha
              obtain ⟨t, ht, htu⟩ := meets.holds
              obtain ⟨s, hs, hsu⟩ := Laters.of_equal ht htu
              refine ⟨⟨_, .unary .same hs, (ElEq.equal_iff hE (forces_self rfl)).2 ?_⟩,
                fun Γ hΓ => .same (meets.met hΓ) h₁ h₂⟩
              exact .same (forces_self rfl) hu ⟨hsu, h₁.trans hsu.symm, hsu.trans h₂⟩
  | stuck h => exact h.gives rfl (plain_of_forces (forces_self rfl) rfl)

end Forms

/-! ## Neutral forms of variables, functions and pairs -/

namespace Replacement

variable {σ : Style} {w : Replacement σ} {C d d' a b c B T u : Value} {e : Neutral} {x : Name}
  {r : Closure}

/-- A variable stands for the value that replaces it. -/
theorem stands_free {y : Name} (hy : y ∈ w.names) (hv : w.env.get? y = some a) (ha : ElEq d a a)
    (hs : ∀ Γ, w.scope = some Γ → ∃ T, Γ.lookup y = some (.free T) ∧ TyEq .large T d) :
    w.Stands d (.var y) a where
  reads := .of_none (.var y) (.var y) (.var y)
  good := ha
  gives hw n hn _ := by
    cases hn
    refine ⟨⟨a, .var ((hw.env y hy).trans hv), ha⟩, fun Γ hΓ => ?_⟩
    obtain ⟨Γ₀, h₀, kept⟩ := hw.scope Γ hΓ
    obtain ⟨T, hT, hTd⟩ := hs Γ₀ h₀
    exact .var (kept y _ hT) hTd

theorem stands_var {y : Name} (hy : y ∉ w.names) (ha : ElEq d a a) :
    (w.extend y a hy).Stands d (.var y) a :=
  stands_free (.head _) (Env.get?_extend_self w.env y a) ha nofun

/-- A new variable of a scope stands for itself. -/
theorem stands_bind {y : Name} (hy : y ∉ w.names) (hT : TyEq .large d T) :
    (w.bind y T hy).Stands d (.var y) (.ofVar y T) := by
  refine stands_free (.head _) (Env.get?_extend_self w.env y _)
    (.reflect hT hT (.of_none (.var y) (.var y) (.var y))) fun Γ hΓ => ?_
  obtain ⟨Γ₀, _, rfl⟩ := Option.map_eq_some_iff.1 hΓ
  exact ⟨T, (Γ₀.lookup_bindFree y T y).trans (if_pos rfl), hT.symm⟩

/-- The application of a neutral form stands for the value of what the form stands for. -/
theorem Stands.app (h : w.Stands C e u) (hC : Forces C (.pi x d' r))
    (hr : Agree (.value d a) (.value d a))
    (ha : ∀ {w'}, w.Le w' → w'.Gives (.value d a) (.value d' b)) (hb : ElEq d' b b)
    (hc : Calls u b c) (hB : Applies r b B) : w.Stands B (.app e (.mk d a)) c where
  reads := h.reads.of_two (fun _ f a => .app f a) .app .app hr
  good := h.good.of_calls hC hb hc hc hB
  gives hw n hn hav := by
    cases hn with
    | app hf ha₁ =>
        obtain ⟨hav, hav'⟩ := Expr.avoids_app.1 hav
        obtain ⟨⟨f, hf, hfu⟩, fits⟩ := h.gives hw _ hf hav
        have meets := ha hw _ ha₁ hav'
        obtain ⟨t, ht, htb⟩ := meets.holds
        obtain ⟨l, hl, hlb⟩ := Laters.of_equal ht htb
        obtain ⟨v, v', B', hv, hv', hB', hvv⟩ := hfu.call hC hlb
        cases hv'.unique hc
        exact ⟨⟨v, .app hf hl hv, hvv.conv (h.good.type.range hC hC hlb hB' hB)⟩,
          fun Γ hΓ => (fits Γ hΓ).app hC (meets.met hΓ) hB⟩

theorem Stands.car (h : w.Stands C e u) (hC : Forces C (.sigma x d' r)) (ha : Cars u a) :
    w.Stands d' (.proj .car e) a where
  reads := h.reads.of_one (fun _ n => .proj .car n) (.proj .car) (.proj .car)
  good := by
    obtain ⟨_, _, _, _, _, _, _, _, _, h₁, _, haa, _⟩ := (ElEq.sigma_iff h.good.type hC).1 h.good
    cases h₁.unique ha
    exact haa.refl_right
  gives hw n hn hav := by
    cases hn with
    | proj _ hn =>
        obtain ⟨⟨t, ht, htu⟩, fits⟩ := h.gives hw _ hn hav
        obtain ⟨_, _, s, _, _, _, _, hs, _, hs', _, hss, _⟩ := (ElEq.sigma_iff h.good.type hC).1 htu
        cases hs'.unique ha
        exact ⟨⟨s, .proj ht hs, hss⟩, fun Γ hΓ => (fits Γ hΓ).car hC⟩

theorem Stands.cdr (h : w.Stands C e u) (hC : Forces C (.sigma x d' r)) (ha : Cars u a)
    (hb : Cdrs u b) (hB : Applies r a B) : w.Stands B (.proj .cdr e) b where
  reads := h.reads.of_one (fun _ n => .proj .cdr n) (.proj .cdr) (.proj .cdr)
  good := (h.good.of_parts hC ha ha hb hb hB).2
  gives hw n hn hav := by
    cases hn with
    | proj _ hn =>
        have meets := h.gives hw _ hn hav
        obtain ⟨t, ht, htu⟩ := meets.holds
        obtain ⟨_, _, s, s₂, _, _, B', hs, hs₂, hs', hs₂', hss, hB', hss₂⟩ :=
          (ElEq.sigma_iff h.good.type hC).1 htu
        cases hs'.unique ha
        cases hs₂'.unique hb
        exact ⟨⟨s₂, .proj ht hs₂, hss₂.conv (h.good.type.range hC hC hss hB' hB)⟩,
          fun Γ hΓ => .cdr (meets.met hΓ) hC ha hB⟩

end Replacement

/-! ## The type formers -/

/-- Readings of a type and its elements evaluate to their instances, and stuck elements are related to
what they stand for. -/
structure Evaluable {σ : Style} (ℓ : Size) (w : Replacement σ) (A C : Value)
    (Q : Replacement σ → Rel) : Prop where
  type : ∀ {w'}, w.Le w' → w'.Gives (.type A) (.type ℓ C)
  element : ∀ {w' A' v u}, w.Le w' → TyEq .large A A' → Full A C Q w' v u →
    w'.Gives (.value A' v) (.value C u)
  reflect : ∀ {w' T e u}, w.Le w' → TyEq .large A T → w'.Stands C e u → Q w' (.neutral T e) u

namespace Evaluable

variable {σ : Style} {ℓ : Size} {w : Replacement σ} {A C : Value} {Q : Replacement σ → Rel}

/-- What the universe must satisfy for the types above it to be evaluable. -/
structure Universe {σ : Style} (ℓ : Size) (U : Option (Replacement σ → Rel)) : Prop where
  large : ∀ {Q}, U = some Q → ℓ = .large
  type : ∀ {Q}, U = some Q → ∀ {w v u}, Q w v u → w.Gives (.type v) (.type .small u)
  reflect : ∀ {Q}, U = some Q → ∀ {w T e u}, Forces T .univ → w.Stands .univ e u →
    Q w (.neutral T e) u

theorem gives_value {A' B v : Value} {role : Role} (hA : Forces A' B)
    (h : w.Gives (.element B v) role) : w.Gives (.value A' v) role := by
  intro n hn ha
  cases hn with
  | value hA' hn =>
      cases hA.unique hA'
      exact h n hn ha

theorem gives_type {A' B : Value} {role : Role} (hA : Forces A' B)
    (h : w.Gives (.former B) role) : w.Gives (.type A') role := by
  intro n hn ha
  cases hn with
  | type hA' hn =>
      cases hA.unique hA'
      exact h n hn ha

theorem gives_conv {t : Task} {D u : Value} (hC : TyEq .large C D)
    (h : w.Gives t (.value C u)) : w.Gives t (.value D u) := by
  intro n hn ha
  obtain ⟨⟨s, hs, hsu⟩, fits⟩ := h n hn ha
  exact ⟨⟨s, hs, hsu.conv hC⟩, fun Γ hΓ => (fits Γ hΓ).conv hC⟩

theorem const {U : Option (Replacement σ → Rel)} (hU : Universe ℓ U) {c : Const}
    (hA : Forces A (.const c)) (hC : Forces C (.const c)) (hQ : ConstGlued U c Q) :
    Evaluable ℓ w A C Q where
  type _ := by
    refine gives_type hA fun n hn _ => ?_
    have hc : ℓ.has c = true := by
      cases hQ with
      | univ h => rw [hU.large h]; rfl
      | _ => cases ℓ <;> rfl
    cases hn with
    | const => exact ⟨⟨_, .const c, .const hc (forces_self rfl) hC⟩, fun _ _ => .const hc⟩
  element := by
    intro w' A' v u _ hA' hvu
    refine gives_value (hA'.const_inv hA) ?_
    refine gives_conv (C := .const c) (hvu.2.1.type.form hC.coincides) ?_
    cases hQ with
    | univ h =>
        intro n hn ha
        cases hn with
        | univ hn =>
            obtain ⟨⟨t, ht, htu⟩, fits⟩ := hU.type h hvu.2.2 n hn ha
            exact ⟨⟨t, ht, (ElEq.univ_iff (forces_self rfl)).2 htu⟩, fun Γ hΓ => (fits Γ hΓ).of_small⟩
        | byForm hA => cases hA
    | nat => exact NatGlued.gives hvu.2.2
    | atom => exact AtomForm.gives hvu.2.2
    | trivial =>
        intro n hn ha
        cases hn with
        | sole =>
            have hu := (ElEq.trivial_iff hC).1 hvu.2.1
            exact ⟨⟨_, .const .sole, (ElEq.trivial_iff (forces_self rfl)).2 ⟨.inl (forces_self rfl), hu.1⟩⟩,
              fun _ _ => .sole⟩
        | byForm hA => cases hA
    | absurd => exact hvu.2.2.gives_absurd
  reflect := by
    intro w' T e u _ hT hs
    have hs' : w'.Stands (.const c) e u := hs.conv (hs.good.type.form_right hC.coincides)
    have hT' : TyEq .large (.const c) T := hT.form hA.coincides
    cases hQ with
    | univ h => exact hU.reflect h (hT.const_inv hA) hs'
    | nat | atom => exact .stuck (hs'.held hT')
    | trivial => trivial
    | absurd => exact hs'.held hT'

theorem stuck {T : Value} {e : Neutral} (hA : Forces A (.neutral T e))
    (hC : w.Stands .univ e C) : Evaluable ℓ w A C fun w => w.Held A C where
  type hw := by
    refine gives_type hA fun n hn ha => ?_
    cases hn with
    | stuckType hn =>
        obtain ⟨⟨t, ht, htC⟩, fits⟩ := hC.gives hw n hn ha
        have htC := (ElEq.univ_iff (forces_self rfl)).1 htC
        refine ⟨⟨t, ht, ?_⟩, fun Γ hΓ => (fits Γ hΓ).type_of_neutral⟩
        cases ℓ with
        | small => exact htC
        | large => exact htC.lift
  element := by
    intro w' A' v u hw hA' hvu
    obtain ⟨_, _, hA', _⟩ := hA'.stuck_inv hA
    exact gives_value hA' (hvu.2.2.gives rfl (hC.mono hw).plain)
  reflect _ hT hs := hs.held hT

theorem list {E E' : Value} (hCC : TyEq ℓ C C) (hA : Forces A (.list E))
    (hC : Forces C (.list E')) (h : Evaluable ℓ w E E' Q) :
    Evaluable ℓ w A C fun w => ListForm (w.Held A C) (Full E E' Q w) where
  type hw := by
    refine gives_type hA fun n hn ha => ?_
    cases hn with
    | list hn =>
        obtain ⟨⟨t, ht, htE⟩, fits⟩ := h.type hw _ hn ha
        obtain ⟨l, hl, hlE⟩ := Laters.of_equal_type ht htE
        exact ⟨⟨_, .unary .list hl, .list (forces_self rfl) hC hlE⟩, fun Γ hΓ => (fits Γ hΓ).list⟩
  element := by
    intro w' A' v u hw hA' hvu
    obtain ⟨E₁, hA', hE⟩ := hA'.list_inv hA
    obtain ⟨_, hC₁, hE'⟩ := hCC.list_inv hC
    cases hC₁.unique hC
    have hCL : TyEq .large C (.list E') := hCC.lift.form_right hC.coincides
    refine gives_value hA' (gives_conv hCL.symm ?_)
    refine ListForm.gives (A := A) hE'.lift (R := Full E E' Q w')
      (fun a b hab => h.element hw hE hab) ?_
    rw [← held_congr hvu.1.type hCL]
    exact hvu.2.2
  reflect _ hT hs := .stuck (hs.held hT)

theorem vec {E E' k k' : Value} (hCC : TyEq ℓ C C)
    (hA : Forces A (.vec E k)) (hC : Forces C (.vec E' k')) (h : Evaluable ℓ w E E' Q)
    (hk : NatGlued w k k') : Evaluable ℓ w A C fun w =>
      VecForm (fun k k' => w.Held (.vec E k) (.vec E' k')) (Full E E' Q w) k k' where
  type := by
    intro w' hw
    refine gives_type hA fun n hn ha => ?_
    cases hn with
    | vec hn hnk =>
        obtain ⟨ha, hak⟩ := Expr.avoids_binary.1 ha
        obtain ⟨⟨t, ht, htE⟩, fits⟩ := h.type hw _ hn ha
        obtain ⟨⟨s, hs, hsk⟩, fitsk⟩ := gives_value (forces_self rfl) (NatGlued.mono hw hk).gives _ hnk hak
        obtain ⟨l, hl, hlE⟩ := Laters.of_equal_type ht htE
        obtain ⟨m, hm, hmk⟩ := Laters.of_equal hs hsk
        exact ⟨⟨_, .binary .vec hl hm, .vec (forces_self rfl) hC hlE hmk⟩,
          fun Γ hΓ => (fits Γ hΓ).vec (fitsk Γ hΓ)⟩
  element := by
    intro w' A' v u hw hA' hvu
    obtain ⟨E₁, k₁, hA', hE, hkk⟩ := hA'.vec_inv hA
    obtain ⟨_, _, hC₁, hE', hkk'⟩ := hCC.vec_inv hC
    cases hC₁.unique hC
    refine gives_value hA' (gives_conv (hCC.lift.form hC.coincides) ?_)
    exact VecForm.gives hE'.lift (fun a b hab => h.element hw hE hab) hvu.2.2
      ((ElEq.nat_iff (forces_self rfl)).1 hkk) hkk'
  reflect := by
    intro w' T e u _ hT hs
    exact .stuck ((hs.conv (hCC.lift.form_right hC.coincides)).held (hT.form hA.coincides))

theorem either {l l' r r' : Value} {P : Replacement σ → Rel} (hCC : TyEq ℓ C C)
    (hA : Forces A (.either l r)) (hC : Forces C (.either l' r')) (hl : Evaluable ℓ w l l' Q)
    (hr : Evaluable ℓ w r r' P) :
    Evaluable ℓ w A C fun w => EitherForm (w.Held A C) (Full l l' Q w) (Full r r' P w) where
  type hw := by
    refine gives_type hA fun n hn ha => ?_
    cases hn with
    | either hn hn' =>
        obtain ⟨ha, ha'⟩ := Expr.avoids_binary.1 ha
        obtain ⟨⟨t, ht, htl⟩, fits⟩ := hl.type hw _ hn ha
        obtain ⟨⟨s, hs, hsr⟩, fits'⟩ := hr.type hw _ hn' ha'
        obtain ⟨_, hl₁, hll⟩ := Laters.of_equal_type ht htl
        obtain ⟨_, hr₁, hrr⟩ := Laters.of_equal_type hs hsr
        exact ⟨⟨_, .binary .either hl₁ hr₁, .either (forces_self rfl) hC hll hrr⟩,
          fun Γ hΓ => (fits Γ hΓ).either (fits' Γ hΓ)⟩
  element := by
    intro w' A' v u hw hA' hvu
    obtain ⟨l₁, r₁, hA', hl₁, hr₁⟩ := hA'.either_inv hA
    obtain ⟨_, _, hC₁, hl', hr'⟩ := hCC.either_inv hC
    cases hC₁.unique hC
    have hCE : TyEq .large C (.either l' r') := hCC.lift.form_right hC.coincides
    refine gives_value hA' (gives_conv hCE.symm ?_)
    refine EitherForm.gives (A := A) hl'.lift hr'.lift (L := Full l l' Q w') (R := Full r r' P w')
      (fun a b hab => hl.element hw hl₁ hab) (fun a b hab => hr.element hw hr₁ hab) ?_
    rw [← held_congr hvu.1.type hCE]
    exact hvu.2.2
  reflect _ hT hs := .stuck (hs.held hT)

theorem equal {K K' l l' r r' : Value} (hCC : TyEq ℓ C C) (hA : Forces A (.equal K l r))
    (hC : Forces C (.equal K' l' r')) (hK : TyEq .large K K) (h : Evaluable ℓ w K K' Q)
    (hl : ∀ {w'}, w.Le w' → Full K K' Q w' l l') (hr : ∀ {w'}, w.Le w' → Full K K' Q w' r r') :
    Evaluable ℓ w A C fun w => EqualForm (w.Held A C) fun a b => Full K K' Q w a b ∧
      (ElEq K l a ∧ ElEq K a r) ∧ ElEq K' l' b ∧ ElEq K' b r' where
  type hw := by
    refine gives_type hA fun n hn ha => ?_
    cases hn with
    | equal hnt hnl hnr =>
        obtain ⟨hat, hal, har⟩ := Expr.avoids_equal.1 ha
        have meets := h.type hw _ hnt hat
        obtain ⟨t, ht, htK⟩ := meets.holds
        obtain ⟨⟨s, hs, hsl⟩, fitsl⟩ := h.element hw hK (hl hw) _ hnl hal
        obtain ⟨⟨q, hq, hqr⟩, fitsr⟩ := h.element hw hK (hr hw) _ hnr har
        obtain ⟨_, ht₁, htt⟩ := Laters.of_equal_type ht htK
        obtain ⟨_, hs₁, hss⟩ := Laters.of_equal hs hsl
        obtain ⟨_, hq₁, hqq⟩ := Laters.of_equal hq hqr
        exact ⟨⟨_, .equal ht₁ hs₁ hq₁,
          .equal (forces_self rfl) hC htt (hss.conv htt.lift.symm) (hqq.conv htt.lift.symm)⟩,
          fun Γ hΓ => .equal (meets.met hΓ) (fitsl Γ hΓ) (fitsr Γ hΓ)⟩
  element := by
    intro w' A' v u hw hA' hvu
    obtain ⟨K₁, l₁, r₁, hA', hK₁, _, _⟩ := hA'.equal_inv hA
    have hCE : TyEq .large C (.equal K' l' r') := hCC.lift.form_right hC.coincides
    refine gives_value hA' (gives_conv hCE.symm ?_)
    refine EqualForm.gives (A := A) (R := Full K K' Q w') hCE.refl_right
      (fun a b hab => h.element hw hK₁ hab) ?_
    rw [← held_congr hvu.1.type hCE]
    exact hvu.2.2.imp (fun _ _ h => h) fun _ _ h => ⟨h.1, h.2.2⟩
  reflect _ hT hs := .stuck (hs.held hT)

section Quantified

variable {q : Quantifier} {x x' : Name} {d d' : Value} {r r' : Closure} {D : Replacement σ → Rel}
  {QB : Replacement σ → Value → Value → Replacement σ → Rel}
  (hAA : TyEq ℓ A A) (hCC : TyEq ℓ C C) (hd : Evaluable ℓ w d d' D)
  (hB : ∀ {w' a b B B'}, w.Le w' → Full d d' D w' a b → Applies r a B → Applies r' b B' →
    Evaluable ℓ w' B B' (QB w' a b))

include hd in
/-- A variable of the domain is related to the value it stands for. -/
theorem full_var {w' : Replacement σ} {d₁ a : Value} {y : Name} (hw : w.Le w')
    (hdd : TyEq .large d d₁) (ha : w'.Stands d' (.var y) a) : Full d d' D w' (.ofVar y d₁) a :=
  ⟨.reflect hdd hdd ha.reads, ha.good, hd.reflect hw hdd ha⟩

include hd hB hCC in
theorem quantType (hσ : σ.Fresh) (hA : Forces A (.quant q x d r))
    (hC : Forces C (.quant q x' d' r')) (hdd : TyEq .large d d) {w' : Replacement σ}
    (hw : w.Le w') : w'.Gives (.type A) (.type ℓ C) := by
  refine gives_type hA fun n hn ha => ?_
  cases hn with
  | @quant _ _ _ _ _ y B nd nr hy hnd hB₁ hnr =>
      have hy' : y ∉ w'.names := hy ▸ hσ w'.names x
      obtain ⟨had, har⟩ := (Expr.avoids_quant fun h => hy' (w'.used y h)).1 ha
      have meets := hd.type hw _ hnd had
      -- The body of the range is evaluated with any element of the domain for the new variable.
      have body : ∀ {w₁ : Replacement σ} {a B'}, w'.Le w₁ → w₁.names = y :: w'.names →
          w₁.hidden = w'.hidden → w₁.Stands d' (.var y) a → Applies r' a B' →
            w₁.Meets nr (.type ℓ B') := by
        intro w₁ a B' hw₁ hnames hidden hs hB'
        have hv := hd.full_var (hw.trans hw₁) hdd hs
        exact (hB (hw.trans hw₁) hv hB₁ hB').type (.refl w₁) nr (hnames ▸ hnr) (hidden ▸ har)
      obtain ⟨t, ht, htd⟩ := meets.holds
      obtain ⟨l, hl, hld⟩ := Laters.of_equal_type ht htd
      refine ⟨⟨_, .quant q y nr hl, .quant (forces_self rfl) hC hld fun a a' haa => ?_⟩, fun Γ hΓ => ?_⟩
      · have haa' := haa.conv hld.lift
        obtain ⟨B', hB'⟩ := hCC.applies hC haa'.refl_left
        obtain ⟨B'', hB''⟩ := hCC.applies hC haa'.refl_right
        obtain ⟨s, hs, hsB⟩ := (body (w'.le_extend y a hy') rfl rfl (stands_var hy' haa'.refl_left)
          hB').holds
        exact ⟨s, B'', .code hs, hB'', hsB.trans (hCC.range hC hC haa' hB' hB'')⟩
      · refine .quant (fun h => hy' ((w'.within Γ hΓ).2.2 y h)) (meets.met hΓ) fun T hT => ?_
        have hs := stands_bind hy' hT.lift.symm
        obtain ⟨B', hB'⟩ := hCC.applies hC hs.good
        refine ⟨B', (body (w'.le_bind y T hy') rfl rfl hs hB').fits _ ?_⟩
        exact congrArg (Option.map (·.bindFree y T)) hΓ

include hAA hCC hd hB in
theorem pi (hσ : σ.Fresh) (hA : Forces A (.pi x d r)) (hC : Forces C (.pi x' d' r'))
    (hm : ∀ {w₁ w₂ a b}, w.Le w₁ → w₁.Le w₂ → Full d d' D w₁ a b → Full d d' D w₂ a b) :
    Evaluable ℓ w A C (QuantGlued .pi r r' (Full d d' D) QB) where
  type hw := hd.quantType hCC hB hσ hA hC (hAA.domain hA hA).lift hw
  element := by
    intro w' A' v u hw hA' hvu
    obtain ⟨x₁, d₁, r₁, hA₁, hdd, _⟩ := hA'.quant_inv hA
    refine gives_value hA₁ fun n hn ha => ?_
    cases hn with
    | @lam _ _ _ _ _ f y B₁ b nb hf hy hB₁ hb hnb =>
        have hy' : y ∉ w'.names := hy ▸ hσ w'.names _
        have hab := (Expr.avoids_lam fun h => hy' (w'.used y h)).1 ha
        have hCC := hCC.lift
        have body : ∀ {w₁ : Replacement σ} {a c B'}, w'.Le w₁ → w₁.names = y :: w'.names →
            w₁.hidden = w'.hidden → w₁.Stands d' (.var y) a → Calls u a c → Applies r' a B' →
              w₁.Meets nb (.value B' c) := by
          intro w₁ a c B' hw₁ hnames hidden hs hc hB'
          have hv := hd.full_var (hw.trans hw₁) hdd hs
          obtain ⟨B, hB₀⟩ := hAA.applies hA hv.1
          have hbc := hvu.2.2 hw₁ hv (hb.of_coincides hf.coincides.symm) hc hB₀ hB'
          exact (hB (hw.trans hw₁) hv hB₀ hB').element (.refl w₁) (hA'.range hA hA₁ hv.1 hB₀ hB₁)
            hbc nb (hnames ▸ hnb) (hidden ▸ hab)
        refine ⟨⟨_, .lam y nb, (ElEq.pi_iff hCC hC).2 ⟨.inl ⟨y, _, (forces_self rfl)⟩, ?_, ?_⟩⟩,
          fun Γ hΓ => ?_⟩
        · exact ((ElEq.pi_iff hCC hC).1 hvu.2.1).1
        · intro a a' haa
          obtain ⟨c, c', B', hc, hc', hB', hcc⟩ := hvu.2.1.call hC haa
          obtain ⟨t, ht, htc⟩ := (body (w'.le_extend y a hy') rfl rfl (stands_var hy' haa.refl_left) hc
            hB').holds
          exact ⟨t, c', B', .lam (forces_self rfl) (.code ht), hc', hB', htc.trans hcc⟩
        · refine .lam hC (fun h => hy' ((w'.within Γ hΓ).2.2 y h)) fun T hT => ?_
          have hs := stands_bind hy' hT
          obtain ⟨c, _, B', hc, _, hB', _⟩ := hvu.2.1.call hC hs.good
          refine ⟨B', c, hB', (body (w'.le_bind y T hy') rfl rfl hs hc hB').fits _ ?_⟩
          exact congrArg (Option.map (·.bindFree y T)) hΓ
    | byForm h => cases h
  reflect := by
    intro w' T e u hw hT hs
    obtain ⟨x₁, d₁, r₁, hT₁, hdd, _⟩ := hT.quant_inv hA
    have hg := ElEq.reflect hT hT hs.reads
    intro w₁ a b c c' B B' hw₁ hab hc hc' hB₀ hB₀'
    obtain ⟨B₁, hB₁⟩ := hT.symm.applies hT₁ (hab.1.conv hdd)
    cases hc.unique (.neutral (forces_self rfl) hT₁ hB₁)
    refine ⟨hg.of_calls hA hab.1 hc hc hB₀, hs.good.of_calls hC hab.2.1 hc' hc' hB₀', ?_⟩
    refine (hB (hw.trans hw₁) hab hB₀ hB₀').reflect (.refl _) (hT.range hA hT₁ hab.1 hB₀ hB₁) ?_
    refine (hs.mono hw₁).app hC ((hab.1.conv hdd).agree hdd.refl_right) ?_ hab.2.1 hc' hB₀'
    exact fun hw₂ => hd.element ((hw.trans hw₁).trans hw₂) hdd (hm (hw.trans hw₁) hw₂ hab)

include hAA hCC hd hB in
theorem sigma (hσ : σ.Fresh) (hA : Forces A (.sigma x d r)) (hC : Forces C (.sigma x' d' r')) :
    Evaluable ℓ w A C (QuantGlued .sigma r r' (Full d d' D) QB) where
  type hw := hd.quantType hCC hB hσ hA hC (hAA.domain hA hA).lift hw
  element := by
    intro w' A' v u hw hA' hvu
    obtain ⟨x₁, d₁, r₁, hA₁, hdd, _⟩ := hA'.quant_inv hA
    refine gives_value hA₁ fun n hn ha => ?_
    have hAA := hAA.lift
    have hCC := hCC.lift
    cases hn with
    | cons ha₁ hb₁ hl hB₁ hn =>
        obtain ⟨hal, har⟩ := Expr.avoids_binary.1 ha
        obtain ⟨_, _, a', b', _, _, B', ha', hb', _, _, haa', hB', _⟩ :=
          (ElEq.sigma_iff hCC hC).1 hvu.2.1
        have hg := (ElEq.sigma_iff hAA hA).1 hvu.1
        obtain ⟨_, _, _, _, _, _, B, h₁, _, _, _, haa, hB₀, _⟩ := hg
        cases h₁.unique ha₁
        obtain ⟨hfa, hfb⟩ := hvu.2.2 ha₁ ha' hb₁ hb' hB₀ hB'
        have meets := hd.element hw hdd hfa _ hl hal
        obtain ⟨t, ht, hta⟩ := meets.holds
        obtain ⟨⟨s, hs, hsb⟩, fits⟩ := (hB hw hfa hB₀ hB').element (.refl _)
          (hA'.range hA hA₁ haa.refl_left hB₀ hB₁) hfb _ hn har
        obtain ⟨l, hl, hla⟩ := Laters.of_equal ht hta
        obtain ⟨m, hm, hmb⟩ := Laters.of_equal hs hsb
        obtain ⟨B'', hB''⟩ := hCC.applies hC hla.refl_left
        refine ⟨⟨_, .binary .cons hl hm, (ElEq.sigma_iff hCC hC).2
          ⟨.inl ⟨l, m, (forces_self rfl)⟩, ?_, ?_⟩⟩, fun Γ hΓ => .cons hC (meets.met hΓ) hB' (fits Γ hΓ)⟩
        · exact ((ElEq.sigma_iff hCC hC).1 hvu.2.1).1
        · exact ⟨l, m, a', b', B'', .cons (forces_self rfl), .cons (forces_self rfl), ha', hb', hla, hB'',
            hmb.conv (hCC.range hC hC hla.symm hB' hB'')⟩
    | byForm h => cases h
  reflect := by
    intro w' T e u hw hT hs
    obtain ⟨x₁, d₁, r₁, hT₁, hdd, _⟩ := hT.quant_inv hA
    have hg := ElEq.reflect hT hT hs.reads
    intro a a' b b' B B' ha ha' hb hb' hB₀ hB₀'
    cases ha.unique (.neutral (forces_self rfl) hT₁)
    have hca := hs.car hC ha'
    have hgp := hg.of_parts hA ha ha hb hb hB₀
    obtain ⟨B₁, hB₁⟩ := hT.symm.applies hT₁ (hgp.1.conv hdd)
    cases hb.unique (.neutral (forces_self rfl) hT₁ hB₁)
    have hfa : Full d d' D w' _ a' := ⟨hgp.1, hca.good, hd.reflect hw hdd hca⟩
    have hcb := hs.cdr hC ha' hb' hB₀'
    refine ⟨hfa, hgp.2, hcb.good, ?_⟩
    exact (hB hw hfa hB₀ hB₀').reflect (.refl _) (hT.range hA hT₁ hgp.1 hB₀ hB₁) hcb

end Quantified

end Evaluable

theorem Glued.evaluable {σ : Style} (hσ : σ.Fresh) {ℓ : Size} {U : Option (Replacement σ → Rel)}
    (hU : Universe U) (hE : Evaluable.Universe ℓ U) {w : Replacement σ} {A C : Value}
    {Q : Replacement σ → Rel} (h : Glued U w A C Q) :
    TyEq ℓ A A → TyEq ℓ C C → Evaluable ℓ w A C Q := by
  induction h with
  | const hA hC hQ => exact fun _ _ => .const hE hA hC hQ
  | stuck hA hC => exact fun _ _ => .stuck hA hC
  | list hA hC _ ih =>
      intro hAA hCC
      obtain ⟨_, h₁, hE⟩ := hAA.list_inv hA
      obtain ⟨_, h₂, hE'⟩ := hCC.list_inv hC
      cases h₁.unique hA
      cases h₂.unique hC
      exact .list hCC hA hC (ih hE hE')
  | vec hA hC _ hk ih =>
      intro hAA hCC
      obtain ⟨_, _, h₁, hE, _⟩ := hAA.vec_inv hA
      obtain ⟨_, _, h₂, hE', _⟩ := hCC.vec_inv hC
      cases h₁.unique hA
      cases h₂.unique hC
      exact .vec hCC hA hC (ih hE hE') hk
  | either hA hC _ _ ihl ihr =>
      intro hAA hCC
      obtain ⟨_, _, h₁, hl, hr⟩ := hAA.either_inv hA
      obtain ⟨_, _, h₂, hl', hr'⟩ := hCC.either_inv hC
      cases h₁.unique hA
      cases h₂.unique hC
      exact .either hCC hA hC (ihl hl hl') (ihr hr hr')
  | equal hA hC hK hl hr ih =>
      intro hAA hCC
      obtain ⟨_, _, _, h₁, hK₁, _⟩ := hAA.equal_inv hA
      obtain ⟨_, _, _, h₂, hK₁', _⟩ := hCC.equal_inv hC
      cases h₁.unique hA
      cases h₂.unique hC
      exact .equal hCC hA hC hK₁.lift (ih hK₁ hK₁') (fun hw => hK.el_mono hU (.refl _) hw hl)
        fun hw => hK.el_mono hU (.refl _) hw hr
  | @quant _ _ _ q _ _ _ _ _ _ _ _ hA hC hd hB ihd ihB =>
      intro hAA hCC
      have hd' := ihd (hAA.domain hA hA) (hCC.domain hC hC)
      have hB' := fun {w' a b B B'} hw hab h₁ h₂ => @ihB w' a b B B' hw hab h₁ h₂
        (hAA.range hA hA hab.1 h₁ h₁) (hCC.range hC hC hab.2.1 h₂ h₂)
      cases q with
      | pi => exact .pi hAA hCC hd' hB' hσ hA hC fun hw hw' hab => hd.el_mono hU hw hw' hab
      | sigma => exact .sigma hAA hCC hd' hB' hσ hA hC

end TypeKernel
