/-
# TypeKernel.Proofs.Roles — normal forms under the typing rules

The rules accept normal forms as they stand, if types are compared by the equality of values
(`Discipline.semantic`). What is asked of a normal form depends on what it is the reading of: a type, an
element of a type, or a neutral form. A neutral form has a type that the rules find; an element is
accepted at every type equal to its own, since the type at which it is read back is known up to equality
only.

A normal form is also stable: its value reads back as the normal form itself. The hints for its binders are
the names it has, so this is said in the style that keeps hints (`Style.asHinted`), where the names in use
do not matter.

There is one lemma for each form, about the parts it is built from. Those for neutral forms are in
`NeutralRoles`.
-/
import TypeKernel.Proofs.Fresh
import TypeKernel.Proofs.Judged
import TypeKernel.Proofs.Motives

namespace TypeKernel

set_option autoImplicit false

/-- A renaming that changes no name. -/
def Renaming.Plain (r : Renaming) : Prop := ∀ x, r.rename x = x

theorem Renaming.plain_empty : Renaming.empty.Plain := rename_empty

theorem Renaming.Plain.extend {r : Renaming} (h : r.Plain) (y : Name) : (r.extend y y).Plain := by
  intro x
  by_cases hx : x = y
  · rw [hx, r.rename_extend_self]
  · rw [r.rename_extend_of_ne y hx, h x]

/-- The rules accept an expression as it stands. -/
def Discipline.Accepts (P : Discipline) (Γ : Context) (n : Expr) (aim : Aim) : Prop :=
  ∀ r : Renaming, r.Plain → Judged P Γ r n aim n

/-- What a normal form is the reading of. -/
inductive Role where
  /-- A type equal to `C`. -/
  | type (ℓ : Size) (C : Value)
  /-- An element of `C` equal to `u`. -/
  | value (C u : Value)
  /-- A neutral form for an element of `C` equal to `u`. -/
  | neutral (C u : Value)

namespace Role

/-- What the value of the normal form must be. -/
def Holds : Role → Value → Prop
  | .type ℓ C, v => TyEq ℓ v C
  | .value C u, v | .neutral C u, v => ElEq C v u

/-- What the rules must accept. -/
def Accepted (P : Discipline) (Γ : Context) (n : Expr) : Role → Prop
  | .type .small _ => ∃ T, Forces T .univ ∧ P.Accepts Γ n (.synth T)
  | .type .large _ => P.Accepts Γ n .isType
  | .value C _ => ∀ A, TyEq .large C A → P.Accepts Γ n (.check A)
  | .neutral C _ => ∃ T, TyEq .large T C ∧ P.Accepts Γ n (.synth T)

/-- The value of the normal form reads back as the normal form, if hints are kept. -/
def Stable (Γ : Context) (n : Expr) : Role → Prop
  | .type _ _ => ∃ v, Evals Γ.env n v ∧ Reads .asHinted Γ.names (.type v) n
  | .value C _ => ∃ v, Evals Γ.env n v ∧
      ∀ A, TyEq .large C A → Reads .asHinted Γ.names (.value A v) n
  | .neutral C _ => ∃ v T e, Evals Γ.env n v ∧ Forces v (.neutral T e) ∧ TyEq .large C T ∧
      Reads .asHinted Γ.names (.neutral e) n

/-- The rules accept a normal form under every complete discipline and, if `p` holds, it is stable. -/
structure Fits (p : Prop) (Γ : Context) (n : Expr) (role : Role) : Prop where
  accepted : ∀ {P : Discipline}, P.Complete p → role.Accepted P Γ n
  stable : p → role.Stable Γ n

/-- A normal form with a value for its role that fits. -/
structure Met (p : Prop) (role : Role) (Γ : Context) (n : Expr) : Prop where
  holds : ∃ v, Evals Γ.env n v ∧ role.Holds v
  fits : role.Fits p Γ n

end Role

namespace Role

variable {P : Discipline} {Γ : Context} {ℓ : Size} {n : Expr} {C D T u v : Value} {p : Prop}

/-! ## What the rules accept -/

namespace Accepted

theorem of_whole (h : P.Accepts Γ n ℓ.whole) : (Role.type ℓ C).Accepted P Γ n := by
  cases ℓ with
  | small => exact ⟨.univ, (forces_self rfl), h⟩
  | large => exact h

theorem part (hP : P.Complete p) (h : (Role.type ℓ C).Accepted P Γ n) : P.Accepts Γ n ℓ.part := by
  cases ℓ with
  | small =>
      obtain ⟨T, hT, h⟩ := h
      exact fun r hr => .switch (h r hr) (hP.sameType (.const rfl (forces_self rfl) hT))
  | large => exact h

theorem of_synth (hP : P.Complete p) (h : P.Accepts Γ n (.synth T)) (hT : TyEq .large C T) :
    (Role.value C u).Accepted P Γ n :=
  fun _ hA r hr => .switch (h r hr) (hP.sameType (hA.symm.trans hT))

theorem value (hP : P.Complete p) (h : (Role.neutral C u).Accepted P Γ n) :
    (Role.value C u).Accepted P Γ n := by
  obtain ⟨T, hT, h⟩ := h
  exact of_synth hP h hT.symm

end Accepted

/-! ## What a stable normal form evaluates to -/

theorem Stable.later_type (h : (Role.type ℓ C).Stable Γ n) :
    ∃ l, Laters Γ.env n l ∧ Reads .asHinted Γ.names (.type l) n := by
  obtain ⟨v, hv, hn⟩ := h
  obtain ⟨l, hl, hc⟩ := Laters.of_evals hv
  exact ⟨l, hl, hn.of_coincides_type hc⟩

theorem Stable.later (h : (Role.value C u).Stable Γ n) : ∃ l, Laters Γ.env n l ∧
    ∀ A, TyEq .large C A → Reads .asHinted Γ.names (.value A l) n := by
  obtain ⟨v, hv, hn⟩ := h
  obtain ⟨l, hl, hc⟩ := Laters.of_evals hv
  exact ⟨l, hl, fun A hA => (hn A hA).of_coincides hc⟩

namespace Met

theorem type_of_stable (h : (Role.type ℓ C).Met p Γ n) : ∃ v, Evals Γ.env n v ∧ TyEq ℓ v C ∧
    (p → Reads .asHinted Γ.names (.type v) n) := by
  obtain ⟨v, hv, hvC⟩ := h.holds
  refine ⟨v, hv, hvC, fun hp => ?_⟩
  obtain ⟨_, hv', hn⟩ := h.fits.stable hp
  cases hv.symm.trans hv'
  exact hn

theorem type (h : (Role.type ℓ C).Met p Γ n) (hp : p) : ∃ v, Evals Γ.env n v ∧ TyEq ℓ v C ∧
    Reads .asHinted Γ.names (.type v) n := by
  obtain ⟨v, hv, hvC, hn⟩ := h.type_of_stable
  exact ⟨v, hv, hvC, hn hp⟩

theorem later_type (h : (Role.type ℓ C).Met p Γ n) (hp : p) : ∃ l, Laters Γ.env n l ∧ TyEq ℓ l C ∧
    Reads .asHinted Γ.names (.type l) n := by
  obtain ⟨v, hv, hvC, hn⟩ := h.type hp
  obtain ⟨l, hl, hc⟩ := Laters.of_evals hv
  exact ⟨l, hl, hvC.form hc, hn.of_coincides_type hc⟩

theorem later (h : (Role.value C u).Met p Γ n) (hp : p) : ∃ l, Laters Γ.env n l ∧ ElEq C l u ∧
    ∀ A, TyEq .large C A → Reads .asHinted Γ.names (.value A l) n := by
  obtain ⟨v, hv, hvu⟩ := h.holds
  obtain ⟨l, hl, hn⟩ := (h.fits.stable hp).later
  obtain ⟨_, hl', hc⟩ := Laters.of_evals hv
  cases hl.symm.trans hl'
  exact ⟨l, hl, ElEq.form hvu hc, hn⟩

theorem stuck (h : (Role.neutral C u).Met p Γ n) (hp : p) : ∃ v T e, Evals Γ.env n v ∧
    Forces v (.neutral T e) ∧ TyEq .large C T ∧ ElEq C (.neutral T e) u ∧
    Reads .asHinted Γ.names (.neutral e) n := by
  obtain ⟨v, hv, hvu⟩ := h.holds
  obtain ⟨_, T, e, hv', he, hT, hn⟩ := h.fits.stable hp
  cases hv.symm.trans hv'
  exact ⟨v, T, e, hv, he, hT, ElEq.form hvu he.coincides, hn⟩

end Met

end Role

theorem Style.asHinted_annotate (t e : Expr) : Style.asHinted.annotate t e = .the t e := by
  simp [Style.annotate, Style.element, Style.asHinted]

theorem Context.get?_env_of_free {Γ : Context} {x : Name} {T : Value}
    (h : Γ.lookup x = some (.free T)) : Γ.env.get? x = some (.ofVar x T) := by
  obtain ⟨bs⟩ := Γ
  simp only [lookup, env] at h ⊢
  induction bs with
  | nil => cases h
  | cons b bs ih =>
      obtain ⟨y, b⟩ := b
      rw [List.lookup_cons] at h
      by_cases hxy : x = y
      · subst hxy
        simp only [beq_self_eq_true, Option.some.injEq] at h
        subst h
        exact Env.get?_extend_self _ x _
      · simp only [beq_false_of_ne hxy] at h
        cases b with
        | free S => exact (Env.get?_extend_of_ne _ _ fun e => hxy e.symm).trans (ih h)
        | definition S v => exact (Env.get?_extend_of_ne _ _ fun e => hxy e.symm).trans (ih h)
        | claim S => exact ih h

/-- A type whose elements are read back by their own form. -/
def Value.ReadByForm (A : Value) : Prop := ∃ A', Forces A A' ∧ A'.byForm = true

theorem TyEq.readByForm {A B : Value} (h : TyEq .large A B) (hA : A.ReadByForm) : B.ReadByForm := by
  obtain ⟨A', hA, hf⟩ := hA
  have hd := h
  obtain ⟨_, _, hd, _⟩ := hd
  cases hd with
  | const hA₁ =>
      cases hA.unique hA₁
      exact ⟨_, h.const_inv hA₁, hf⟩
  | stuck hA₁ =>
      obtain ⟨_, _, hB, _⟩ := h.stuck_inv hA₁
      exact ⟨_, hB, rfl⟩
  | list hA₁ =>
      obtain ⟨_, hB, _⟩ := h.list_inv hA₁
      exact ⟨_, hB, rfl⟩
  | vec hA₁ =>
      obtain ⟨_, _, hB, _⟩ := h.vec_inv hA₁
      exact ⟨_, hB, rfl⟩
  | either hA₁ =>
      obtain ⟨_, _, hB, _⟩ := h.either_inv hA₁
      exact ⟨_, hB, rfl⟩
  | equal hA₁ =>
      obtain ⟨_, _, _, hB, _⟩ := h.equal_inv hA₁
      exact ⟨_, hB, rfl⟩
  | @quant _ q _ _ _ _ _ _ _ _ hA₁ =>
      cases hA.unique hA₁
      cases q <;> cases hf

namespace Role.Fits

variable {P : Discipline} {Γ : Context} {ℓ : Size} {p : Prop} {n nt na nb nm ns : Expr}
  {A B C D E K T Z a b c d k l m r s t u v : Value}

/-! ## From one role to another -/

/-- At a type whose elements are read by their form, a neutral form is read as it is. -/
theorem value (h : (Role.neutral C u).Fits p Γ n) (hC : p → C.ReadByForm) :
    (Role.value C u).Fits p Γ n where
  accepted hP := (h.accepted hP).value hP
  stable hp := by
    obtain ⟨v, T, e, hv, he, _, hn⟩ := h.stable hp
    refine ⟨v, hv, fun A hA => ?_⟩
    obtain ⟨A', hA', hf⟩ := hA.readByForm (hC hp)
    exact .value hA' (.byForm hf he (.stuck hn))

theorem conv (h : (Role.value C u).Fits p Γ n) (hC : TyEq .large C D) :
    (Role.value D v).Fits p Γ n where
  accepted hP A hA := h.accepted hP A (hC.trans hA)
  stable hp := by
    obtain ⟨w, hw, hn⟩ := h.stable hp
    exact ⟨w, hw, fun A hA => hn A (hC.trans hA)⟩

theorem conv_neutral (h : (Role.neutral C u).Fits p Γ n) (hC : TyEq .large C D) :
    (Role.neutral D v).Fits p Γ n where
  accepted hP := by
    obtain ⟨T, hT, h⟩ := h.accepted hP
    exact ⟨T, hT.trans hC, h⟩
  stable hp := by
    obtain ⟨w, T, e, hw, he, hT, hn⟩ := h.stable hp
    exact ⟨w, T, e, hw, he, hC.symm.trans hT, hn⟩

theorem of_small (h : (Role.type .small C).Fits p Γ n) : (Role.value .univ C).Fits p Γ n where
  accepted hP := by
    obtain ⟨T, hT, h⟩ := h.accepted hP
    exact .of_synth hP h (.const rfl (forces_self rfl) hT)
  stable hp := by
    obtain ⟨v, hv, hn⟩ := h.stable hp
    exact ⟨v, hv, fun A hA => .value (hA.const_inv (forces_self rfl)) (.univ hn)⟩

theorem type_of_neutral (h : (Role.neutral .univ C).Fits p Γ n) : (Role.type ℓ C).Fits p Γ n where
  accepted hP := by
    obtain ⟨T, hT, h⟩ := h.accepted hP
    have hT := hT.symm.const_inv (forces_self rfl)
    cases ℓ with
    | small => exact ⟨T, hT, h⟩
    | large => exact fun r hr => .lift (h r hr) hT
  stable hp := by
    obtain ⟨v, T, e, hv, he, _, hn⟩ := h.stable hp
    exact ⟨v, hv, .type he (.stuckType hn)⟩

/-! ## Types -/

theorem const {c : Const} (hc : ℓ.has c = true) : (Role.type ℓ C).Fits p Γ (.const c) where
  accepted {P} hP := by
    have small : c.type? = some .univ → (Role.type ℓ C).Accepted P Γ (.const c) := fun h => by
      cases ℓ with
      | small => exact ⟨_, (forces_self rfl), fun _ _ => .const h⟩
      | large => exact fun _ _ => .lift (.const h) (forces_self rfl)
    cases c with
    | univ => cases ℓ with
      | small => cases hc
      | large => exact fun _ _ => .univ
    | nat | atom | trivial | absurd => exact small rfl
    | zero | sole | nil | vecNil => cases ℓ <;> cases hc
  stable _ := by
    refine ⟨_, .const c, .type (forces_self rfl) (.const ?_)⟩
    cases c <;> cases ℓ <;> first | rfl | cases hc

theorem list (h : (Role.type ℓ E).Fits p Γ n) : (Role.type ℓ C).Fits p Γ (.list n) where
  accepted hP := .of_whole fun r hr => .list ℓ ((h.accepted hP).part hP r hr)
  stable hp := by
    obtain ⟨l, hl, hn⟩ := (h.stable hp).later_type
    exact ⟨_, .unary .list hl, .type (forces_self rfl) (.list hn)⟩

theorem vec (h : (Role.type ℓ E).Fits p Γ n) (hk : (Role.value .nat k).Fits p Γ nt) :
    (Role.type ℓ C).Fits p Γ (.vec n nt) where
  accepted hP := .of_whole fun r hr =>
    .vec ℓ ((h.accepted hP).part hP r hr) (hk.accepted hP _ .nat r hr)
  stable hp := by
    obtain ⟨l, hl, hn⟩ := (h.stable hp).later_type
    obtain ⟨j, hj, hnk⟩ := (hk.stable hp).later
    exact ⟨_, .binary .vec hl hj, .type (forces_self rfl) (.vec hn (hnk _ .nat))⟩

theorem either (h : (Role.type ℓ A).Fits p Γ n) (h' : (Role.type ℓ B).Fits p Γ nt) :
    (Role.type ℓ C).Fits p Γ (.either n nt) where
  accepted hP := .of_whole fun r hr =>
    .either ℓ ((h.accepted hP).part hP r hr) ((h'.accepted hP).part hP r hr)
  stable hp := by
    obtain ⟨l, hl, hn⟩ := (h.stable hp).later_type
    obtain ⟨l', hl', hn'⟩ := (h'.stable hp).later_type
    exact ⟨_, .binary .either hl hl', .type (forces_self rfl) (.either hn hn')⟩

theorem equal (h : (Role.type ℓ K).Met p Γ n) (ha : (Role.value K a).Fits p Γ na)
    (hb : (Role.value K b).Fits p Γ nb) : (Role.type ℓ C).Fits p Γ (.equal n na nb) where
  accepted hP := by
    obtain ⟨T, hT, hTK⟩ := h.holds
    exact .of_whole fun r hr => .equal ℓ ((h.fits.accepted hP).part hP r hr) hT
      (ha.accepted hP T hTK.lift.symm r hr) (hb.accepted hP T hTK.lift.symm r hr)
  stable hp := by
    obtain ⟨T, hT, hTK, hn⟩ := h.later_type hp
    obtain ⟨i, hi, hna⟩ := (ha.stable hp).later
    obtain ⟨j, hj, hnb⟩ := (hb.stable hp).later
    exact ⟨_, .equal hT hi hj, .type (forces_self rfl)
      (.equal hn (hna T hTK.lift.symm) (hnb T hTK.lift.symm))⟩

theorem quant {q : Quantifier} {y : Name} (hy : y ∉ Γ.names) (h : (Role.type ℓ d).Met p Γ n)
    (hB : ∀ D, TyEq ℓ D d → ∃ B, (Role.type ℓ B).Fits p (Γ.bindFree y D) nb) :
    (Role.type ℓ C).Fits p Γ (.quant q y n nb) where
  accepted hP := by
    obtain ⟨D, hD, hDd⟩ := h.holds
    obtain ⟨B, hB⟩ := hB D hDd
    exact .of_whole fun r hr => .quant ℓ ((h.fits.accepted hP).part hP r hr) hD (Context.pick_of_notMem hy)
      ((hB.accepted hP).part hP _ (hr.extend y))
  stable hp := by
    obtain ⟨D, hD, hDd, hn⟩ := h.later_type hp
    obtain ⟨_, hB⟩ := hB D hDd
    obtain ⟨B, hB, hnb⟩ := hB.stable hp
    exact ⟨_, .quant q y nb hD, .type (forces_self rfl) (.quant rfl hn (.code hB) hnb)⟩

/-! ## Elements -/

theorem zero : (Role.value .nat v).Fits p Γ .zero where
  accepted hP := .of_synth hP (fun _ _ => .const rfl) .nat
  stable _ := ⟨_, .const .zero, fun _ hA =>
    .value (hA.const_inv (forces_self rfl)) (.byForm rfl (forces_self rfl) .zero)⟩

theorem add1 (h : (Role.value .nat a).Fits p Γ n) : (Role.value .nat v).Fits p Γ (.add1 n) where
  accepted hP := .of_synth hP (fun r hr => .add1 ((h.accepted hP) _ .nat r hr)) .nat
  stable hp := by
    obtain ⟨l, hl, hn⟩ := (h.stable hp).later
    exact ⟨_, .unary .add1 hl, fun _ hA =>
      .value (hA.const_inv (forces_self rfl)) (.byForm rfl (forces_self rfl) (.add1 (hn _ .nat)))⟩

theorem quote (a : String) : (Role.value .atom v).Fits p Γ (.quote a) where
  accepted hP :=
    .of_synth hP (fun _ _ => .quote (hP.atom a)) (.const rfl (forces_self rfl) (forces_self rfl))
  stable _ := ⟨_, .quote a, fun _ hA =>
    .value (hA.const_inv (forces_self rfl)) (.byForm rfl (forces_self rfl) (.quote a))⟩

theorem sole : (Role.value .trivial v).Fits p Γ (.const .sole) where
  accepted hP := .of_synth hP (fun _ _ => .const rfl) (.const rfl (forces_self rfl) (forces_self rfl))
  stable _ := ⟨_, .const .sole, fun _ hA => .value (hA.const_inv (forces_self rfl)) .sole⟩

theorem the_absurd (hP : P.Complete p) (h : (Role.neutral .absurd u).Accepted P Γ n) :
    P.Accepts Γ (.the .absurd n) (.synth .absurd) :=
  fun r hr => .the (.lift (.const rfl) (forces_self rfl)) (.const .absurd)
    (h.value hP _ (.const rfl (forces_self rfl) (forces_self rfl)) r hr)

theorem absurd (h : (Role.neutral .absurd u).Fits p Γ n) :
    (Role.value .absurd v).Fits p Γ (.the .absurd n) where
  accepted hP :=
    .of_synth hP (the_absurd hP (h.accepted hP)) (.const rfl (forces_self rfl) (forces_self rfl))
  stable hp := by
    obtain ⟨t, T, e, ht, he, _, hn⟩ := h.stable hp
    exact ⟨t, .the _ ht, fun A hA => .value (hA.const_inv (forces_self rfl)) (.absurd he hn)⟩

theorem nil : (Role.value (.list E) v).Fits p Γ .nil where
  accepted hP := by
    intro A hA r _
    obtain ⟨_, hA, _⟩ := hA.list_inv (forces_self rfl)
    exact .nil hA
  stable _ := by
    refine ⟨_, .const .nil, fun A hA => ?_⟩
    obtain ⟨_, hA, _⟩ := hA.list_inv (forces_self rfl)
    exact .value hA (.byForm rfl (forces_self rfl) .nil)

theorem listCons (ha : (Role.value E a).Fits p Γ na) (hs : (Role.value (.list E) s).Fits p Γ ns) :
    (Role.value (.list E) v).Fits p Γ (.listCons na ns) where
  accepted hP := by
    intro A hA r hr
    obtain ⟨E', hA, hE⟩ := hA.list_inv (forces_self rfl)
    exact .listCons hA (ha.accepted hP E' hE r hr)
      ((hs.accepted hP) _ (.list (forces_self rfl) (forces_self rfl) hE) r hr)
  stable hp := by
    obtain ⟨i, hi, hna⟩ := (ha.stable hp).later
    obtain ⟨j, hj, hns⟩ := (hs.stable hp).later
    refine ⟨_, .binary .listCons hi hj, fun A hA => ?_⟩
    obtain ⟨E', hA, hE⟩ := hA.list_inv (forces_self rfl)
    exact .value hA (.byForm rfl (forces_self rfl)
      (.listCons (hna E' hE) (hns _ (.list (forces_self rfl) (forces_self rfl) hE))))

theorem vecNil (hk : Forces k .zero) : (Role.value (.vec E k) v).Fits p Γ .vecNil where
  accepted hP := by
    intro A hA r _
    obtain ⟨_, _, hA, _, hkk⟩ := hA.vec_inv (forces_self rfl)
    exact .vecNil hA (hP.same (hkk.form hk.coincides))
  stable _ := by
    refine ⟨_, .const .vecNil, fun A hA => ?_⟩
    obtain ⟨_, _, hA, _, _⟩ := hA.vec_inv (forces_self rfl)
    exact .value hA (.byForm rfl (forces_self rfl) .vecNil)

/-- A type of vectors that are not empty. -/
theorem vec_type (hT : TyEq .large C T) (hC : Forces C (.vec E k)) (hk : Forces k (.add1 m)) :
    ∃ E' k' m', Forces T (.vec E' k') ∧ Forces k' (.add1 m') ∧ TyEq .large E E' ∧ ElEq .nat m m' := by
  obtain ⟨E', k', hT, hE, hkk⟩ := hT.vec_inv hC
  obtain ⟨m', hk', hmm⟩ := ((ElEq.nat_iff (forces_self rfl)).1 hkk).add1_inv hk
  exact ⟨E', k', m', hT, hk', hE, (ElEq.nat_iff (forces_self rfl)).2 hmm⟩

theorem vecCons (hk : Forces k (.add1 m)) (ha : (Role.value E a).Fits p Γ na)
    (hs : (Role.value (.vec E m) s).Fits p Γ ns) :
    (Role.value (.vec E k) v).Fits p Γ (.vecCons na ns) where
  accepted hP := by
    intro A hA r hr
    obtain ⟨E', k', m', hA, hk', hE, hm⟩ := vec_type hA (forces_self rfl) hk
    exact .vecCons hA hk' (ha.accepted hP E' hE r hr)
      ((hs.accepted hP) _ (.vec (forces_self rfl) (forces_self rfl) hE hm) r hr)
  stable hp := by
    obtain ⟨i, hi, hna⟩ := (ha.stable hp).later
    obtain ⟨j, hj, hns⟩ := (hs.stable hp).later
    refine ⟨_, .binary .vecCons hi hj, fun A hA => ?_⟩
    obtain ⟨E', k', m', hA, hk', hE, hm⟩ := vec_type hA (forces_self rfl) hk
    exact .value hA (.byForm rfl (forces_self rfl)
      (.vecCons hk' (hna E' hE) (hns _ (.vec (forces_self rfl) (forces_self rfl) hE hm))))

theorem left (h : (Role.value A a).Fits p Γ n) :
    (Role.value (.either A B) v).Fits p Γ (.left n) where
  accepted hP := by
    intro T hT r hr
    obtain ⟨A', _, hT, hA, _⟩ := hT.either_inv (forces_self rfl)
    exact .left hT (h.accepted hP A' hA r hr)
  stable hp := by
    obtain ⟨l, hl, hn⟩ := (h.stable hp).later
    refine ⟨_, .unary .left hl, fun T hT => ?_⟩
    obtain ⟨A', _, hT, hA, _⟩ := hT.either_inv (forces_self rfl)
    exact .value hT (.byForm rfl (forces_self rfl) (.left (hn A' hA)))

theorem right (h : (Role.value B b).Fits p Γ n) :
    (Role.value (.either A B) v).Fits p Γ (.right n) where
  accepted hP := by
    intro T hT r hr
    obtain ⟨_, B', hT, _, hB⟩ := hT.either_inv (forces_self rfl)
    exact .right hT (h.accepted hP B' hB r hr)
  stable hp := by
    obtain ⟨l, hl, hn⟩ := (h.stable hp).later
    refine ⟨_, .unary .right hl, fun T hT => ?_⟩
    obtain ⟨_, B', hT, _, hB⟩ := hT.either_inv (forces_self rfl)
    exact .value hT (.byForm rfl (forces_self rfl) (.right (hn B' hB)))

theorem same (h : (Role.value K c).Met p Γ n) (ha : ElEq K a c) (hb : ElEq K c b) :
    (Role.value (.equal K a b) v).Fits p Γ (.same n) where
  accepted hP := by
    intro T hT r hr
    obtain ⟨K', a', b', hT, hK, haa, hbb⟩ := hT.equal_inv (forces_self rfl)
    obtain ⟨t, ht, htc⟩ := h.holds
    exact .same hT (h.fits.accepted hP K' hK r hr) ht
      (hP.same (((haa.symm.trans ha).trans htc.symm).conv hK))
      (hP.same (((htc.trans hb).trans hbb).conv hK))
  stable hp := by
    obtain ⟨l, hl, hn⟩ := (h.fits.stable hp).later
    refine ⟨_, .unary .same hl, fun T hT => ?_⟩
    obtain ⟨K', _, _, hT, hK, _⟩ := hT.equal_inv (forces_self rfl)
    exact .value hT (.byForm rfl (forces_self rfl) (.same (hn K' hK)))

/-- A function is checked, and read back, at the domain of the type that is asked for. -/
theorem lam {x y : Name} {q : Closure} (hC : Forces C (.pi x d q)) (hy : y ∉ Γ.names)
    (h : ∀ d', TyEq .large d d' → ∃ B c, Applies q (.ofVar y d') B ∧
      (Role.value B c).Fits p (Γ.bindFree y d') n) : (Role.value C v).Fits p Γ (.lam y n) := by
  have body : ∀ {A}, TyEq .large C A → ∃ z d' q' B B' c, Forces A (.pi z d' q') ∧
      Applies q' (.ofVar y d') B' ∧ TyEq .large B B' ∧ (Role.value B c).Fits p (Γ.bindFree y d') n := by
    intro A hA
    obtain ⟨z, d', q', hA, hd, hq⟩ := hA.quant_inv hC
    obtain ⟨B, c, hB, h⟩ := h d' hd
    obtain ⟨_, B', h₁, hB', hBB⟩ := hq _ _ (.reflect hd hd (.of_none (.var y) (.var y) (.var y)))
    cases hB.unique h₁
    exact ⟨z, d', q', B, B', c, hA, hB', hBB, h⟩
  refine ⟨fun hP A hA r hr => ?_, fun hp => ⟨_, .lam y n, fun A hA => ?_⟩⟩
  · obtain ⟨z, d', q', B, B', c, hA, hB', hBB, h⟩ := body hA
    exact .lam hA (Context.pick_of_notMem hy) hB' (h.accepted hP B' hBB _ (hr.extend y))
  · obtain ⟨z, d', q', B, B', c, hA, hB', hBB, h⟩ := body hA
    obtain ⟨b, hb, hn⟩ := h.stable hp
    exact .value hA (.lam (forces_self rfl) rfl hB' (.lam (forces_self rfl) (.code hb)) (hn B' hBB))

theorem cons {x : Name} {q : Closure} (hC : Forces C (.sigma x d q))
    (ha : (Role.value d a).Met p Γ na) (hB : Applies q a B) (hb : (Role.value B b).Fits p Γ nb) :
    (Role.value C v).Fits p Γ (.cons na nb) where
  accepted hP := by
    intro A hA r hr
    obtain ⟨z, d', q', hA, hd, hq⟩ := hA.quant_inv hC
    obtain ⟨t, ht, hta⟩ := ha.holds
    obtain ⟨_, B', h₁, hB', hBB⟩ := hq _ _ hta.symm
    cases hB.unique h₁
    exact .cons hA (ha.fits.accepted hP d' hd r hr) ht hB' (hb.accepted hP B' hBB r hr)
  stable hp := by
    obtain ⟨i, hi, hia, hna⟩ := ha.later hp
    obtain ⟨j, hj, hnb⟩ := (hb.stable hp).later
    refine ⟨_, .binary .cons hi hj, fun A hA => ?_⟩
    obtain ⟨z, d', q', hA, hd, hq⟩ := hA.quant_inv hC
    obtain ⟨_, B', h₁, hB', hBB⟩ := hq _ _ hia.symm
    cases hB.unique h₁
    exact .value hA (.cons (Cars.cons (forces_self rfl)) (Cdrs.cons (forces_self rfl)) (hna d' hd) hB'
      (hnb B' hBB))

end Role.Fits

end TypeKernel
