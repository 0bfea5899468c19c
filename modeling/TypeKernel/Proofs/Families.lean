/-
# TypeKernel.Proofs.Families — types and elements for all values of the variables

An expression has a type over a telescope if it has a value for all values of the variables, and related
ones for related values (`Telescope.Has`); likewise for expressions that are types (`Telescope.HasType`).
This module has the rules for type formers and constructors; `FamilyEliminators` has those for
eliminators.
-/
import TypeKernel.Proofs.Telescopes

namespace TypeKernel

set_option autoImplicit false

/-- The range of a quantified type at an element of its domain. -/
noncomputable def Dependent.range (𝓡 : Env → Closure) (𝒱 : Dependent) : Dependent := fun ρ =>
  settle (answer (.apply (𝓡 ρ) (𝒱 ρ)))

/-- The range of a quantified type, at the newest variable. -/
noncomputable def Dependent.body (𝓡 : Env → Closure) : Dependent
  | .empty => .univ
  | .extend ρ _ a => settle (answer (.apply (𝓡 ρ) a))

/-- What does not depend on the newest variable. -/
def Dependent.weaken (𝒱 : Dependent) : Dependent
  | .empty => .univ
  | .extend ρ _ _ => 𝒱 ρ

/-- The value of the newest variable. -/
def Dependent.newest : Dependent
  | .empty => .univ
  | .extend _ _ a => a

namespace Telescope

/-- An expression with a type, for all values of the variables. -/
structure Has (Θ : Telescope) (𝒯 : Dependent) (e : Expr) : Prop where
  evals : ∀ {ρ}, Θ.Fills ρ → Evals ρ e (e.value ρ)
  member : Θ.Member 𝒯 e.value

/-- An expression that is a type, for all values of the variables. -/
structure HasType (Θ : Telescope) (ℓ : Size) (e : Expr) : Prop where
  evals : ∀ {ρ}, Θ.Fills ρ → Evals ρ e (e.value ρ)
  family : Θ.IsFamily ℓ e.value

variable {Θ : Telescope} {Γ : Context} {ℓ : Size} {𝒜 𝒯 𝒮 𝒟 ℰ 𝓚 𝓛 𝓜 𝒱 𝒲 : Dependent} {ρ ρ' : Env}
  {𝒳 : Env → Name} {𝓡 : Env → Closure} {x y : Name} {q : Quantifier} {a b d e k t : Expr}

namespace QuantForm

variable (h : Θ.QuantForm ℓ q 𝒯 𝒳 𝒟 𝓡)

include h

theorem applies (hΘ : Θ.Describes Γ) (hv : Θ.Member 𝒟 𝒱) (hρ : Θ.Fills ρ) :
    Applies (𝓡 ρ) (𝒱 ρ) (Dependent.range 𝓡 𝒱 ρ) := by
  obtain ⟨B, _, hB, _⟩ := h.range (hΘ.exact hρ) trivial (hv (hΘ.exact hρ))
  rw [Dependent.range, settle_eq hB]
  exact hB

theorem family_range (hv : Θ.Member 𝒟 𝒱) : Θ.IsFamily ℓ (Dependent.range 𝓡 𝒱) := by
  intro I w ρ ρ' hρ
  obtain ⟨B, B', hB, hB', hBB⟩ := h.range hρ (I.lawful.general.refl w) (hv hρ)
  simp only [Dependent.range, settle_eq hB, settle_eq hB']
  exact hBB

theorem family_body : (Θ.free y 𝒟).IsFamily ℓ (.body 𝓡) := by
  intro I w ρ ρ' hρ
  cases hρ with
  | free hρ ha =>
      obtain ⟨B, B', hB, hB', hBB⟩ := h.range hρ (I.lawful.general.refl w) ha
      simp only [Dependent.body, settle_eq hB, settle_eq hB']
      exact hBB

end QuantForm

/-! ## Variables -/

theorem IsFamily.weaken (h : Θ.IsFamily ℓ 𝒯) : (Θ.free x 𝒮).IsFamily ℓ (.weaken 𝒯) := by
  intro I w ρ ρ' hρ
  cases hρ with
  | free hρ _ => exact h hρ

theorem Member.weaken (h : Θ.Member 𝒯 𝒱) : (Θ.free x 𝒮).Member (.weaken 𝒯) (.weaken 𝒱) := by
  intro I w ρ ρ' hρ
  cases hρ with
  | free hρ _ => exact h hρ

theorem Member.weaken_definition (h : Θ.Member 𝒯 𝒱) :
    (Θ.definition x 𝒮 𝒲).Member (.weaken 𝒯) (.weaken 𝒱) := by
  intro I w ρ ρ' hρ
  cases hρ with
  | definition hρ => exact h hρ

theorem member_newest : (Θ.free x 𝒯).Member (.weaken 𝒯) .newest := by
  intro I w ρ ρ' hρ
  cases hρ with
  | free _ ha => exact ha

theorem member_newest_definition (h : Θ.Member 𝒯 𝒱) :
    (Θ.definition x 𝒯 𝒱).Member (.weaken 𝒯) .newest := by
  intro I w ρ ρ' hρ
  cases hρ with
  | definition hρ => exact h hρ

theorem Describes.get (hΘ : Θ.Describes Γ) {b : Binding} (hx : Γ.lookup x = some b)
    (hb : b.isClaim = false) : ∃ 𝒯 𝒱 : Dependent, 𝒯 Γ.env = b.type ∧ Θ.Member 𝒯 𝒱 ∧
      ∀ {ρ}, Θ.Fills ρ → ρ.get? x = some (𝒱 ρ) := by
  induction hΘ with
  | empty => cases hx
  | claim _ _ ih =>
      obtain ⟨_, rfl⟩ | ⟨_, hx⟩ := lookup_cons_iff.1 hx
      · cases hb
      · exact ih hx
  | @free Θ Γ y 𝒯 _ _ _ ih =>
      obtain ⟨rfl, rfl⟩ | ⟨hne, hx⟩ := lookup_cons_iff.1 hx
      · refine ⟨.weaken 𝒯, .newest, rfl, member_newest, fun hρ => ?_⟩
        cases hρ
        exact Env.get?_extend_self _ _ _
      · obtain ⟨𝒮, 𝒱, h𝒮, hv, get⟩ := ih hx
        refine ⟨.weaken 𝒮, .weaken 𝒱, h𝒮, hv.weaken, fun hρ => ?_⟩
        cases hρ with
        | free hρ _ => exact (Env.get?_extend_of_ne _ _ hne.symm).trans (get hρ)
  | @definition Θ Γ y 𝒯 𝒰 _ _ _ hv ih =>
      obtain ⟨rfl, rfl⟩ | ⟨hne, hx⟩ := lookup_cons_iff.1 hx
      · refine ⟨.weaken 𝒯, .newest, rfl, member_newest_definition hv, fun hρ => ?_⟩
        cases hρ
        exact Env.get?_extend_self _ _ _
      · obtain ⟨𝒮, 𝒱, h𝒮, hv, get⟩ := ih hx
        refine ⟨.weaken 𝒮, .weaken 𝒱, h𝒮, hv.weaken_definition, fun hρ => ?_⟩
        cases hρ with
        | definition hρ => exact (Env.get?_extend_of_ne _ _ hne.symm).trans (get hρ)

/-! ## From values to families and back -/

theorem Has.intro (hΘ : Θ.Describes Γ) (h : ∀ {I : Interpretation} {w : I.World} {ρ ρ' : Env},
      Θ.Related I w ρ ρ' → ∃ v v', Evals ρ e v ∧ Evals ρ' e v' ∧ I.el w (𝒯 ρ) (𝒯 ρ') v v') :
    Θ.Has 𝒯 e where
  evals hρ := by
    obtain ⟨v, _, hv, _⟩ := h (hΘ.exact hρ)
    rw [Expr.value_eq hv]
    exact hv
  member hρ := by
    obtain ⟨v, v', hv, hv', hvv⟩ := h hρ
    rw [Expr.value_eq hv, Expr.value_eq hv']
    exact hvv

theorem HasType.intro (hΘ : Θ.Describes Γ) (h : ∀ {I : Interpretation} {w : I.World} {ρ ρ' : Env},
      Θ.Related I w ρ ρ' → ∃ A C, Evals ρ e A ∧ Evals ρ' e C ∧ I.ty ℓ w A C) :
    Θ.HasType ℓ e where
  evals hρ := by
    obtain ⟨v, _, hv, _⟩ := h (hΘ.exact hρ)
    rw [Expr.value_eq hv]
    exact hv
  family hρ := by
    obtain ⟨v, v', hv, hv', hvv⟩ := h hρ
    rw [Expr.value_eq hv, Expr.value_eq hv']
    exact hvv

theorem laters_of_evals (h : Evals ρ e (e.value ρ)) :
    Laters ρ e (e.later ρ) ∧ Coincides (e.value ρ) (e.later ρ) := by
  obtain ⟨l, hl, hc⟩ := Laters.of_evals h
  rw [Expr.later, settle_eq hl]
  exact ⟨hl, hc⟩

namespace Has

variable (h : Θ.Has 𝒯 e)

include h

theorem laters (hρ : Θ.Fills ρ) : Laters ρ e (e.later ρ) := (laters_of_evals (h.evals hρ)).1

theorem coincides (hρ : Θ.Fills ρ) : Coincides (e.value ρ) (e.later ρ) :=
  (laters_of_evals (h.evals hρ)).2

theorem later : Θ.Member 𝒯 e.later := fun {I _ _ _} hρ =>
  I.lawful.general.el_form (h.member hρ) (h.coincides hρ.left) (h.coincides hρ.right)

theorem family : Θ.IsFamily .large 𝒯 := Member.family h.member

theorem elEq_later (hΘ : Θ.Describes Γ) (hρ : Θ.Fills ρ) :
    ElEq (𝒯 ρ) (e.value ρ) (e.later ρ) :=
  (hΘ.elEq h.member hρ).form_right (h.coincides hρ)

theorem conv (hΘ : Θ.Describes Γ) (hS : Θ.IsFamily .large 𝒮)
    (hT : TyEq .large (𝒯 Γ.env) (𝒮 Γ.env)) : Θ.Has 𝒮 e where
  evals := h.evals
  member {I _ _ _} hρ := I.lawful.general.conv (h.member hρ)
    (hΘ.lift_tyEq h.family hS hT hρ.left) (hΘ.lift_tyEq h.family hS hT hρ.right) (hS hρ)

theorem of_form (form : ∀ {ρ}, Θ.Fills ρ → Forces (𝒯 ρ) (𝒮 ρ)) : Θ.Has 𝒮 e where
  evals := h.evals
  member hρ := Interpretation.at_forms (h.member hρ) (form hρ.left) (form hρ.right)

theorem at_form (form : ∀ {ρ}, Θ.Fills ρ → Forces (𝒮 ρ) (𝒯 ρ)) : Θ.Has 𝒮 e where
  evals := h.evals
  member hρ := Interpretation.at_coincides (h.member hρ) (form hρ.left).coincides.symm
    (form hρ.right).coincides.symm

theorem small (hT : ∀ {ρ}, Θ.Fills ρ → Forces (𝒯 ρ) .univ) : Θ.HasType .small e where
  evals := h.evals
  family {I _ _ _} hρ := (I.lawful.elements.univ (hT hρ.left) (hT hρ.right)).1 (h.member hρ)

end Has

namespace HasType

variable (h : Θ.HasType ℓ e)

include h

theorem laters (hρ : Θ.Fills ρ) : Laters ρ e (e.later ρ) := (laters_of_evals (h.evals hρ)).1

theorem coincides (hρ : Θ.Fills ρ) : Coincides (e.value ρ) (e.later ρ) :=
  (laters_of_evals (h.evals hρ)).2

theorem later : Θ.IsFamily ℓ e.later := fun {I _ _ _} hρ =>
  I.lawful.general.ty_form (h.family hρ) (h.coincides hρ.left) (h.coincides hρ.right)

theorem lift : Θ.HasType .large e := ⟨h.evals, IsFamily.lift h.family⟩

end HasType

theorem HasType.element (h : Θ.HasType .small e) : Θ.Has (fun _ => .univ) e where
  evals := h.evals
  member {I _ _ _} hρ := (I.lawful.elements.univ (forces_self rfl) (forces_self rfl)).2 (h.family hρ)

/-! ## Type formers -/

theorem isFamily_nat : Θ.IsFamily .large fun _ => .nat := fun {I _ _ _} _ => I.lawful.nat

theorem isFamily_univ : Θ.IsFamily .large fun _ => .univ := fun {I _ _ _} _ => I.lawful.univ

namespace HasType

variable (hΘ : Θ.Describes Γ)

include hΘ

theorem const {c : Const} (hc : ℓ.has c = true) : Θ.HasType ℓ (.const c) :=
  .intro hΘ fun {I _ _ _} _ => ⟨_, _, .const c, .const c, I.lawful.formers.const hc⟩

theorem list (h : Θ.HasType ℓ e) : Θ.HasType ℓ (.list e) :=
  .intro hΘ fun {I _ _ _} hρ => ⟨_, _, .unary .list (h.laters hρ.left),
    .unary .list (h.laters hρ.right), I.lawful.formers.list (h.later hρ)⟩

theorem vec (h : Θ.HasType ℓ e) (hk : Θ.Has (fun _ => .nat) k) : Θ.HasType ℓ (.vec e k) :=
  .intro hΘ fun {I _ _ _} hρ => ⟨_, _, .binary .vec (h.laters hρ.left) (hk.laters hρ.left),
    .binary .vec (h.laters hρ.right) (hk.laters hρ.right),
    I.lawful.formers.vec (h.later hρ) (hk.later hρ)⟩

theorem either (ha : Θ.HasType ℓ a) (hb : Θ.HasType ℓ b) : Θ.HasType ℓ (.either a b) :=
  .intro hΘ fun {I _ _ _} hρ => ⟨_, _, .binary .either (ha.laters hρ.left) (hb.laters hρ.left),
    .binary .either (ha.laters hρ.right) (hb.laters hρ.right),
    I.lawful.formers.either (ha.later hρ) (hb.later hρ)⟩

theorem equal (ht : Θ.HasType ℓ t) (ha : Θ.Has t.value a) (hb : Θ.Has t.value b) :
    Θ.HasType ℓ (.equal t a b) := by
  refine .intro hΘ fun {I _ _ _} hρ => ⟨_, _,
    .equal (ht.laters hρ.left) (ha.laters hρ.left) (hb.laters hρ.left),
    .equal (ht.laters hρ.right) (ha.laters hρ.right) (hb.laters hρ.right),
    I.lawful.formers.equal (ht.later hρ) ?_ ?_⟩
  · exact Interpretation.at_coincides (ha.later hρ) (ht.coincides hρ.left) (ht.coincides hρ.right)
  · exact Interpretation.at_coincides (hb.later hρ) (ht.coincides hρ.left) (ht.coincides hρ.right)

theorem quant (hd : Θ.HasType ℓ d) (hb : (Θ.free y d.value).HasType ℓ b) :
    Θ.HasType ℓ (.quant q y d b) := by
  -- An element of the domain that is put off is one of the domain.
  have extend : ∀ {I : Interpretation} {w : I.World} {ρ ρ' v u}, Θ.Related I w ρ ρ' →
      I.el w (d.later ρ) (d.later ρ') v u →
        (Θ.free y d.value).Related I w (ρ.extend y v) (ρ'.extend y u) := fun hρ hv =>
    .free hρ (Interpretation.at_coincides hv (hd.coincides hρ.left).symm
      (hd.coincides hρ.right).symm)
  have self : ∀ {ρ}, Θ.Fills ρ → TyEq ℓ (.quant q y (d.later ρ) (.code ρ y b))
      (.quant q y (d.later ρ) (.code ρ y b)) := fun hρ => by
    refine .quant (forces_self rfl) (forces_self rfl) (hΘ.tyEq hd.later hρ) fun v u hvu => ?_
    have related := extend (hΘ.exact hρ) ⟨hvu.type, hvu⟩
    exact ⟨_, _, .code (hb.evals related.left), .code (hb.evals related.right), hb.family related⟩
  refine .intro hΘ fun {I w ρ ρ'} hρ => ⟨_, _, .quant q y b (hd.laters hρ.left),
    .quant q y b (hd.laters hρ.right), ?_⟩
  refine I.lawful.formers.quant (self hρ.left) (self hρ.right) (forces_self rfl) (forces_self rfl)
    (hd.later hρ) fun hw hvu hB hB' => ?_
  have related := extend (hρ.mono hw) hvu
  cases hB.unique (.code (hb.evals related.left))
  cases hB'.unique (.code (hb.evals related.right))
  exact hb.family related

end HasType

/-- The range at an element that is put off is the range at its value. -/
theorem QuantForm.range_later (form : Θ.QuantForm .large q 𝒜 𝒳 𝒟 𝓡) (hΘ : Θ.Describes Γ)
    (hA : Θ.IsFamily .large 𝒜) (ha : Θ.Has 𝒟 a) (hρ : Θ.Fills ρ) :
    TyEq .large (Dependent.range 𝓡 a.value ρ) (Dependent.range 𝓡 a.later ρ) :=
  (hΘ.tyEq hA hρ).range (form.form hρ) (form.form hρ) (ha.elEq_later hΘ hρ)
    (form.applies hΘ ha.member hρ) (form.applies hΘ ha.later hρ)

/-- A range that is one type for all arguments in the context is so for all values of the variables. -/
theorem QuantForm.constant (form : Θ.QuantForm .large q 𝒜 𝒳 𝒟 𝓡) (hΘ : Θ.Describes Γ)
    (hS : Θ.IsFamily .large 𝒮) (h : ∀ {b B}, ElEq (𝒟 Γ.env) b b → Applies (𝓡 Γ.env) b B →
      TyEq .large B (𝒮 Γ.env)) {u B : Value} (hρ : Θ.Fills ρ) (hu : ElEq (𝒟 ρ) u u)
    (hB : Applies (𝓡 ρ) u B) : TyEq .large B (𝒮 ρ) := by
  -- The argument is a variable first.
  obtain ⟨y, hy⟩ : ∃ y, y ∉ Γ.names := ⟨_, Style.ofHints_fresh Γ.names ""⟩
  have extended : (Θ.free y 𝒟).Describes (Γ.bindFree y (𝒟 Γ.env)) := .free hΘ hy form.domain
  have here : TyEq .large (Dependent.body 𝓡 (Γ.bindFree y (𝒟 Γ.env)).env) (𝒮 Γ.env) := by
    cases extended.identity with
    | free _ hv =>
        have self : Frame.exact.el () (𝒟 Γ.env) (𝒟 Γ.env) _ _ := ⟨hv.type, hv⟩
        obtain ⟨B, _, hB, _⟩ := form.range (hΘ.exact hΘ.identity) trivial self
        have heq : Dependent.body 𝓡 (Γ.bindFree y (𝒟 Γ.env)).env = B := settle_eq hB
        exact heq ▸ h hv hB
  have there := extended.lift_tyEq form.family_body (IsFamily.weaken hS) here
    (ρ := ρ.extend y u) (.free hρ hu)
  rwa [Dependent.body, settle_eq hB] at there

/-! ## Constructors -/

namespace Has

variable (hΘ : Θ.Describes Γ)

include hΘ

theorem the (t : Expr) (h : Θ.Has 𝒯 e) : Θ.Has 𝒯 (.the t e) :=
  .intro hΘ fun hρ => ⟨_, _, .the t (h.evals hρ.left), .the t (h.evals hρ.right), h.member hρ⟩

theorem var (hv : Θ.Member 𝒯 𝒱) (get : ∀ {ρ}, Θ.Fills ρ → ρ.get? x = some (𝒱 ρ)) :
    Θ.Has 𝒯 (.var x) :=
  .intro hΘ fun hρ => ⟨_, _, .var (get hρ.left), .var (get hρ.right), hv hρ⟩

theorem zero : Θ.Has (fun _ => .nat) .zero :=
  .intro hΘ fun {I _ _ _} _ => ⟨_, _, .const .zero, .const .zero, I.lawful.zero⟩

theorem sole : Θ.Has (fun _ => .trivial) .sole :=
  .intro hΘ fun {I _ _ _} _ => ⟨_, _, .const .sole, .const .sole, I.lawful.elements.sole⟩

theorem quote (c : String) : Θ.Has (fun _ => .atom) (.quote c) :=
  .intro hΘ fun {I _ _ _} _ => ⟨_, _, .quote c, .quote c, I.lawful.elements.quote c⟩

theorem add1 (h : Θ.Has (fun _ => .nat) e) : Θ.Has (fun _ => .nat) (.add1 e) :=
  .intro hΘ fun {I _ _ _} hρ => ⟨_, _, .unary .add1 (h.laters hρ.left),
    .unary .add1 (h.laters hρ.right), I.lawful.add1 (h.later hρ)⟩

theorem nil (hE : Θ.IsFamily .large ℰ) : Θ.Has (fun ρ => .list (ℰ ρ)) .nil :=
  .intro hΘ fun {I _ _ _} hρ => ⟨_, _, .const .nil, .const .nil, I.lawful.nil (hE hρ)⟩

theorem listCons (ha : Θ.Has ℰ a) (hb : Θ.Has (fun ρ => .list (ℰ ρ)) b) :
    Θ.Has (fun ρ => .list (ℰ ρ)) (.listCons a b) :=
  .intro hΘ fun {I _ _ _} hρ => ⟨_, _, .binary .listCons (ha.laters hρ.left) (hb.laters hρ.left),
    .binary .listCons (ha.laters hρ.right) (hb.laters hρ.right),
    I.lawful.listCons (ha.later hρ) (hb.later hρ)⟩

theorem vecNil (hE : Θ.IsFamily .large ℰ) (hk : Θ.Member (fun _ => .nat) 𝓚)
    (form : ∀ {ρ}, Θ.Fills ρ → Forces (𝓚 ρ) .zero) :
    Θ.Has (fun ρ => .vec (ℰ ρ) (𝓚 ρ)) .vecNil :=
  .intro hΘ fun {I _ _ _} hρ => ⟨_, _, .const .vecNil, .const .vecNil,
    (I.lawful.elements.vec (I.lawful.formers.vec (hE hρ) (hk hρ)) (forces_self rfl) (forces_self rfl)).2
      (.nil (form hρ.left) (form hρ.right) (forces_self rfl) (forces_self rfl))⟩

theorem vecCons (hk : Θ.Member (fun _ => .nat) 𝓚) (hm : Θ.Member (fun _ => .nat) 𝓜)
    (form : ∀ {ρ}, Θ.Fills ρ → Forces (𝓚 ρ) (.add1 (𝓜 ρ))) (ha : Θ.Has ℰ a)
    (hb : Θ.Has (fun ρ => .vec (ℰ ρ) (𝓜 ρ)) b) : Θ.Has (fun ρ => .vec (ℰ ρ) (𝓚 ρ)) (.vecCons a b) := by
  refine .intro hΘ fun {I _ _ _} hρ => ⟨_, _,
    .binary .vecCons (ha.laters hρ.left) (hb.laters hρ.left),
    .binary .vecCons (ha.laters hρ.right) (hb.laters hρ.right), ?_⟩
  have whole := I.lawful.formers.vec (ha.family hρ) (hk hρ)
  have rest := I.lawful.formers.vec (ha.family hρ) (hm hρ)
  exact (I.lawful.elements.vec whole (forces_self rfl) (forces_self rfl)).2
    (.cons (form hρ.left) (form hρ.right) (forces_self rfl) (forces_self rfl) (ha.later hρ)
      ((I.lawful.elements.vec rest (forces_self rfl) (forces_self rfl)).1 (hb.later hρ)))

theorem left (hS : Θ.IsFamily .large 𝒮) (h : Θ.Has 𝒯 e) :
    Θ.Has (fun ρ => .either (𝒯 ρ) (𝒮 ρ)) (.left e) :=
  .intro hΘ fun {I _ _ _} hρ => ⟨_, _, .unary .left (h.laters hρ.left),
    .unary .left (h.laters hρ.right), I.lawful.left (h.later hρ) (hS hρ)⟩

theorem right (hT : Θ.IsFamily .large 𝒯) (h : Θ.Has 𝒮 e) :
    Θ.Has (fun ρ => .either (𝒯 ρ) (𝒮 ρ)) (.right e) :=
  .intro hΘ fun {I _ _ _} hρ => ⟨_, _, .unary .right (h.laters hρ.left),
    .unary .right (h.laters hρ.right), I.lawful.right (hT hρ) (h.later hρ)⟩

/-- Both ends are equal to the element in the context, and so for all values of the variables. -/
theorem same (hv : Θ.Member 𝒯 𝒱) (hw : Θ.Member 𝒯 𝒲) (h : Θ.Has 𝒯 e)
    (hve : ElEq (𝒯 Γ.env) (𝒱 Γ.env) (e.value Γ.env))
    (hew : ElEq (𝒯 Γ.env) (e.value Γ.env) (𝒲 Γ.env)) :
    Θ.Has (fun ρ => .equal (𝒯 ρ) (𝒱 ρ) (𝒲 ρ)) (.same e) := by
  have ends : ∀ {ρ}, Θ.Fills ρ → ElEq (𝒯 ρ) (𝒱 ρ) (e.later ρ) ∧ ElEq (𝒯 ρ) (e.later ρ) (𝒲 ρ) :=
    fun hρ => ⟨(hΘ.lift_elEq hv h.member hve hρ).trans (h.elEq_later hΘ hρ),
      (h.elEq_later hΘ hρ).symm.trans (hΘ.lift_elEq h.member hw hew hρ)⟩
  refine .intro hΘ fun {I _ _ _} hρ => ⟨_, _, .unary .same (h.laters hρ.left),
    .unary .same (h.laters hρ.right), ?_⟩
  have hT := I.lawful.formers.equal (h.family hρ) (hv hρ) (hw hρ)
  exact (I.lawful.elements.equal hT (forces_self rfl) (forces_self rfl)).2
    (.same (forces_self rfl) (forces_self rfl) ⟨h.later hρ, ends hρ.left, ends hρ.right⟩)

theorem lam (hA : Θ.IsFamily .large 𝒜) (form : Θ.QuantForm .large .pi 𝒜 𝒳 𝒟 𝓡)
    (hb : (Θ.free y 𝒟).Has (.body 𝓡) b) : Θ.Has 𝒜 (.lam y b) := by
  -- For related arguments the bodies have related values, in the ranges at the arguments.
  have body : ∀ {I : Interpretation} {w : I.World} {ρ ρ' v u}, Θ.Related I w ρ ρ' →
      I.el w (𝒟 ρ) (𝒟 ρ') v u → ∃ c c' B B', Calls (.lam y (.code ρ y b)) v c ∧
        Calls (.lam y (.code ρ' y b)) u c' ∧ Applies (𝓡 ρ) v B ∧ Applies (𝓡 ρ') u B' ∧
        I.el w B B' c c' := by
    intro I w ρ ρ' v u hρ hvu
    have related : (Θ.free y 𝒟).Related I w (ρ.extend y v) (ρ'.extend y u) := .free hρ hvu
    obtain ⟨B, B', hB, hB', _⟩ := form.range hρ (I.lawful.general.refl w) hvu
    have := hb.member related
    simp only [Dependent.body, settle_eq hB, settle_eq hB'] at this
    exact ⟨_, _, B, B', .lam (forces_self rfl) (.code (hb.evals related.left)),
      .lam (forces_self rfl) (.code (hb.evals related.right)), hB, hB', this⟩
  have self : ∀ {ρ}, Θ.Fills ρ → ElEq (𝒜 ρ) (.lam y (.code ρ y b)) (.lam y (.code ρ y b)) := by
    intro ρ hρ
    have function : FunctionIn (TyEq .large (𝒜 ρ)) (.lam y (.code ρ y b)) :=
      .inl ⟨y, _, (forces_self rfl)⟩
    refine (ElEq.pi_iff (hΘ.tyEq hA hρ) (form.form hρ)).2 ⟨function, function, fun v u hvu => ?_⟩
    obtain ⟨c, c', B, _, hc, hc', hB, _, hcc⟩ := body (hΘ.exact hρ) ⟨hvu.type, hvu⟩
    exact ⟨c, c', B, hc, hc', hB, hcc.2⟩
  refine .intro hΘ fun {I _ _ _} hρ => ⟨_, _, .lam y b, .lam y b, ?_⟩
  refine I.lawful.elements.pi_intro (hA hρ) (form.form hρ.left) (form.form hρ.right) (self hρ.left)
    (self hρ.right) fun hw hvu hc hc' hB hB' => ?_
  obtain ⟨_, _, _, _, h₁, h₂, h₃, h₄, hcc⟩ := body (hρ.mono hw) hvu
  cases hc.unique h₁
  cases hc'.unique h₂
  cases hB.unique h₃
  cases hB'.unique h₄
  exact hcc

theorem cons (hA : Θ.IsFamily .large 𝒜) (form : Θ.QuantForm .large .sigma 𝒜 𝒳 𝒟 𝓡)
    (ha : Θ.Has 𝒟 a) (hb : Θ.Has (Dependent.range 𝓡 a.value) b) : Θ.Has 𝒜 (.cons a b) := by
  have second : Θ.Member (Dependent.range 𝓡 a.later) b.later :=
    (hb.conv hΘ (form.family_range ha.later) (form.range_later hΘ hA ha hΘ.identity)).later
  have self : ∀ {ρ}, Θ.Fills ρ →
      ElEq (𝒜 ρ) (.cons (a.later ρ) (b.later ρ)) (.cons (a.later ρ) (b.later ρ)) := by
    intro ρ hρ
    have pair : PairIn (TyEq .large (𝒜 ρ)) (.cons (a.later ρ) (b.later ρ)) :=
      .inl ⟨_, _, (forces_self rfl)⟩
    exact (ElEq.sigma_iff (hΘ.tyEq hA hρ) (form.form hρ)).2 ⟨pair, pair, _, _, _, _, _,
      .cons (forces_self rfl), .cons (forces_self rfl), .cons (forces_self rfl), .cons (forces_self rfl),
      hΘ.elEq ha.later hρ, form.applies hΘ ha.later hρ, hΘ.elEq second hρ⟩
  refine .intro hΘ fun {I _ _ _} hρ => ⟨_, _,
    .binary .cons (ha.laters hρ.left) (hb.laters hρ.left),
    .binary .cons (ha.laters hρ.right) (hb.laters hρ.right), ?_⟩
  exact I.lawful.elements.sigma_intro (hA hρ) (form.form hρ.left) (form.form hρ.right)
    (self hρ.left) (self hρ.right) (.cons (forces_self rfl)) (.cons (forces_self rfl)) (.cons (forces_self rfl))
    (.cons (forces_self rfl)) (form.applies hΘ ha.later hρ.left) (form.applies hΘ ha.later hρ.right)
    (ha.later hρ) (second hρ)

end Has

end Telescope

end TypeKernel
