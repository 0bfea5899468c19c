/-
# TypeKernel.Proofs.Telescopes — contexts whose variables have other values

The types of a context are values, for variables that stand for themselves. To say what an expression
means when its variables have other values, types must be known as functions of these values
(`Dependent`). A telescope gives such functions for the types and the definitions of a context.

What holds of types and elements while the variables stand for themselves holds for all other values of
the variables: types keep their form, and what is equal stays equal. Both are seen by relating the
values of the context to their instances.
-/
import TypeKernel.Proofs.GluingNeutrals

namespace TypeKernel

set_option autoImplicit false

/-- Values that depend on the values of variables. -/
abbrev Dependent := Env → Value

instance : Nonempty Value := ⟨.univ⟩

instance : Nonempty Closure := ⟨.family "" (.always .univ)⟩

/-- What a computation gives, if it gives anything. -/
def settle : ByName Value → Value
  | .ok v => v
  | .error _ => .univ

theorem settle_eq {x : ByName Value} {v : Value} (h : x = .ok v) : settle x = v := by
  rw [h]
  rfl

/-- The value of an expression. -/
noncomputable def Expr.value (e : Expr) : Dependent := fun ρ => settle (answer (.eval ρ e))

/-- The value of an expression that is put off. -/
noncomputable def Expr.later (e : Expr) : Dependent := fun ρ => settle (Eval.later answer ρ e)

theorem Expr.value_eq {e : Expr} {ρ : Env} {v : Value} (h : Evals ρ e v) : e.value ρ = v :=
  settle_eq h

/-- The types and definitions of a context, as functions of the values of the variables before them. -/
inductive Telescope where
  | empty
  | free (Θ : Telescope) (x : Name) (type : Dependent)
  | definition (Θ : Telescope) (x : Name) (type value : Dependent)

namespace Telescope

/-- Environments with related values. -/
inductive Related (I : Interpretation) (w : I.World) : Telescope → Env → Env → Prop
  | empty : Related I w .empty .empty .empty
  | free {Θ x 𝒯 ρ ρ' a a'} (h : Related I w Θ ρ ρ') (ha : I.el w (𝒯 ρ) (𝒯 ρ') a a') :
      Related I w (.free Θ x 𝒯) (ρ.extend x a) (ρ'.extend x a')
  | definition {Θ x 𝒯 𝒱 ρ ρ'} (h : Related I w Θ ρ ρ') :
      Related I w (.definition Θ x 𝒯 𝒱) (ρ.extend x (𝒱 ρ)) (ρ'.extend x (𝒱 ρ'))

/-- Environments with values of the right types. -/
inductive Fills : Telescope → Env → Prop
  | empty : Fills .empty .empty
  | free {Θ x 𝒯 ρ a} (h : Fills Θ ρ) (ha : ElEq (𝒯 ρ) a a) : Fills (.free Θ x 𝒯) (ρ.extend x a)
  | definition {Θ x 𝒯 𝒱 ρ} (h : Fills Θ ρ) : Fills (.definition Θ x 𝒯 𝒱) (ρ.extend x (𝒱 ρ))

/-- Types for all values of the variables, related for related values. -/
def IsFamily (Θ : Telescope) (ℓ : Size) (𝒯 : Dependent) : Prop :=
  ∀ {I : Interpretation} {w : I.World} {ρ ρ' : Env}, Θ.Related I w ρ ρ' → I.ty ℓ w (𝒯 ρ) (𝒯 ρ')

/-- Elements of such types, related for related values. -/
def Member (Θ : Telescope) (𝒯 𝒱 : Dependent) : Prop :=
  ∀ {I : Interpretation} {w : I.World} {ρ ρ' : Env}, Θ.Related I w ρ ρ' →
    I.el w (𝒯 ρ) (𝒯 ρ') (𝒱 ρ) (𝒱 ρ')

/-- A telescope for a context: at the environment of the context, the types and values are those of the
context. Claims are not visible to evaluation. -/
inductive Describes : Telescope → Context → Prop
  | empty : Describes .empty .empty
  | claim {Θ Γ x T} (h : Describes Θ Γ) (hx : x ∉ Γ.names) : Describes Θ (Γ.bindClaim x T)
  | free {Θ Γ x 𝒯} (h : Describes Θ Γ) (hx : x ∉ Γ.names) (hT : Θ.IsFamily .large 𝒯) :
      Describes (.free Θ x 𝒯) (Γ.bindFree x (𝒯 Γ.env))
  | definition {Θ Γ x 𝒯 𝒱} (h : Describes Θ Γ) (hx : x ∉ Γ.names) (hT : Θ.IsFamily .large 𝒯)
      (hv : Θ.Member 𝒯 𝒱) :
      Describes (.definition Θ x 𝒯 𝒱) ⟨(x, .definition (𝒯 Γ.env) (𝒱 Γ.env)) :: Γ.bindings⟩

/-- A quantified type for all values of the variables, with its parts. -/
structure QuantForm (Θ : Telescope) (ℓ : Size) (q : Quantifier) (𝒯 : Dependent) (𝒳 : Env → Name)
    (𝒟 : Dependent) (𝓡 : Env → Closure) : Prop where
  domain : Θ.IsFamily ℓ 𝒟
  form : ∀ {ρ}, Θ.Fills ρ → Forces (𝒯 ρ) (.quant q (𝒳 ρ) (𝒟 ρ) (𝓡 ρ))
  range : ∀ {I : Interpretation} {w w' : I.World} {ρ ρ' a b}, Θ.Related I w ρ ρ' → I.le w w' →
    I.el w' (𝒟 ρ) (𝒟 ρ') a b → ∃ B B', Applies (𝓡 ρ) a B ∧ Applies (𝓡 ρ') b B' ∧ I.ty ℓ w' B B'

variable {Θ : Telescope} {Γ : Context} {ℓ : Size} {𝒯 𝒮 𝒱 𝒲 : Dependent} {ρ ρ' : Env}
  {I : Interpretation} {w w' : I.World}

theorem Related.mono (h : Θ.Related I w ρ ρ') (hw : I.le w w') : Θ.Related I w' ρ ρ' := by
  induction h with
  | empty => exact .empty
  | free _ ha ih => exact .free ih (I.lawful.general.el_mono ha hw)
  | definition _ ih => exact .definition ih

theorem Related.left (h : Θ.Related I w ρ ρ') : Θ.Fills ρ := by
  induction h with
  | empty => exact .empty
  | free _ ha ih => exact .free ih (I.lawful.general.el_left ha)
  | definition _ ih => exact .definition ih

theorem Related.right (h : Θ.Related I w ρ ρ') : Θ.Fills ρ' := by
  induction h with
  | empty => exact .empty
  | free _ ha ih => exact .free ih (I.lawful.general.el_right ha)
  | definition _ ih => exact .definition ih

theorem Member.family (h : Θ.Member 𝒯 𝒱) : Θ.IsFamily .large 𝒯 :=
  fun {I _ _ _} hρ => I.lawful.general.el_ty (h hρ)

theorem IsFamily.lift (h : Θ.IsFamily ℓ 𝒯) : Θ.IsFamily .large 𝒯 :=
  fun {I _ _ _} hρ => I.lawful.general.lift (h hρ)

namespace Describes

theorem exact (hΘ : Θ.Describes Γ) : ∀ {ρ}, Θ.Fills ρ → Θ.Related .exact () ρ ρ := by
  induction hΘ with
  | empty =>
      intro ρ h
      cases h
      exact .empty
  | claim _ _ ih => exact ih
  | free _ _ hT ih =>
      intro ρ h
      cases h with
      | free h ha => exact .free (ih h) ⟨hT (ih h), ha⟩
  | definition _ _ _ _ ih =>
      intro ρ h
      cases h with
      | definition h => exact .definition (ih h)

theorem tyEq (hΘ : Θ.Describes Γ) (hT : Θ.IsFamily ℓ 𝒯) (hρ : Θ.Fills ρ) : TyEq ℓ (𝒯 ρ) (𝒯 ρ) :=
  hT (hΘ.exact hρ)

theorem elEq (hΘ : Θ.Describes Γ) (hv : Θ.Member 𝒯 𝒱) (hρ : Θ.Fills ρ) :
    ElEq (𝒯 ρ) (𝒱 ρ) (𝒱 ρ) :=
  (hv (hΘ.exact hρ)).2

/-- Variables that stand for themselves are values of their types. -/
theorem identity (hΘ : Θ.Describes Γ) : Θ.Fills Γ.env := by
  induction hΘ with
  | empty => exact .empty
  | claim _ _ ih => exact ih
  | free h _ hT ih =>
      have hT := h.tyEq hT ih
      exact .free ih (.reflect hT hT (.of_none (.var _) (.var _) (.var _)))
  | definition _ _ _ _ ih => exact .definition ih

end Describes

/-! ## Instances of a context -/

section Instances

variable {σ : Style}

theorem lookup_cons_iff {x y : Name} {b c : Binding} :
    (Context.mk ((x, b) :: Γ.bindings)).lookup y = some c ↔
      y = x ∧ c = b ∨ y ≠ x ∧ Γ.lookup y = some c := by
  by_cases h : y = x <;> simp [Context.lookup, List.lookup_cons, h, beq_false_of_ne, eq_comm]

theorem lookup_behind {x y : Name} {b c : Binding} (hx : x ∉ Γ.names)
    (h : Γ.lookup y = some c) : (Context.mk ((x, b) :: Γ.bindings)).lookup y = some c := by
  exact lookup_cons_iff.2 (.inr ⟨fun e => hx (e ▸ Context.mem_names_of_lookup h), h⟩)

/-- The environment of a context is related to every environment that fills it, under a replacement of
the names by its values. In a scope, the names must stand for themselves. -/
theorem Describes.glued (hσ : σ.Fresh) (hΘ : Θ.Describes Γ) {w : Replacement σ} :
    ∀ {ρ}, Θ.Fills ρ → (∀ x ∈ Γ.names, x ∈ w.names) →
      (∀ x ∈ Γ.names, w.env.get? x = ρ.get? x) →
      (∀ Δ, w.scope = some Δ → ρ = Γ.env ∧ ∀ x b, Γ.lookup x = some b → Δ.lookup x = some b) →
      Θ.Related (.glued σ hσ) w Γ.env ρ := by
  induction hΘ with
  | empty =>
      intro ρ h _ _ _
      cases h
      exact .empty
  | claim _ hx ih =>
      intro ρ h hn he hs
      refine ih h (fun x hx => hn x (.tail _ hx)) (fun x hx => he x (.tail _ hx)) fun Δ hΔ => ?_
      obtain ⟨hρ, kept⟩ := hs Δ hΔ
      exact ⟨hρ, fun y c hy => kept y c (lookup_behind hx hy)⟩
  | @free Θ Γ x 𝒯 hΘ hx hT ih =>
      intro ρ h hn he hs
      cases h with
      | @free _ _ _ ρ a h ha =>
          have apart : ∀ y ∈ Γ.names, x ≠ y := fun y hy e => hx (e ▸ hy)
          have tail : Θ.Related (.glued σ hσ) w Γ.env ρ := by
            refine ih h (fun y hy => hn y (.tail _ hy)) (fun y hy => ?_) fun Δ hΔ => ?_
            · exact (he y (.tail _ hy)).trans (Env.get?_extend_of_ne ρ a (apart y hy))
            · obtain ⟨hρ, kept⟩ := hs Δ hΔ
              exact ⟨(Env.extend.inj hρ).1, fun y c hy => kept y c (lookup_behind hx hy)⟩
          have hTT := hΘ.tyEq hT hΘ.identity
          refine .free tail ((Interpretation.glued σ hσ).lawful.elements.reflect (hT tail) hTT ?_)
          refine Replacement.stands_free (hn x (.head _))
            ((he x (.head _)).trans (Env.get?_extend_self ρ x a)) ha fun Δ hΔ => ?_
          obtain ⟨hρ, kept⟩ := hs Δ hΔ
          refine ⟨𝒯 Γ.env, kept x _ ((Γ.lookup_bindFree x _ x).trans (if_pos rfl)), ?_⟩
          rw [(Env.extend.inj hρ).1]
          exact hTT
  | @definition Θ Γ x 𝒯 𝒱 hΘ hx hT hv ih =>
      intro ρ h hn he hs
      cases h with
      | @definition _ _ _ _ ρ h =>
          refine .definition (ih h (fun y hy => hn y (.tail _ hy)) (fun y hy => ?_) fun Δ hΔ => ?_)
          · have hne : x ≠ y := fun e => hx (e ▸ hy)
            exact (he y (.tail _ hy)).trans (Env.get?_extend_of_ne ρ _ hne)
          · obtain ⟨hρ, kept⟩ := hs Δ hΔ
            exact ⟨(Env.extend.inj hρ).1, fun y c hy => kept y c (lookup_behind hx hy)⟩

end Instances

end Telescope

/-! ## Three replacements -/

namespace Replacement

/-- Names are replaced by the values of an environment. -/
def plain (X : List Name) (ρ : Env) : Replacement .ofHints where
  names := X
  env := ρ
  hidden := []
  used := nofun
  impossible := nofun
  scope := none
  within := nofun

/-- The same, with a variable for the elements of `Absurd`. -/
def placed (b : Name) (X : List Name) (ρ : Env) : Replacement (.byPlace b) where
  names := b :: X
  env := ρ.extend b (.ofVar b .absurd)
  hidden := []
  used := nofun
  impossible := by
    rintro _ ⟨⟩
    have hA : TyEq .large .absurd .absurd := .const rfl (forces_self rfl) (forces_self rfl)
    exact ⟨.head _, _, Env.get?_extend_self ρ b _, .reflect hA hA (.of_none (.var b) (.var b) (.var b))⟩
  scope := none
  within := nofun

/-- The variables of a context stand for themselves. -/
def ofContext (Γ : Context) : Replacement .ofHints where
  names := Γ.names
  env := Γ.env
  hidden := []
  used := nofun
  impossible := nofun
  scope := some Γ
  within := by
    rintro _ ⟨⟩
    exact ⟨rfl, rfl, fun _ h => h⟩

end Replacement

namespace Telescope.Describes

variable {Θ : Telescope} {Γ : Context} {ℓ : Size} {𝒯 𝒮 𝒱 𝒲 : Dependent} {ρ ρ' : Env}

theorem plain (hΘ : Θ.Describes Γ) (hρ : Θ.Fills ρ) :
    Θ.Related (.glued .ofHints Style.ofHints_fresh) (.plain Γ.names ρ) Γ.env ρ :=
  hΘ.glued _ hρ (fun _ h => h) (fun _ _ => rfl) nofun

theorem placed (hΘ : Θ.Describes Γ) (hρ : Θ.Fills ρ) {b : Name} (hb : b ∉ Γ.names) :
    Θ.Related (.glued (.byPlace b) (Style.byPlace_fresh b)) (.placed b Γ.names ρ) Γ.env ρ := by
  refine hΘ.glued _ hρ (fun _ h => .tail _ h) (fun x hx => ?_) nofun
  exact Env.get?_extend_of_ne ρ _ fun e => hb (e ▸ hx)

theorem ofContext (hΘ : Θ.Describes Γ) :
    Θ.Related (.glued .ofHints Style.ofHints_fresh) (.ofContext Γ) Γ.env Γ.env := by
  refine hΘ.glued _ hΘ.identity (fun _ h => h) (fun _ _ => rfl) ?_
  rintro _ ⟨⟩
  exact ⟨rfl, fun _ _ h => h⟩

/-! ## What is equal stays equal -/

/-- Types that read back alike in a context are equal for all values of its variables: one reading gives
both of them. -/
theorem tyEq_of_reading (hΘ : Θ.Describes Γ) (hT : Θ.IsFamily .large 𝒯) (hS : Θ.IsFamily .large 𝒮)
    {b : Name} {n : Expr} (hb : b ∉ Γ.names)
    (hn : Reads (.byPlace b) (b :: Γ.names) (.type (𝒯 Γ.env)) n)
    (hn' : Reads (.byPlace b) (b :: Γ.names) (.type (𝒮 Γ.env)) n) (hρ : Θ.Fills ρ) :
    TyEq .large (𝒯 ρ) (𝒮 ρ) := by
  have hσ := Style.byPlace_fresh b
  have related := hΘ.placed hρ hb
  obtain ⟨v, hv, hvT⟩ := (Frame.glued.type_gives hσ (hT related) n hn nofun).holds
  obtain ⟨v', hv', hvS⟩ := (Frame.glued.type_gives hσ (hS related) n hn' nofun).holds
  cases hv.symm.trans hv'
  exact hvT.symm.trans hvS

/-- Elements that read back alike in a context are equal for all values of its variables. -/
theorem elEq_of_reading (hΘ : Θ.Describes Γ) (hv : Θ.Member 𝒯 𝒱) (hw : Θ.Member 𝒯 𝒲)
    {b : Name} {n : Expr} (hb : b ∉ Γ.names)
    (hn : Reads (.byPlace b) (b :: Γ.names) (.value (𝒯 Γ.env) (𝒱 Γ.env)) n)
    (hn' : Reads (.byPlace b) (b :: Γ.names) (.value (𝒯 Γ.env) (𝒲 Γ.env)) n) (hρ : Θ.Fills ρ) :
    ElEq (𝒯 ρ) (𝒱 ρ) (𝒲 ρ) := by
  have hσ := Style.byPlace_fresh b
  have related := hΘ.placed hρ hb
  have hT := hΘ.tyEq hv.family hΘ.identity
  obtain ⟨u, hu, huv⟩ := (Frame.glued.element_gives hσ (hv related) hT n hn nofun).holds
  obtain ⟨u', hu', huw⟩ := (Frame.glued.element_gives hσ (hw related) hT n hn' nofun).holds
  cases hu.symm.trans hu'
  exact huv.symm.trans huw

/-- Types that are equal in a context are equal for all values of its variables. -/
theorem lift_tyEq (hΘ : Θ.Describes Γ) (hT : Θ.IsFamily .large 𝒯) (hS : Θ.IsFamily .large 𝒮)
    (h : TyEq .large (𝒯 Γ.env) (𝒮 Γ.env)) (hρ : Θ.Fills ρ) : TyEq .large (𝒯 ρ) (𝒮 ρ) := by
  obtain ⟨b, hb⟩ : ∃ b, b ∉ Γ.names := ⟨_, Style.ofHints_fresh Γ.names ""⟩
  obtain ⟨n, n', hn, hn', heq⟩ := h.agree (.byPlace b) (b :: Γ.names)
  cases heq b rfl
  exact hΘ.tyEq_of_reading hT hS hb hn hn' hρ

/-- Elements that are equal in a context are equal for all values of its variables. -/
theorem lift_elEq (hΘ : Θ.Describes Γ) (hv : Θ.Member 𝒯 𝒱) (hw : Θ.Member 𝒯 𝒲)
    (h : ElEq (𝒯 Γ.env) (𝒱 Γ.env) (𝒲 Γ.env)) (hρ : Θ.Fills ρ) : ElEq (𝒯 ρ) (𝒱 ρ) (𝒲 ρ) := by
  obtain ⟨b, hb⟩ : ∃ b, b ∉ Γ.names := ⟨_, Style.ofHints_fresh Γ.names ""⟩
  obtain ⟨n, n', hn, hn', heq⟩ :=
    h.agree (hΘ.tyEq hv.family hΘ.identity) (.byPlace b) (b :: Γ.names)
  cases heq b rfl
  exact hΘ.elEq_of_reading hv hw hb hn hn' hρ

/-! ## Types keep their form

The parts of a type depend on the values of the variables as the type does. -/

variable {x : Name} {d E K k l m r v u : Value} {q : Quantifier} {R : Closure}

theorem const_form {c : Const} (hΘ : Θ.Describes Γ) (hT : Θ.IsFamily ℓ 𝒯)
    (h : Forces (𝒯 Γ.env) (.const c)) (hρ : Θ.Fills ρ) : Forces (𝒯 ρ) (.const c) :=
  Frame.glued.formers.const_inv (hT (hΘ.plain hρ)) h

theorem quant_form (hΘ : Θ.Describes Γ) (hT : Θ.IsFamily ℓ 𝒯)
    (h : Forces (𝒯 Γ.env) (.quant q x d R)) :
    ∃ 𝒳 𝒟 𝓡, 𝒳 Γ.env = x ∧ 𝒟 Γ.env = d ∧ 𝓡 Γ.env = R ∧ Θ.QuantForm ℓ q 𝒯 𝒳 𝒟 𝓡 := by
  have forms : ∀ ρ, Θ.Fills ρ → ∃ x' d' R', Forces (𝒯 ρ) (.quant q x' d' R') := fun ρ hρ => by
    obtain ⟨x', d', R', hF, _⟩ := Frame.glued.formers.quant_inv (hT (hΘ.plain hρ)) h
    exact ⟨x', d', R', hF⟩
  choose! 𝒳 𝒟 𝓡 form using forms
  have here := (form Γ.env hΘ.identity).unique h
  simp only [Value.quant.injEq, true_and] at here
  refine ⟨𝒳, 𝒟, 𝓡, here.1, here.2.1, here.2.2, ?_, form _, ?_⟩
  · intro I w ρ ρ' hρ
    obtain ⟨_, _, _, h', hd, _⟩ := I.lawful.formers.quant_inv (hT hρ) (form ρ hρ.left)
    cases h'.unique (form ρ' hρ.right)
    exact hd
  · intro I w w' ρ ρ' a b hρ hw hab
    obtain ⟨_, _, _, h', _, hr⟩ := I.lawful.formers.quant_inv (hT hρ) (form ρ hρ.left)
    cases h'.unique (form ρ' hρ.right)
    exact hr hw hab

theorem list_form (hΘ : Θ.Describes Γ) (hT : Θ.IsFamily ℓ 𝒯) (h : Forces (𝒯 Γ.env) (.list E)) :
    ∃ ℰ : Dependent, ℰ Γ.env = E ∧ Θ.IsFamily ℓ ℰ ∧
      ∀ {ρ}, Θ.Fills ρ → Forces (𝒯 ρ) (.list (ℰ ρ)) := by
  have forms : ∀ ρ, Θ.Fills ρ → ∃ E', Forces (𝒯 ρ) (.list E') := fun ρ hρ => by
    obtain ⟨E', hF, _⟩ := Frame.glued.formers.list_inv (hT (hΘ.plain hρ)) h
    exact ⟨E', hF⟩
  choose! ℰ form using forms
  have here := (form Γ.env hΘ.identity).unique h
  simp only [Value.unary.injEq, true_and] at here
  refine ⟨ℰ, here, ?_, fun hρ => form _ hρ⟩
  intro I w ρ ρ' hρ
  obtain ⟨_, h', hE⟩ := I.lawful.formers.list_inv (hT hρ) (form ρ hρ.left)
  cases h'.unique (form ρ' hρ.right)
  exact hE

theorem vec_form (hΘ : Θ.Describes Γ) (hT : Θ.IsFamily ℓ 𝒯) (h : Forces (𝒯 Γ.env) (.vec E k)) :
    ∃ ℰ 𝓚 : Dependent, ℰ Γ.env = E ∧ 𝓚 Γ.env = k ∧ Θ.IsFamily ℓ ℰ ∧ Θ.Member (fun _ => .nat) 𝓚 ∧
      ∀ {ρ}, Θ.Fills ρ → Forces (𝒯 ρ) (.vec (ℰ ρ) (𝓚 ρ)) := by
  have forms : ∀ ρ, Θ.Fills ρ → ∃ E' k', Forces (𝒯 ρ) (.vec E' k') := fun ρ hρ => by
    obtain ⟨E', k', hF, _⟩ := Frame.glued.formers.vec_inv (hT (hΘ.plain hρ)) h
    exact ⟨E', k', hF⟩
  choose! ℰ 𝓚 form using forms
  have here := (form Γ.env hΘ.identity).unique h
  simp only [Value.binary.injEq, true_and] at here
  refine ⟨ℰ, 𝓚, here.1, here.2, ?_, ?_, fun hρ => form _ hρ⟩ <;>
  · intro I w ρ ρ' hρ
    obtain ⟨_, _, h', hE, hk⟩ := I.lawful.formers.vec_inv (hT hρ) (form ρ hρ.left)
    cases h'.unique (form ρ' hρ.right)
    assumption

theorem either_form (hΘ : Θ.Describes Γ) (hT : Θ.IsFamily ℓ 𝒯)
    (h : Forces (𝒯 Γ.env) (.either l r)) : ∃ 𝓛 𝓡 : Dependent, 𝓛 Γ.env = l ∧ 𝓡 Γ.env = r ∧
      Θ.IsFamily ℓ 𝓛 ∧ Θ.IsFamily ℓ 𝓡 ∧
      ∀ {ρ}, Θ.Fills ρ → Forces (𝒯 ρ) (.either (𝓛 ρ) (𝓡 ρ)) := by
  have forms : ∀ ρ, Θ.Fills ρ → ∃ l' r', Forces (𝒯 ρ) (.either l' r') := fun ρ hρ => by
    obtain ⟨l', r', hF, _⟩ := Frame.glued.formers.either_inv (hT (hΘ.plain hρ)) h
    exact ⟨l', r', hF⟩
  choose! 𝓛 𝓡 form using forms
  have here := (form Γ.env hΘ.identity).unique h
  simp only [Value.binary.injEq, true_and] at here
  refine ⟨𝓛, 𝓡, here.1, here.2, ?_, ?_, fun hρ => form _ hρ⟩ <;>
  · intro I w ρ ρ' hρ
    obtain ⟨_, _, h', hl, hr⟩ := I.lawful.formers.either_inv (hT hρ) (form ρ hρ.left)
    cases h'.unique (form ρ' hρ.right)
    assumption

theorem equal_form (hΘ : Θ.Describes Γ) (hT : Θ.IsFamily ℓ 𝒯)
    (h : Forces (𝒯 Γ.env) (.equal K l r)) : ∃ 𝓚 𝓛 𝓡 : Dependent, 𝓚 Γ.env = K ∧ 𝓛 Γ.env = l ∧
      𝓡 Γ.env = r ∧ Θ.IsFamily ℓ 𝓚 ∧ Θ.Member 𝓚 𝓛 ∧ Θ.Member 𝓚 𝓡 ∧
      ∀ {ρ}, Θ.Fills ρ → Forces (𝒯 ρ) (.equal (𝓚 ρ) (𝓛 ρ) (𝓡 ρ)) := by
  have forms : ∀ ρ, Θ.Fills ρ → ∃ K' l' r', Forces (𝒯 ρ) (.equal K' l' r') := fun ρ hρ => by
    obtain ⟨K', l', r', hF, _⟩ := Frame.glued.formers.equal_inv (hT (hΘ.plain hρ)) h
    exact ⟨K', l', r', hF⟩
  choose! 𝓚 𝓛 𝓡 form using forms
  have here := (form Γ.env hΘ.identity).unique h
  simp only [Value.equal.injEq] at here
  refine ⟨𝓚, 𝓛, 𝓡, here.1, here.2.1, here.2.2, ?_, ?_, ?_, fun hρ => form _ hρ⟩ <;>
  · intro I w ρ ρ' hρ
    obtain ⟨_, _, _, h', hK, hl, hr⟩ := I.lawful.formers.equal_inv (hT hρ) (form ρ hρ.left)
    cases h'.unique (form ρ' hρ.right)
    assumption

/-- A number that is a successor is one for all values of the variables. -/
theorem add1_form (hΘ : Θ.Describes Γ) (hk : Θ.Member (fun _ => .nat) 𝒱)
    (h : Forces (𝒱 Γ.env) (.add1 m)) : ∃ 𝓜 : Dependent, 𝓜 Γ.env = m ∧
      Θ.Member (fun _ => .nat) 𝓜 ∧ ∀ {ρ}, Θ.Fills ρ → Forces (𝒱 ρ) (.add1 (𝓜 ρ)) := by
  have forms : ∀ ρ, Θ.Fills ρ → ∃ m', Forces (𝒱 ρ) (.add1 m') := fun ρ hρ => by
    obtain ⟨m', hF, _⟩ := Interpretation.add1_inv (hk (hΘ.plain hρ)) h
    exact ⟨m', hF⟩
  choose! 𝓜 form using forms
  have here := (form Γ.env hΘ.identity).unique h
  simp only [Value.unary.injEq, true_and] at here
  refine ⟨𝓜, here, ?_, fun hρ => form _ hρ⟩
  intro I w ρ ρ' hρ
  obtain ⟨_, h', hm⟩ := Interpretation.add1_inv (hk hρ) (form ρ hρ.left)
  cases h'.unique (form ρ' hρ.right)
  exact hm

end Telescope.Describes

end TypeKernel
