/-
# TypeKernel.Proofs.Soundness — what the rules accept has a meaning

What the typing rules accept in a context has the type, or is a type, for all values of the variables of
the context, if the discipline is sound: if what it counts as the same is equal, and what it makes as an
annotation is the type (`Discipline.Sound`). The theorem is `Judged.sound`.
-/
import TypeKernel.Proofs.FamilyEliminators
import TypeKernel.Proofs.Judged

namespace TypeKernel

set_option autoImplicit false

namespace Telescope

variable {Θ : Telescope} {Γ : Context} {ℓ : Size} {𝒯 𝒮 : Dependent} {e t : Expr}

/-- An expression that has a type; if it shows its type, then this is the type. -/
structure Finds (Θ : Telescope) (𝒯 : Dependent) (e : Expr) : Prop where
  has : Θ.Has 𝒯 e
  annotation : ∀ {t e'}, e = .the t e' → 𝒯 = t.value ∧ Θ.HasType .large t ∧ Θ.Has t.value e'

/-- What a judgment about an expression means. The types of a judgment are values, given in an
environment. -/
def Means (Θ : Telescope) (ρ : Env) (e : Expr) : Aim → Prop
  | .synth T => ∃ 𝒯 : Dependent, 𝒯 ρ = T ∧ Θ.Finds 𝒯 e
  | .check A => ∀ 𝒜 : Dependent, 𝒜 ρ = A → Θ.IsFamily .large 𝒜 → Θ.Has 𝒜 e
  | .isType => Θ.HasType .large e

/-- A part of a type former that is a type. -/
theorem Means.part {ρ : Env} (h : Θ.Means ρ e ℓ.part) : Θ.HasType ℓ e := by
  cases ℓ with
  | small => exact (h (fun _ => .univ) rfl isFamily_univ).small fun _ => (forces_self rfl)
  | large => exact h

theorem HasType.means {ρ : Env} (h : Θ.HasType ℓ e) (he : ∀ t e', e ≠ .the t e') :
    Θ.Means ρ e ℓ.whole := by
  cases ℓ with
  | small => exact ⟨fun _ => .univ, rfl, h.element, fun heq => absurd heq (he _ _)⟩
  | large => exact h

end Telescope

/-- What a discipline must keep to: what it accepts in a context must hold for the values of the
context. -/
structure Discipline.Sound (P : Discipline) : Prop where
  sameType : ∀ {Θ : Telescope} {Γ : Context} {𝒯 𝒮 : Dependent}, Θ.Describes Γ →
    Θ.IsFamily .large 𝒯 → Θ.IsFamily .large 𝒮 → P.sameType Γ (𝒯 Γ.env) (𝒮 Γ.env) →
    TyEq .large (𝒯 Γ.env) (𝒮 Γ.env)
  same : ∀ {Θ : Telescope} {Γ : Context} {𝒯 𝒱 𝒲 : Dependent}, Θ.Describes Γ → Θ.Member 𝒯 𝒱 →
    Θ.Member 𝒯 𝒲 → P.same Γ (𝒯 Γ.env) (𝒱 Γ.env) (𝒲 Γ.env) →
    ElEq (𝒯 Γ.env) (𝒱 Γ.env) (𝒲 Γ.env)
  annotates : ¬ P.lax → ∀ {Θ : Telescope} {Γ : Context} {𝒯 : Dependent} {t : Expr}, Θ.Describes Γ →
    Θ.IsFamily .large 𝒯 → P.annotates Γ (𝒯 Γ.env) t →
    Θ.HasType .large t ∧ TyEq .large (t.value Γ.env) (𝒯 Γ.env)
  simple : ∀ {Θ : Telescope} {Γ : Context} {x : Name} {𝒜 𝒟 𝒱 : Dependent} {𝒳 : Env → Name}
    {𝓡 : Env → Closure} {D : Value}, Θ.Describes Γ → Θ.QuantForm .large .pi 𝒜 𝒳 𝒟 𝓡 →
    Θ.Member 𝒟 𝒱 → P.simple Γ x (𝒟 Γ.env) (𝓡 Γ.env) (𝒱 Γ.env) D →
    ∃ 𝒮 : Dependent, 𝒮 Γ.env = D ∧ Θ.IsFamily .large 𝒮 ∧
      ∀ {b B}, ElEq (𝒟 Γ.env) b b → Applies (𝓡 Γ.env) b B → TyEq .large B D

/-- An annotation changes nothing. -/
theorem Expr.value_the (t e : Expr) : (Expr.the t e).value = e.value := by
  funext ρ
  rw [Expr.value, answer_eq]
  rfl

namespace Telescope

variable {Θ : Telescope} {Γ : Context} {P : Discipline} {𝒯 𝒮 : Dependent} {e c : Expr}

/-- What is annotated by a sound discipline has its annotation as type. -/
theorem Finds.annotated (hP : P.Sound) (hΘ : Θ.Describes Γ) (he : Θ.Finds 𝒯 e)
    (h𝒮 : Θ.IsFamily .large 𝒮) (hT : TyEq .large (𝒯 Γ.env) (𝒮 Γ.env))
    (h : P.Annotated Γ (𝒮 Γ.env) e c) : ∃ t e', c = .the t e' ∧ Θ.HasType .large t ∧
      Θ.Has t.value e' ∧ TyEq .large (t.value Γ.env) (𝒮 Γ.env) ∧ e'.value = e.value := by
  -- An expression that is annotated already stays as it is.
  have kept : ∀ {t e'}, e = .the t e' → ∃ t e', e = .the t e' ∧ Θ.HasType .large t ∧
      Θ.Has t.value e' ∧ TyEq .large (t.value Γ.env) (𝒮 Γ.env) ∧ e'.value = e.value := by
    intro t e' heq
    obtain ⟨rfl, ht, he'⟩ := he.annotation heq
    exact ⟨t, e', heq, ht, he', hT, heq ▸ (Expr.value_the t e').symm⟩
  cases h with
  | kept => exact kept rfl
  | @added _ t strict h =>
      obtain ⟨ht, htT⟩ := hP.annotates strict hΘ h𝒮 h
      have has := he.has.conv hΘ ht.family (hT.trans htT.symm)
      cases e with
      | the => exact kept rfl
      | _ => exact ⟨t, _, rfl, ht, has, htT, rfl⟩

/-! ## The rules -/

namespace Means

variable {q : Quantifier} {A B D E F K L M R T Z d k l m n v w : Value} {C : Closure} {y z : Name}
  {a b e' f t s : Expr}

section Rules

variable (hΘ : Θ.Describes Γ)

include hΘ

theorem const {c : Const} (hc : c.type? = some T) : Θ.Means Γ.env (.const c) (.synth T) := by
  cases c with
  | nat | atom | trivial | absurd =>
      cases hc
      exact ⟨fun _ => .univ, rfl, (HasType.const (ℓ := .small) hΘ rfl).element, nofun⟩
  | zero =>
      cases hc
      exact ⟨fun _ => .nat, rfl, .zero hΘ, nofun⟩
  | sole =>
      cases hc
      exact ⟨fun _ => .trivial, rfl, .sole hΘ, nofun⟩
  | univ | nil | vecNil => cases hc

theorem quant (ℓ : Size) (hd : Θ.Means Γ.env e ℓ.part) (hD : Evals Γ.env e D) (hy : y ∉ Γ.names)
    (hb : ∀ {Θ : Telescope}, Θ.Describes (Γ.bindFree y D) →
      Θ.Means (Γ.bindFree y D).env b ℓ.part) : Θ.Means Γ.env (.quant q y e b) ℓ.whole := by
  have hd := hd.part
  cases Expr.value_eq hD
  have hb := (hb (.free hΘ hy hd.lift.family)).part
  exact (hd.quant hΘ hb).means nofun

theorem equal (ℓ : Size) (ht : Θ.Means Γ.env t ℓ.part) (hT : Evals Γ.env t T)
    (ha : Θ.Means Γ.env a (.check T)) (hb : Θ.Means Γ.env b (.check T)) :
    Θ.Means Γ.env (.equal t a b) ℓ.whole := by
  have ht := ht.part
  have hT := Expr.value_eq hT
  have family : Θ.IsFamily .large t.value := ht.lift.family
  exact (ht.equal hΘ (ha t.value hT family) (hb t.value hT family)).means nofun

theorem lam (hA : Forces A (.pi z d C)) (hy : y ∉ Γ.names) (hB : Applies C (.ofVar y d) B)
    (hb : ∀ {Θ : Telescope}, Θ.Describes (Γ.bindFree y d) →
      Θ.Means (Γ.bindFree y d).env b (.check B)) : Θ.Means Γ.env (.lam y b) (.check A) := by
  rintro 𝒜 rfl h𝒜
  obtain ⟨𝒳, 𝒟, 𝓡, _, rfl, rfl, form⟩ := hΘ.quant_form h𝒜 hA
  have hb := hb (.free hΘ hy form.domain) (.body 𝓡) (settle_eq hB) form.family_body
  exact .lam hΘ h𝒜 form hb

theorem cons (hA : Forces A (.sigma z d C)) (ha : Θ.Means Γ.env a (.check d)) (hv : Evals Γ.env a v)
    (hB : Applies C v B) (hb : Θ.Means Γ.env b (.check B)) :
    Θ.Means Γ.env (.cons a b) (.check A) := by
  rintro 𝒜 rfl h𝒜
  obtain ⟨𝒳, 𝒟, 𝓡, _, rfl, rfl, form⟩ := hΘ.quant_form h𝒜 hA
  cases Expr.value_eq hv
  have ha := ha 𝒟 rfl form.domain
  exact .cons hΘ h𝒜 form ha (hb _ (settle_eq hB) (form.family_range ha.member))

theorem listConsSynth (ha : Θ.Means Γ.env a (.synth E)) (hb : Θ.Means Γ.env b (.check (.list E))) :
    Θ.Means Γ.env (.listCons a b) (.synth (.list E)) := by
  obtain ⟨ℰ, rfl, ha⟩ := ha
  have hL : Θ.IsFamily .large fun ρ => .list (ℰ ρ) := fun {I _ _ _} hρ =>
    I.lawful.formers.list (ha.has.family hρ)
  exact ⟨fun ρ => .list (ℰ ρ), rfl, ha.has.listCons hΘ (hb _ rfl hL), nofun⟩

theorem listCons (hA : Forces A (.list E)) (ha : Θ.Means Γ.env a (.check E))
    (hb : Θ.Means Γ.env b (.check (.list E))) : Θ.Means Γ.env (.listCons a b) (.check A) := by
  rintro 𝒜 rfl h𝒜
  obtain ⟨ℰ, rfl, hE, form⟩ := hΘ.list_form h𝒜 hA
  have hL : Θ.IsFamily .large fun ρ => .list (ℰ ρ) := fun {I _ _ _} hρ =>
    I.lawful.formers.list (hE hρ)
  exact ((ha ℰ rfl hE).listCons hΘ (hb _ rfl hL)).at_form form

theorem vecCons (hA : Forces A (.vec E k)) (hk : Forces k (.add1 m))
    (ha : Θ.Means Γ.env a (.check E)) (hb : Θ.Means Γ.env b (.check (.vec E m))) :
    Θ.Means Γ.env (.vecCons a b) (.check A) := by
  rintro 𝒜 rfl h𝒜
  obtain ⟨ℰ, 𝓚, rfl, rfl, hE, hK, form⟩ := hΘ.vec_form h𝒜 hA
  obtain ⟨𝓜, rfl, hM, successor⟩ := hΘ.add1_form hK hk
  have hV : Θ.IsFamily .large fun ρ => .vec (ℰ ρ) (𝓜 ρ) := fun {I _ _ _} hρ =>
    I.lawful.formers.vec (hE hρ) (hM hρ)
  exact ((ha ℰ rfl hE).vecCons hΘ hK hM successor (hb _ rfl hV)).at_form form

theorem left (hA : Forces A (.either L R)) (he : Θ.Means Γ.env e (.check L)) :
    Θ.Means Γ.env (.left e) (.check A) := by
  rintro 𝒜 rfl h𝒜
  obtain ⟨𝓛, 𝓡, rfl, rfl, hL, hR, form⟩ := hΘ.either_form h𝒜 hA
  exact ((he 𝓛 rfl hL).left hΘ hR).at_form form

theorem right (hA : Forces A (.either L R)) (he : Θ.Means Γ.env e (.check R)) :
    Θ.Means Γ.env (.right e) (.check A) := by
  rintro 𝒜 rfl h𝒜
  obtain ⟨𝓛, 𝓡, rfl, rfl, hL, hR, form⟩ := hΘ.either_form h𝒜 hA
  exact ((he 𝓡 rfl hR).right hΘ hL).at_form form

theorem app (hf : Θ.Means Γ.env f (.synth F)) (hF : Forces F (.pi z d C))
    (ha : Θ.Means Γ.env a (.check d)) (hv : Evals Γ.env a v) (hB : Applies C v B) :
    Θ.Means Γ.env (.app f a) (.synth B) := by
  obtain ⟨𝓕, rfl, hf⟩ := hf
  obtain ⟨𝒳, 𝒟, 𝓡, _, rfl, rfl, form⟩ := hΘ.quant_form hf.has.family hF
  cases Expr.value_eq hv
  exact ⟨_, settle_eq hB, .app hΘ form hf.has (ha 𝒟 rfl form.domain), nofun⟩

theorem car (ht : Θ.Means Γ.env t (.synth T)) (hT : Forces T (.sigma z d C)) :
    Θ.Means Γ.env (.proj .car t) (.synth d) := by
  obtain ⟨𝒯, rfl, ht⟩ := ht
  obtain ⟨𝒳, 𝒟, 𝓡, _, rfl, rfl, form⟩ := hΘ.quant_form ht.has.family hT
  exact ⟨𝒟, rfl, .car hΘ form ht.has, nofun⟩

theorem cdr (ht : Θ.Means Γ.env t (.synth T)) (hT : Forces T (.sigma z d C))
    (hv : Evals Γ.env t v) (ha : Cars v w) (hB : Applies C w B) :
    Θ.Means Γ.env (.proj .cdr t) (.synth B) := by
  obtain ⟨𝒯, rfl, ht⟩ := ht
  obtain ⟨𝒳, 𝒟, 𝓡, _, rfl, rfl, form⟩ := hΘ.quant_form ht.has.family hT
  refine ⟨_, ?_, .cdr hΘ form ht.has, nofun⟩
  rw [Dependent.range, Expr.value_eq (.proj (p := .car) hv ha), settle_eq hB]

theorem head (ht : Θ.Means Γ.env t (.synth T)) (hT : Forces T (.vec E k)) (hk : Forces k (.add1 m)) :
    Θ.Means Γ.env (.proj .head t) (.synth E) := by
  obtain ⟨𝒯, rfl, ht⟩ := ht
  obtain ⟨ℰ, 𝓚, rfl, rfl, hE, hK, form⟩ := hΘ.vec_form ht.has.family hT
  obtain ⟨𝓜, rfl, hM, successor⟩ := hΘ.add1_form hK hk
  exact ⟨ℰ, rfl, (ht.has.of_form form).head hΘ successor, nofun⟩

theorem tail (ht : Θ.Means Γ.env t (.synth T)) (hT : Forces T (.vec E k)) (hk : Forces k (.add1 m)) :
    Θ.Means Γ.env (.proj .tail t) (.synth (.vec E m)) := by
  obtain ⟨𝒯, rfl, ht⟩ := ht
  obtain ⟨ℰ, 𝓚, rfl, rfl, hE, hK, form⟩ := hΘ.vec_form ht.has.family hT
  obtain ⟨𝓜, rfl, hM, successor⟩ := hΘ.add1_form hK hk
  exact ⟨fun ρ => .vec (ℰ ρ) (𝓜 ρ), rfl, (ht.has.of_form form).tail hΘ successor, nofun⟩

theorem symm (ht : Θ.Means Γ.env t (.synth T)) (hT : Forces T (.equal K v w)) :
    Θ.Means Γ.env (.proj .symm t) (.synth (.equal K w v)) := by
  obtain ⟨𝒯, rfl, ht⟩ := ht
  obtain ⟨𝓚, 𝒱, 𝒲, rfl, rfl, rfl, _, _, _, form⟩ := hΘ.equal_form ht.has.family hT
  exact ⟨fun ρ => .equal (𝓚 ρ) (𝒲 ρ) (𝒱 ρ), rfl, (ht.has.of_form form).symm hΘ, nofun⟩

/-- A target whose type has one of the forms without parts. -/
theorem target {c : Const} (ht : Θ.Means Γ.env t (.synth T)) (hT : Forces T (.const c)) :
    Θ.Has (fun _ => .const c) t := by
  obtain ⟨𝒯, rfl, ht⟩ := ht
  exact ht.has.of_form fun hρ => hΘ.const_form ht.has.family hT hρ

theorem indNat (ht : Θ.Means Γ.env t (.synth T)) (hT : Forces T .nat)
    (hm : Θ.Means Γ.env e (.check .natMotive)) (hM : Evals Γ.env e M) (hZ : Calls M .zero Z)
    (hb : Θ.Means Γ.env b (.check Z)) (hs : Θ.Means Γ.env s (.check (.indNatStep M)))
    (hv : Evals Γ.env t v) (hB : Calls M v B) :
    Θ.Means Γ.env (.induct .indNat t e b s) (.synth B) := by
  have ht := ht.target hΘ hT
  have hm := hm (fun _ => .natMotive) rfl fun {I _ _ _} _ => I.lawful.natMotive
  cases Expr.value_eq hM
  cases Expr.value_eq hv
  have hb := hb _ (Dependent.call_eq hZ)
    (Member.call_motive hm.member (𝒱 := fun _ => .zero) fun {I _ _ _} _ => I.lawful.zero)
  have hs := hs (fun ρ => .indNatStep (e.value ρ)) rfl fun {I _ _ _} hρ =>
    I.lawful.indNatStep (hm.member hρ)
  exact ⟨_, Dependent.call_eq hB, ht.indNat hΘ hm hb hs, nofun⟩

theorem indList (ht : Θ.Means Γ.env t (.synth T)) (hT : Forces T (.list E))
    (hm : Θ.Means Γ.env e (.check (.listMotive E))) (hM : Evals Γ.env e M) (hZ : Calls M .nil Z)
    (hb : Θ.Means Γ.env b (.check Z)) (hs : Θ.Means Γ.env s (.check (.indListStep E M)))
    (hv : Evals Γ.env t v) (hB : Calls M v B) :
    Θ.Means Γ.env (.induct .indList t e b s) (.synth B) := by
  obtain ⟨𝒯, rfl, ht⟩ := ht
  obtain ⟨ℰ, rfl, hE, form⟩ := hΘ.list_form ht.has.family hT
  have hm := hm (fun ρ => .listMotive (ℰ ρ)) rfl fun {I _ _ _} hρ => I.lawful.listMotive (hE hρ)
  cases Expr.value_eq hM
  cases Expr.value_eq hv
  have hb := hb _ (Dependent.call_eq hZ)
    (Member.call_motive hm.member (𝒱 := fun _ => .nil) fun {I _ _ _} hρ => I.lawful.nil (hE hρ))
  have hs := hs (fun ρ => .indListStep (ℰ ρ) (e.value ρ)) rfl fun {I _ _ _} hρ =>
    I.lawful.indListStep (hE hρ) (hm.member hρ)
  exact ⟨_, Dependent.call_eq hB, (ht.has.of_form form).indList hΘ hE hm hb hs, nofun⟩

theorem indEither (ht : Θ.Means Γ.env t (.synth T)) (hT : Forces T (.either L R))
    (hm : Θ.Means Γ.env e (.check (.simpleMotive (.either L R)))) (hM : Evals Γ.env e M)
    (hb : Θ.Means Γ.env b (.check (.eitherCase .left L M)))
    (hs : Θ.Means Γ.env s (.check (.eitherCase .right R M))) (hv : Evals Γ.env t v)
    (hB : Calls M v B) : Θ.Means Γ.env (.induct .indEither t e b s) (.synth B) := by
  obtain ⟨𝒯, rfl, ht⟩ := ht
  obtain ⟨𝓛, 𝓡, rfl, rfl, hL, hR, form⟩ := hΘ.either_form ht.has.family hT
  have hm := hm (fun ρ => .simpleMotive (.either (𝓛 ρ) (𝓡 ρ))) rfl fun {I _ _ _} hρ =>
    I.lawful.simpleMotive (I.lawful.formers.either (hL hρ) (hR hρ))
  cases Expr.value_eq hM
  cases Expr.value_eq hv
  have hb := hb (fun ρ => .eitherCase .left (𝓛 ρ) (e.value ρ)) rfl
    (isFamily_eitherCase hΘ hL hm.member fun {I _ _ _ _ _} hρ ha => I.lawful.left ha (hR hρ))
  have hs := hs (fun ρ => .eitherCase .right (𝓡 ρ) (e.value ρ)) rfl
    (isFamily_eitherCase hΘ hR hm.member fun {I _ _ _ _ _} hρ ha => I.lawful.right (hL hρ) ha)
  exact ⟨_, Dependent.call_eq hB, (ht.has.of_form form).indEither hΘ hL hR hm hb hs, nofun⟩

theorem indAbsurd (ht : Θ.Means Γ.env t (.synth T)) (hT : Forces T .absurd)
    (hm : Θ.Means Γ.env e (.check .univ)) (hM : Evals Γ.env e M) :
    Θ.Means Γ.env (.indAbsurd (t.annotate .absurd) e) (.synth M) := by
  have hm := (hm (fun _ => .univ) rfl isFamily_univ).small fun _ => (forces_self rfl)
  have ht := ht.target hΘ hT
  have annotated : Θ.Has (fun _ => .absurd) (t.annotate .absurd) := by
    cases t with
    | the => exact ht
    | _ => exact ht.the hΘ _
  exact ⟨e.value, Expr.value_eq hM, annotated.indAbsurd hΘ hm, nofun⟩

theorem replace (ht : Θ.Means Γ.env t (.synth T)) (hT : Forces T (.equal K v w))
    (hm : Θ.Means Γ.env e (.check (.simpleMotive K))) (hM : Evals Γ.env e M) (hZ : Calls M v Z)
    (hb : Θ.Means Γ.env b (.check Z)) (hB : Calls M w B) :
    Θ.Means Γ.env (.transport .replace t e b) (.synth B) := by
  obtain ⟨𝒯, rfl, ht⟩ := ht
  obtain ⟨𝓚, 𝒱, 𝒲, rfl, rfl, rfl, hK, hv, hw, form⟩ := hΘ.equal_form ht.has.family hT
  have hm := hm (fun ρ => .simpleMotive (𝓚 ρ)) rfl fun {I _ _ _} hρ => I.lawful.simpleMotive (hK hρ)
  cases Expr.value_eq hM
  have hb := hb _ (Dependent.call_eq hZ) (Member.call_motive hm.member hv)
  exact ⟨_, Dependent.call_eq hB, (ht.has.of_form form).replace hΘ hv hm hb, nofun⟩

theorem indEqual (ht : Θ.Means Γ.env t (.synth T)) (hT : Forces T (.equal K v w))
    (hm : Θ.Means Γ.env e (.check (.equalMotive K v))) (hM : Evals Γ.env e M)
    (hZ : CallsBoth M v (.same v) Z) (hb : Θ.Means Γ.env b (.check Z)) (hn : Evals Γ.env t n)
    (hB : CallsBoth M w n B) : Θ.Means Γ.env (.transport .indEqual t e b) (.synth B) := by
  obtain ⟨𝒯, rfl, ht⟩ := ht
  obtain ⟨𝓚, 𝒱, 𝒲, rfl, rfl, rfl, hK, hv, hw, form⟩ := hΘ.equal_form ht.has.family hT
  have hm := hm (fun ρ => .equalMotive (𝓚 ρ) (𝒱 ρ)) rfl fun {I _ _ _} hρ =>
    I.lawful.equalMotive (hK hρ) (hv hρ)
  cases Expr.value_eq hM
  cases Expr.value_eq hn
  have hb := hb _ (Dependent.callBoth_eq hZ)
    (Member.call_equalMotive hm.member hv fun {I _ _ _} hρ => I.lawful.same (hv hρ))
  exact ⟨_, Dependent.callBoth_eq hB, (ht.has.of_form form).indEqual hΘ hv hm hb, nofun⟩

end Rules

/-! ## Rules that compare or annotate -/

section Comparisons

variable (hP : P.Sound) (hΘ : Θ.Describes Γ)

include hP hΘ

theorem vecNil (hA : Forces A (.vec E k)) (hk : P.same Γ .nat .zero k) :
    Θ.Means Γ.env .vecNil (.check A) := by
  rintro 𝒜 rfl h𝒜
  obtain ⟨ℰ, 𝓚, rfl, rfl, hE, hK, form⟩ := hΘ.vec_form h𝒜 hA
  have zero : Θ.Member (fun _ => .nat) fun _ => .zero := fun {I _ _ _} _ => I.lawful.zero
  have hk := hP.same hΘ zero hK hk
  have length : ∀ {ρ}, Θ.Fills ρ → Forces (𝓚 ρ) .zero := fun hρ =>
    ((ElEq.nat_iff (forces_self rfl)).1 (hΘ.lift_elEq zero hK hk hρ)).zero_inv (forces_self rfl)
  exact (Has.vecNil hΘ hE hK length).at_form form

theorem same (hA : Forces A (.equal T v w)) (he : Θ.Means Γ.env e (.check T)) (hn : Evals Γ.env e n)
    (hv : P.same Γ T v n) (hw : P.same Γ T n w) : Θ.Means Γ.env (.same e) (.check A) := by
  rintro 𝒜 rfl h𝒜
  obtain ⟨𝓚, 𝒱, 𝒲, rfl, rfl, rfl, hK, h𝒱, h𝒲, form⟩ := hΘ.equal_form h𝒜 hA
  have he := he 𝓚 rfl hK
  cases Expr.value_eq hn
  exact (he.same hΘ h𝒱 h𝒲 (hP.same hΘ h𝒱 he.member hv) (hP.same hΘ he.member h𝒲 hw)).at_form form

theorem natFold {o : Fold} {S : Value → Value} (ho : NatFold o S) (ht : Θ.Means Γ.env t (.synth T))
    (hT : Forces T .nat) (hb : Θ.Means Γ.env b (.synth B)) (hs : Θ.Means Γ.env s (.check (S B)))
    (hB : P.Annotated Γ B b c) : Θ.Means Γ.env (.fold o t c s) (.synth B) := by
  have ht := ht.target hΘ hT
  obtain ⟨ℬ, rfl, hb⟩ := hb
  have hℬ : Θ.IsFamily .large ℬ := hb.has.family
  obtain ⟨e, b, rfl, he, hb, heB, _⟩ :=
    hb.annotated hP hΘ hℬ (hΘ.tyEq hℬ hΘ.identity) hB
  have hs := hs (fun ρ => S (ℬ ρ)) rfl fun {I _ _ _} hρ => I.lawful.natFoldStep ho (hℬ hρ)
  have hs : Θ.Has (fun ρ => S (e.value ρ)) s :=
    hs.conv hΘ (fun {I _ _ _} hρ => I.lawful.natFoldStep ho (he.family hρ))
      (.natFoldStep ho heB.symm)
  exact ⟨ℬ, rfl, (ht.natFold hΘ ho he hb hs).conv hΘ hℬ heB, nofun⟩

theorem recList (ht : Θ.Means Γ.env t (.synth T)) (hT : Forces T (.list E))
    (hb : Θ.Means Γ.env b (.synth B)) (hs : Θ.Means Γ.env s (.check (.recListStep E B)))
    (hB : P.Annotated Γ B b c) : Θ.Means Γ.env (.fold .recList t c s) (.synth B) := by
  obtain ⟨𝒯, rfl, ht⟩ := ht
  obtain ⟨ℰ, rfl, hE, form⟩ := hΘ.list_form ht.has.family hT
  obtain ⟨ℬ, rfl, hb⟩ := hb
  have hℬ : Θ.IsFamily .large ℬ := hb.has.family
  obtain ⟨e, b, rfl, he, hb, heB, _⟩ :=
    hb.annotated hP hΘ hℬ (hΘ.tyEq hℬ hΘ.identity) hB
  have hs := hs (fun ρ => .recListStep (ℰ ρ) (ℬ ρ)) rfl fun {I _ _ _} hρ =>
    I.lawful.recListStep (hE hρ) (hℬ hρ)
  have hs : Θ.Has (fun ρ => .recListStep (ℰ ρ) (e.value ρ)) s :=
    hs.conv hΘ (fun {I _ _ _} hρ => I.lawful.recListStep (hE hρ) (he.family hρ))
      (.recListStep (hΘ.tyEq hE hΘ.identity) heB.symm)
  exact ⟨ℬ, rfl, ((ht.has.of_form form).recList hΘ he hb hs).conv hΘ hℬ heB, nofun⟩

theorem indVec {g : Expr} (hk : Θ.Means Γ.env a (.check .nat)) (hn : Evals Γ.env a n)
    (ht : Θ.Means Γ.env t (.synth T)) (hT : Forces T (.vec E l)) (hl : P.same Γ .nat n l)
    (hm : Θ.Means Γ.env g (.check (.vecMotive E))) (hM : Evals Γ.env g M)
    (hZ : CallsBoth M .zero .vecNil Z) (hb : Θ.Means Γ.env b (.check Z))
    (hs : Θ.Means Γ.env s (.check (.indVecStep E M))) (hv : Evals Γ.env t v)
    (hB : CallsBoth M n v B) : Θ.Means Γ.env (.indVec a t g b s) (.synth B) := by
  have hk := hk (fun _ => .nat) rfl isFamily_nat
  obtain ⟨𝒯, rfl, ht⟩ := ht
  obtain ⟨ℰ, 𝓛, rfl, rfl, hE, hL, form⟩ := hΘ.vec_form ht.has.family hT
  have hm := hm (fun ρ => .vecMotive (ℰ ρ)) rfl fun {I _ _ _} hρ => I.lawful.vecMotive (hE hρ)
  cases Expr.value_eq hn
  cases Expr.value_eq hM
  cases Expr.value_eq hv
  have hb := hb _ (Dependent.callBoth_eq hZ) (Member.call_vecMotive hm.member
    (𝓚 := fun _ => .zero) (𝒱 := fun _ => .vecNil) (fun {I _ _ _} _ => I.lawful.zero)
    fun {I _ _ _} hρ => I.lawful.vecNil (hE hρ))
  have hs := hs (fun ρ => .indVecStep (ℰ ρ) (g.value ρ)) rfl fun {I _ _ _} hρ =>
    I.lawful.indVecStep (hE hρ) (hm.member hρ)
  have hl := hP.same hΘ hk.member hL hl
  have ht : Θ.Has (fun ρ => .vec (ℰ ρ) (a.value ρ)) t :=
    (ht.has.of_form form).conv hΘ
      (fun {I _ _ _} hρ => I.lawful.formers.vec (hE hρ) (hk.member hρ))
      (.vec (forces_self rfl) (forces_self rfl) (hΘ.tyEq hE hΘ.identity) hl.symm)
  exact ⟨_, Dependent.callBoth_eq hB, hk.indVec hΘ hE ht hm hb hs, nofun⟩

theorem trans (ha : Θ.Means Γ.env a (.synth T)) (hT : Forces T (.equal K l m))
    (hb : Θ.Means Γ.env b (.synth B)) (hB : Forces B (.equal L v w)) (hK : P.sameType Γ K L)
    (hm : P.same Γ K m v) : Θ.Means Γ.env (.trans a b) (.synth (.equal K l w)) := by
  obtain ⟨𝒯, rfl, ha⟩ := ha
  obtain ⟨𝓚, 𝓛, 𝓜, rfl, rfl, rfl, hK', hL, hM, form⟩ := hΘ.equal_form ha.has.family hT
  obtain ⟨𝒮, rfl, hb⟩ := hb
  obtain ⟨𝓚', 𝒱, 𝒲, rfl, rfl, rfl, hK'', hV, hW, form'⟩ := hΘ.equal_form hb.has.family hB
  have hKK := hP.sameType hΘ hK' hK'' hK
  have hV' : Θ.Member 𝓚 𝒱 := fun {I _ _ _} hρ => I.lawful.general.conv (hV hρ)
    (hΘ.lift_tyEq hK' hK'' hKK hρ.left).symm (hΘ.lift_tyEq hK' hK'' hKK hρ.right).symm (hK' hρ)
  have hm := hP.same hΘ hM hV' hm
  exact ⟨fun ρ => .equal (𝓚 ρ) (𝓛 ρ) (𝒲 ρ), rfl,
    (ha.has.of_form form).trans hΘ (hb.has.of_form form') (hΘ.lift_tyEq hK' hK'' hKK)
      (hΘ.lift_elEq hM hV' hm), nofun⟩

theorem sameTrans (hb : Θ.Means Γ.env b (.synth T)) (hT : Forces T (.equal K m n))
    (he : Θ.Means Γ.env e (.check K)) (hv : Evals Γ.env e v) (hm : P.same Γ K v m) :
    Θ.Means Γ.env (.trans (.same e) b) (.synth (.equal K v n)) := by
  obtain ⟨𝒯, rfl, hb⟩ := hb
  obtain ⟨𝓚, 𝓜, 𝓝, rfl, rfl, rfl, hK, hM, hN, form⟩ := hΘ.equal_form hb.has.family hT
  have he := he 𝓚 rfl hK
  cases Expr.value_eq hv
  have hm := hP.same hΘ he.member hM hm
  have proof := he.same hΘ he.member hM hm.refl_left hm
  exact ⟨fun ρ => .equal (𝓚 ρ) (e.value ρ) (𝓝 ρ), rfl, proof.trans hΘ (hb.has.of_form form)
    (fun hρ => hΘ.tyEq hK hρ) (fun hρ => hΘ.elEq hM hρ), nofun⟩

theorem transSame (ha : Θ.Means Γ.env a (.synth T)) (hT : Forces T (.equal K l m))
    (he : Θ.Means Γ.env e (.check K)) (hv : Evals Γ.env e v) (hm : P.same Γ K m v) :
    Θ.Means Γ.env (.trans a (.same e)) (.synth (.equal K l v)) := by
  obtain ⟨𝒯, rfl, ha⟩ := ha
  obtain ⟨𝓚, 𝓛, 𝓜, rfl, rfl, rfl, hK, hL, hM, form⟩ := hΘ.equal_form ha.has.family hT
  have he := he 𝓚 rfl hK
  cases Expr.value_eq hv
  have hm := hP.same hΘ hM he.member hm
  have proof := he.same hΘ hM he.member hm hm.refl_right
  exact ⟨fun ρ => .equal (𝓚 ρ) (𝓛 ρ) (e.value ρ), rfl, (ha.has.of_form form).trans hΘ proof
    (fun hρ => hΘ.tyEq hK hρ) (fun hρ => hΘ.elEq hM hρ), nofun⟩

/-- The annotation may give the type of the function in another form. -/
theorem cong (ht : Θ.Means Γ.env t (.synth T)) (hT : Forces T (.equal K v w))
    (hf : Θ.Means Γ.env f (.synth F)) (hF : Forces F (.pi z d C)) (hd : P.sameType Γ d K)
    (hD : P.simple Γ z d C v D) (hg : Evals Γ.env f n) (hl : Calls n v l) (hm : Calls n w m)
    (hc : P.Annotated Γ (.pi z d C) f c) : Θ.Means Γ.env (.cong t c) (.synth (.equal D l m)) := by
  obtain ⟨𝒯, rfl, ht⟩ := ht
  obtain ⟨𝓚, 𝒱, 𝒲, rfl, rfl, rfl, hK, hV, hW, equality⟩ := hΘ.equal_form ht.has.family hT
  obtain ⟨𝓕, rfl, hf⟩ := hf
  obtain ⟨𝒳, 𝒟, 𝓡, rfl, rfl, rfl, form⟩ := hΘ.quant_form hf.has.family hF
  have hd : ∀ {ρ}, Θ.Fills ρ → TyEq .large (𝒟 ρ) (𝓚 ρ) :=
    hΘ.lift_tyEq form.domain hK (hP.sameType hΘ form.domain hK hd)
  have hV' : Θ.Member 𝒟 𝒱 := fun {I _ _ _} hρ =>
    I.lawful.general.conv (hV hρ) (hd hρ.left).symm (hd hρ.right).symm (form.domain hρ)
  obtain ⟨𝒮, rfl, hS, constant⟩ := hP.simple hΘ form hV' hD
  have hQ : Θ.IsFamily .large fun ρ => .pi (𝒳 ρ) (𝒟 ρ) (𝓡 ρ) := fun {I _ _ _} hρ =>
    I.lawful.general.ty_form (hf.has.family hρ) (form.form hρ.left).coincides
      (form.form hρ.right).coincides
  have hFQ := (hΘ.tyEq hf.has.family hΘ.identity).coincides (form.form hΘ.identity).coincides
  obtain ⟨e, f', rfl, he, hf', heQ, value⟩ := hf.annotated hP hΘ hQ hFQ hc
  obtain ⟨_, _, _, hE, _⟩ := heQ.symm.quant_inv (forces_self rfl)
  obtain ⟨𝒳', 𝒟', 𝓡', _, rfl, rfl, form'⟩ := hΘ.quant_form he.family hE
  -- The domain and the ranges of the annotation are those of the function.
  have parts : ∀ {ρ}, Θ.Fills ρ → TyEq .large (𝒟' ρ) (𝒟 ρ) ∧ ∀ {u B'}, ElEq (𝒟' ρ) u u →
      Applies (𝓡' ρ) u B' → ∃ B, Applies (𝓡 ρ) u B ∧ TyEq .large B' B := by
    intro ρ hρ
    obtain ⟨_, _, _, h₁, hdd, hr⟩ :=
      (hΘ.lift_tyEq he.family hQ heQ hρ).quant_inv (form'.form hρ)
    cases h₁.unique (forces_self rfl)
    refine ⟨hdd, fun {u B'} hu hB' => ?_⟩
    obtain ⟨_, B, h₂, hB, hBB⟩ := hr u u hu
    cases hB'.unique h₂
    exact ⟨B, hB, hBB⟩
  refine ⟨fun ρ => .equal (𝒮 ρ) (Dependent.call f'.value 𝒱 ρ) (Dependent.call f'.value 𝒲 ρ), ?_,
    (ht.has.of_form equality).cong hΘ hV he form' hf' (fun hρ => (parts hρ).1.trans (hd hρ)) hS ?_,
    nofun⟩
  · cases Expr.value_eq hg
    simp only [value, Dependent.call_eq hl, Dependent.call_eq hm]
  · intro ρ u B' hρ hu hB'
    obtain ⟨B, hB, hBB⟩ := (parts hρ).2 hu hB'
    exact hBB.trans (form.constant hΘ hS constant hρ (hu.conv (parts hρ).1) hB)

end Comparisons

end Means

end Telescope

namespace Judged

open Telescope

variable {P : Discipline} {Γ : Context} {r : Renaming} {e c : Expr} {aim : Aim}

/-- What the rules of a sound discipline accept has a meaning for all values of the variables. -/
theorem sound (hP : P.Sound) (h : Judged P Γ r e aim c) :
    ∀ {Θ : Telescope}, Θ.Describes Γ → Θ.Means Γ.env c aim := by
  induction h with
  | @switch Γ r e T A c _ hT ih =>
      rintro Θ hΘ 𝒜 rfl hA
      obtain ⟨𝒯, rfl, he⟩ := ih hΘ
      exact he.has.conv hΘ hA (hP.sameType hΘ hA he.has.family hT).symm
  | lift _ hT ih =>
      intro Θ hΘ
      obtain ⟨𝒯, rfl, he⟩ := ih hΘ
      exact (he.has.small fun hρ => hΘ.const_form he.has.family hT hρ).lift
  | var hx hb =>
      intro Θ hΘ
      obtain ⟨𝒯, 𝒱, hT, hv, get⟩ := hΘ.get hx hb
      exact ⟨𝒯, hT, .var hΘ hv get, nofun⟩
  | @the Γ r t t' T e e' _ hT _ iht ihe =>
      intro Θ hΘ
      have ht : Θ.HasType .large t' := iht hΘ
      have he : Θ.Has t'.value e' := ihe hΘ t'.value (Expr.value_eq hT) ht.family
      refine ⟨t'.value, Expr.value_eq hT, he.the hΘ t', ?_⟩
      rintro _ _ ⟨⟩
      exact ⟨rfl, ht, he⟩
  | const hc => exact fun hΘ => .const hΘ hc
  | univ => exact fun hΘ => HasType.const hΘ rfl
  | quant ℓ _ hD hy _ ihd ihb => exact fun hΘ => .quant hΘ ℓ (ihd hΘ) hD (Context.pick_notMem hy) ihb
  | list ℓ _ ih => exact fun hΘ => ((ih hΘ).part.list hΘ).means nofun
  | vec ℓ _ _ ih ihk =>
      exact fun hΘ => ((ih hΘ).part.vec hΘ (ihk hΘ _ rfl isFamily_nat)).means nofun
  | either ℓ _ _ iha ihb => exact fun hΘ => ((iha hΘ).part.either hΘ (ihb hΘ).part).means nofun
  | equal ℓ _ hT _ _ iht iha ihb => exact fun hΘ => .equal hΘ ℓ (iht hΘ) hT (iha hΘ) (ihb hΘ)
  | lam hA hy hB _ ih => exact fun hΘ => .lam hΘ hA (Context.pick_notMem hy) hB ih
  | cons hA _ hv hB _ iha ihb => exact fun hΘ => .cons hΘ hA (iha hΘ) hv hB (ihb hΘ)
  | add1 _ ih =>
      exact fun hΘ => ⟨fun _ => .nat, rfl, (ih hΘ _ rfl isFamily_nat).add1 hΘ, nofun⟩
  | quote => exact fun hΘ => ⟨fun _ => .atom, rfl, .quote hΘ _, nofun⟩
  | nil hA =>
      rintro Θ hΘ 𝒜 rfl h𝒜
      obtain ⟨ℰ, _, hE, form⟩ := hΘ.list_form h𝒜 hA
      exact (Has.nil hΘ hE).at_form form
  | listConsSynth _ _ _ iha ihb => exact fun hΘ => .listConsSynth hΘ (iha hΘ) (ihb hΘ)
  | listCons hA _ _ iha ihb => exact fun hΘ => .listCons hΘ hA (iha hΘ) (ihb hΘ)
  | vecNil hA hk => exact fun hΘ => .vecNil hP hΘ hA hk
  | vecCons hA hk _ _ iha ihb => exact fun hΘ => .vecCons hΘ hA hk (iha hΘ) (ihb hΘ)
  | left hA _ ih => exact fun hΘ => .left hΘ hA (ih hΘ)
  | right hA _ ih => exact fun hΘ => .right hΘ hA (ih hΘ)
  | same hA _ hv ha hb ih => exact fun hΘ => .same hP hΘ hA (ih hΘ) hv ha hb
  | app _ hF _ hv hB ihf iha => exact fun hΘ => .app hΘ (ihf hΘ) hF (iha hΘ) hv hB
  | car _ hT ih => exact fun hΘ => .car hΘ (ih hΘ) hT
  | cdr _ hT hv ha hB ih => exact fun hΘ => .cdr hΘ (ih hΘ) hT hv ha hB
  | head _ hT hk ih => exact fun hΘ => .head hΘ (ih hΘ) hT hk
  | tail _ hT hk ih => exact fun hΘ => .tail hΘ (ih hΘ) hT hk
  | symm _ hT ih => exact fun hΘ => .symm hΘ (ih hΘ) hT
  | natFold hf _ hT _ _ hB iht ihb ihs =>
      exact fun hΘ => .natFold hP hΘ hf (iht hΘ) hT (ihb hΘ) (ihs hΘ) hB
  | recList _ hT _ _ hB iht ihb ihs =>
      exact fun hΘ => .recList hP hΘ (iht hΘ) hT (ihb hΘ) (ihs hΘ) hB
  | indNat _ hT _ hM hZ _ _ hv hB iht ihm ihb ihs =>
      exact fun hΘ => .indNat hΘ (iht hΘ) hT (ihm hΘ) hM hZ (ihb hΘ) (ihs hΘ) hv hB
  | indList _ hT _ hM hZ _ _ hv hB iht ihm ihb ihs =>
      exact fun hΘ => .indList hΘ (iht hΘ) hT (ihm hΘ) hM hZ (ihb hΘ) (ihs hΘ) hv hB
  | indEither _ hT _ hM _ _ hv hB iht ihm ihb ihs =>
      exact fun hΘ => .indEither hΘ (iht hΘ) hT (ihm hΘ) hM (ihb hΘ) (ihs hΘ) hv hB
  | indVec _ hn _ hT hl _ hM hZ _ _ hv hB ihk iht ihm ihb ihs =>
      exact fun hΘ =>
        .indVec hP hΘ (ihk hΘ) hn (iht hΘ) hT hl (ihm hΘ) hM hZ (ihb hΘ) (ihs hΘ) hv hB
  | indAbsurd _ hT _ hM iht ihm => exact fun hΘ => .indAbsurd hΘ (iht hΘ) hT (ihm hΘ) hM
  | replace _ hT _ hM hZ _ hB iht ihm ihb =>
      exact fun hΘ => .replace hΘ (iht hΘ) hT (ihm hΘ) hM hZ (ihb hΘ) hB
  | indEqual _ hT _ hM hZ _ hv hB iht ihm ihb =>
      exact fun hΘ => .indEqual hΘ (iht hΘ) hT (ihm hΘ) hM hZ (ihb hΘ) hv hB
  | trans _ hT _ hT' hK hm iha ihb =>
      exact fun hΘ => .trans hP hΘ (iha hΘ) hT (ihb hΘ) hT' hK hm
  | sameTrans _ _ hT _ hv hm ihb ihe =>
      exact fun hΘ => .sameTrans hP hΘ (ihb hΘ) hT (ihe hΘ) hv hm
  | transSame _ _ hT _ hv hm iha ihe =>
      exact fun hΘ => .transSame hP hΘ (iha hΘ) hT (ihe hΘ) hv hm
  | cong _ hT _ hF hd hD hg hu hv hf'' iht ihf =>
      exact fun hΘ => .cong hP hΘ (iht hΘ) hT (ihf hΘ) hF hd hD hg hu hv hf''

end Judged

end TypeKernel
