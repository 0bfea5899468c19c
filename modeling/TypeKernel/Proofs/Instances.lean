/-
# TypeKernel.Proofs.Instances — a value beside an instance of it

Replacing the variables of a value by other values is not an operation of the kernel: values are only
ever evaluated again after they have been read back. So a value is related to an instance of it by what
its reading evaluates to. A stuck value stands for `u` if its neutral form, read back and evaluated with
the variables replaced, gives `u`; at other types the relation follows the form of the type.

A replacement (`Replacement`) records the names in use, the values that replace them, and names that
are hidden: an expression that mentions a hidden name is not considered at all. A hidden variable
therefore stands for every value of its type, which is how a type that does not mention a variable is
seen not to depend on it.

A replacement may also be the environment of a context, its scope. The typing rules then have to accept
readings in that context: what is known of a reading is a `Role`. A scope can be left, but not entered
again, so variables of a scope stay variables of every larger one.

`Glued U w A C Q` says that the type `C` is an instance of `A` and that `Q` relates their elements, as
far as the elements are good themselves (`Full`). It follows `Denotes`; relations between functions are
kept by all further replacements.
-/
import TypeKernel.Proofs.Renamed
import TypeKernel.Proofs.Roles

namespace TypeKernel

set_option autoImplicit false

/-! ## Names that an expression does not mention -/

/-- No name of a list occurs free. -/
def Expr.Avoids (Y : List Name) (e : Expr) : Prop :=
  ∀ y ∈ Y, e.occursFree y = some false

namespace Expr

variable {Y : List Name} {y : Name} {e e₁ e₂ e₃ e₄ e₅ : Expr}

/-- A binder that is not in the list hides nothing of it. -/
theorem avoids_under (hy : y ∉ Y) :
    (∀ z ∈ Y, (if y = z then some false else e.occursFree z) = some false) ↔ e.Avoids Y := by
  refine forall₂_congr fun z hz => ?_
  have hne : y ≠ z := fun h => hy (h ▸ hz)
  rw [if_neg hne]

theorem avoids_lam (hy : y ∉ Y) : (Expr.lam y e).Avoids Y ↔ e.Avoids Y :=
  avoids_under hy

theorem avoids_quant {q : Quantifier} (hy : y ∉ Y) :
    (Expr.quant q y e₁ e₂).Avoids Y ↔ e₁.Avoids Y ∧ e₂.Avoids Y := by
  rw [← avoids_under (e := e₂) hy]
  simp only [Avoids, occursFree, orSearch_eq_false, forall_and]

end Expr

/-! ## Replacements -/

/-- Values for the names in use. -/
structure Replacement (σ : Style) where
  names : List Name
  env : Env
  hidden : List Name
  used : ∀ y ∈ hidden, y ∈ names
  /-- What stands for the elements of `Absurd` in the style is one of them. -/
  impossible : ∀ b, σ.impossible = some b →
    b ∈ names ∧ ∃ v, env.get? b = some v ∧ ElEq .absurd v v
  scope : Option Context
  within : ∀ Γ, scope = some Γ → σ.impossible = none ∧ env = Γ.env ∧ ∀ x ∈ Γ.names, x ∈ names

namespace Replacement

variable {σ : Style}

/-- More names, with the same values for those there were. -/
structure Le (w w' : Replacement σ) : Prop where
  names : ∀ x ∈ w.names, x ∈ w'.names
  env : ∀ x ∈ w.names, w'.env.get? x = w.env.get? x
  hidden : ∀ y ∈ w.hidden, y ∈ w'.hidden
  scope : ∀ Γ', w'.scope = some Γ' →
    ∃ Γ, w.scope = some Γ ∧ ∀ x b, Γ.lookup x = some b → Γ'.lookup x = some b

theorem Le.refl (w : Replacement σ) : w.Le w where
  names _ h := h
  env _ _ := rfl
  hidden _ h := h
  scope Γ h := ⟨Γ, h, fun _ _ h => h⟩

theorem Le.trans {w₁ w₂ w₃ : Replacement σ} (h : w₁.Le w₂) (h' : w₂.Le w₃) : w₁.Le w₃ where
  names x hx := h'.names x (h.names x hx)
  env x hx := (h'.env x (h.names x hx)).trans (h.env x hx)
  hidden y hy := h'.hidden y (h.hidden y hy)
  scope Γ₃ h₃ := by
    obtain ⟨Γ₂, h₂, kept'⟩ := h'.scope Γ₃ h₃
    obtain ⟨Γ₁, h₁, kept⟩ := h.scope Γ₂ h₂
    exact ⟨Γ₁, h₁, fun x b hx => kept' x b (kept x b hx)⟩

/-- One more name, outside of any scope. -/
def extend (w : Replacement σ) (y : Name) (v : Value) (hy : y ∉ w.names) : Replacement σ where
  names := y :: w.names
  env := w.env.extend y v
  hidden := w.hidden
  used z hz := .tail _ (w.used z hz)
  impossible b hb := by
    obtain ⟨hn, u, hu, h⟩ := w.impossible b hb
    have hne : y ≠ b := fun e => hy (e ▸ hn)
    exact ⟨.tail _ hn, u, (Env.get?_extend_of_ne w.env v hne).trans hu, h⟩
  scope := none
  within := nofun

theorem le_extend (w : Replacement σ) (y : Name) (v : Value) (hy : y ∉ w.names) :
    w.Le (w.extend y v hy) where
  names _ hx := .tail _ hx
  env _ hx := Env.get?_extend_of_ne w.env v fun e => hy (e ▸ hx)
  hidden _ h := h
  scope := nofun

/-- One more variable, also in the scope. -/
def bind (w : Replacement σ) (y : Name) (T : Value) (hy : y ∉ w.names) : Replacement σ :=
  { w.extend y (.ofVar y T) hy with
    scope := w.scope.map (·.bindFree y T)
    within := by
      intro Γ' h
      obtain ⟨Γ, hΓ, rfl⟩ := Option.map_eq_some_iff.1 h
      obtain ⟨hi, henv, hn⟩ := w.within Γ hΓ
      refine ⟨hi, congrArg (Env.extend · y (.ofVar y T)) henv, fun x hx => ?_⟩
      rcases List.mem_cons.1 hx with rfl | hx
      · exact .head _
      · exact .tail _ (hn x hx) }

theorem le_bind (w : Replacement σ) (y : Name) (T : Value) (hy : y ∉ w.names) :
    w.Le (w.bind y T hy) where
  names _ hx := .tail _ hx
  env _ hx := Env.get?_extend_of_ne w.env _ fun e => hy (e ▸ hx)
  hidden _ h := h
  scope := by
    intro Γ' h
    obtain ⟨Γ, hΓ, rfl⟩ := Option.map_eq_some_iff.1 h
    refine ⟨Γ, hΓ, fun x b hx => ?_⟩
    have hne : x ≠ y := fun e => hy (e ▸ (w.within Γ hΓ).2.2 x (Context.mem_names_of_lookup hx))
    rw [Context.lookup_bindFree, if_neg hne]
    exact hx

/-- One more name, which is hidden. -/
def hide (w : Replacement σ) (y : Name) : Replacement σ where
  names := y :: w.names
  env := w.env
  hidden := y :: w.hidden
  used z hz := by
    rcases List.mem_cons.1 hz with rfl | hz
    · exact .head _
    · exact .tail _ (w.used z hz)
  impossible b hb := by
    obtain ⟨hn, h⟩ := w.impossible b hb
    exact ⟨.tail _ hn, h⟩
  scope := w.scope
  within Γ hΓ := by
    obtain ⟨hi, henv, hn⟩ := w.within Γ hΓ
    exact ⟨hi, henv, fun x hx => .tail _ (hn x hx)⟩

theorem le_hide (w : Replacement σ) (y : Name) : w.Le (w.hide y) where
  names _ hx := .tail _ hx
  env _ _ := rfl
  hidden _ hx := .tail _ hx
  scope Γ h := ⟨Γ, h, fun _ _ h => h⟩

/-- A normal form has a value for a role, and in a scope it fits the role. It is stable if nothing is
hidden there. -/
structure Meets (w : Replacement σ) (n : Expr) (role : Role) : Prop where
  holds : ∃ v, Evals w.env n v ∧ role.Holds v
  fits : ∀ Γ, w.scope = some Γ → role.Fits (w.hidden = []) Γ n

theorem Meets.met {w : Replacement σ} {n : Expr} {role : Role} {Γ : Context} (h : w.Meets n role)
    (hΓ : w.scope = some Γ) : role.Met (w.hidden = []) Γ n :=
  ⟨(w.within Γ hΓ).2.1 ▸ h.holds, h.fits Γ hΓ⟩

/-- What a task reads back as plays a role. -/
def Gives (w : Replacement σ) (t : Task) (role : Role) : Prop :=
  ∀ n, Reads σ w.names t n → n.Avoids w.hidden → w.Meets n role

/-- `u`, of type `C`, is what the neutral form `e` stands for. -/
structure Stands (w : Replacement σ) (C : Value) (e : Neutral) (u : Value) : Prop where
  reads : Agree (.neutral e) (.neutral e)
  good : ElEq C u u
  gives : ∀ {w'}, w.Le w' → w'.Gives (.neutral e) (.neutral C u)

/-- A hidden variable stands for anything. -/
theorem stands_hide {w : Replacement σ} {y : Name} {C u : Value} (hu : ElEq C u u) :
    (w.hide y).Stands C (.var y) u where
  reads := .of_none (.var y) (.var y) (.var y)
  good := hu
  gives hw n hn avoids := by
    cases hn
    have := avoids y (hw.hidden y (.head _))
    simp [Expr.occursFree] at this

/-- The left value is stuck, at a type equal to `A`, and stands for the right one. -/
def Held (w : Replacement σ) (A C : Value) : Rel := fun v u =>
  ∃ T n, Forces v (.neutral T n) ∧ TyEq .large A T ∧ w.Stands C n u

variable {w w' : Replacement σ} {A A' C C' v v' u u' : Value} {e : Neutral}

theorem Stands.mono (h : w.Stands C e u) (hw : w.Le w') : w'.Stands C e u :=
  ⟨h.reads, h.good, fun hw' => h.gives (hw.trans hw')⟩

theorem Stands.conv (h : w.Stands C e u) (hC : TyEq .large C C') : w.Stands C' e u where
  reads := h.reads
  good := h.good.conv hC
  gives hw n hn ha := by
    obtain ⟨⟨t, ht, htu⟩, fits⟩ := h.gives hw n hn ha
    exact ⟨⟨t, ht, htu.conv hC⟩, fun Γ hΓ => (fits Γ hΓ).conv_neutral hC⟩

/-- A neutral form stands for everything equal to what it stands for. -/
theorem Stands.of_equal (h : w.Stands C e u) (hu : ElEq C u u') : w.Stands C e u' where
  reads := h.reads
  good := hu.refl_right
  gives hw n hn ha := by
    obtain ⟨⟨t, ht, htu⟩, fits⟩ := h.gives hw n hn ha
    exact ⟨⟨t, ht, htu.trans hu⟩, fun Γ hΓ => (fits Γ hΓ).conv_neutral hu.type⟩

theorem Stands.held {T : Value} (h : w.Stands C e u) (hT : TyEq .large A T) :
    w.Held A C (.neutral T e) u :=
  ⟨T, e, (forces_self rfl), hT, h⟩

theorem Held.mono (h : w.Held A C v u) (hw : w.Le w') : w'.Held A C v u := by
  obtain ⟨T, n, hv, hT, hn⟩ := h
  exact ⟨T, n, hv, hT, hn.mono hw⟩

theorem Held.conv (h : w.Held A C v u) (hA : TyEq .large A A') (hC : TyEq .large C C') :
    w.Held A' C' v u := by
  obtain ⟨T, n, hv, hT, hn⟩ := h
  exact ⟨T, n, hv, hA.symm.trans hT, hn.conv hC⟩

theorem held_congr (hA : TyEq .large A A') (hC : TyEq .large C C') : w.Held A C = w.Held A' C' :=
  funext fun _ => funext fun _ => propext ⟨(·.conv hA hC), (·.conv hA.symm hC.symm)⟩

theorem Held.form (h : w.Held A C v u) (hv : Coincides v v') (hu : Coincides u u') :
    w.Held A C v' u' := by
  obtain ⟨T, n, hn, hT, hs⟩ := h
  exact ⟨T, n, hv.forces hn, hT, hs.of_equal (hs.good.form_right hu)⟩

theorem Held.left (h : w.Held A C v u) : ElEq A v v := by
  obtain ⟨T, n, hv, hT, hn⟩ := h
  have := ElEq.reflect hT hT hn.reads
  exact (this.form hv.coincides.symm).form_right hv.coincides.symm

theorem Held.right (h : w.Held A C v u) : ElEq C u u := by
  obtain ⟨_, _, _, _, hn⟩ := h
  exact hn.good

end Replacement

/-! ## Types and their instances -/

section Definition

variable {σ : Style}

open Replacement

/-- Good elements of two types that `Q` relates. -/
def Full (A C : Value) (Q : Replacement σ → Rel) (w : Replacement σ) : Rel := fun v u =>
  ElEq A v v ∧ ElEq C u u ∧ Q w v u

/-- Numbers and their instances. -/
def NatGlued (w : Replacement σ) : Rel := NatForm (w.Held .nat .nat)

/-- The elements of a type without parts and their instances. -/
inductive ConstGlued (U : Option (Replacement σ → Rel)) : Const → (Replacement σ → Rel) → Prop
  | univ {Q} (hU : U = some Q) : ConstGlued U .univ Q
  | nat : ConstGlued U .nat NatGlued
  | atom : ConstGlued U .atom fun w => AtomForm (w.Held .atom .atom)
  | trivial : ConstGlued U .trivial fun _ _ _ => True
  | absurd : ConstGlued U .absurd fun w => w.Held .absurd .absurd

/-- Functions that give related results for related arguments, under further replacements too. -/
def FunctionGlued (r r' : Closure) (D : Replacement σ → Rel)
    (QB : Replacement σ → Value → Value → Replacement σ → Rel) (w : Replacement σ) : Rel :=
  fun f g => ∀ {w' a b c c' B B'}, w.Le w' → D w' a b → Calls f a c → Calls g b c' →
    Applies r a B → Applies r' b B' → Full B B' (QB w' a b) w' c c'

/-- Pairs with related parts. -/
def PairGlued (r r' : Closure) (D : Replacement σ → Rel)
    (QB : Replacement σ → Value → Value → Replacement σ → Rel) (w : Replacement σ) : Rel :=
  fun p q => ∀ {a a' b b' B B'}, Cars p a → Cars q a' → Cdrs p b → Cdrs q b' →
    Applies r a B → Applies r' a' B' → D w a a' ∧ Full B B' (QB w a a') w b b'

def QuantGlued : Quantifier → Closure → Closure → (Replacement σ → Rel) →
    (Replacement σ → Value → Value → Replacement σ → Rel) → Replacement σ → Rel
  | .pi => FunctionGlued
  | .sigma => PairGlued

/-- Types and their instances, with the relation between their elements. -/
inductive Glued (U : Option (Replacement σ → Rel)) :
    Replacement σ → Value → Value → (Replacement σ → Rel) → Prop
  | const {w A C c Q} (hA : Forces A (.const c)) (hC : Forces C (.const c))
      (hQ : ConstGlued U c Q) : Glued U w A C Q
  | stuck {w A C T e} (hA : Forces A (.neutral T e)) (hC : w.Stands .univ e C) :
      Glued U w A C fun w => w.Held A C
  | list {w A C E E' Q} (hA : Forces A (.list E)) (hC : Forces C (.list E'))
      (hE : Glued U w E E' Q) : Glued U w A C fun w => ListForm (w.Held A C) (Full E E' Q w)
  | vec {w A C E E' k k' Q} (hA : Forces A (.vec E k)) (hC : Forces C (.vec E' k'))
      (hE : Glued U w E E' Q) (hk : NatGlued w k k') : Glued U w A C fun w =>
        VecForm (fun k k' => w.Held (.vec E k) (.vec E' k')) (Full E E' Q w) k k'
  | either {w A C l l' r r' Q P} (hA : Forces A (.either l r)) (hC : Forces C (.either l' r'))
      (hl : Glued U w l l' Q) (hr : Glued U w r r' P) :
      Glued U w A C fun w => EitherForm (w.Held A C) (Full l l' Q w) (Full r r' P w)
  | equal {w A C K K' l l' r r' Q} (hA : Forces A (.equal K l r)) (hC : Forces C (.equal K' l' r'))
      (hK : Glued U w K K' Q) (hl : Full K K' Q w l l') (hr : Full K K' Q w r r') :
      Glued U w A C fun w => EqualForm (w.Held A C) fun a b => Full K K' Q w a b ∧
        (ElEq K l a ∧ ElEq K a r) ∧ ElEq K' l' b ∧ ElEq K' b r'
  | quant {w A C q x x' d d' r r' D QB} (hA : Forces A (.quant q x d r))
      (hC : Forces C (.quant q x' d' r')) (hd : Glued U w d d' D)
      (hB : ∀ {w' a b B B'}, w.Le w' → Full d d' D w' a b → Applies r a B → Applies r' b B' →
        Glued U w' B B' (QB w' a b)) :
      Glued U w A C (QuantGlued q r r' (Full d d' D) QB)

end Definition

theorem ElEq.congr {A A' : Value} (h : TyEq .large A A') : ElEq A = ElEq A' :=
  funext fun _ => funext fun _ => propext ⟨(·.conv h), (·.conv h.symm)⟩

theorem TyEq.range {ℓ : Size} {A A' d d' a a' B B' : Value} {q : Quantifier} {x x' : Name}
    {r r' : Closure} (h : TyEq ℓ A A') (hA : Forces A (.quant q x d r))
    (hA' : Forces A' (.quant q x' d' r')) (ha : ElEq d a a') (hB : Applies r a B)
    (hB' : Applies r' a' B') : TyEq ℓ B B' := by
  obtain ⟨_, _, _, h₁, _, hr⟩ := h.quant_inv hA
  cases h₁.unique hA'
  obtain ⟨C, C', hC, hC', hCC⟩ := hr a a' ha
  cases hC.unique hB
  cases hC'.unique hB'
  exact hCC

theorem TyEq.domain {ℓ : Size} {A A' d d' : Value} {q : Quantifier} {x x' : Name}
    {r r' : Closure} (h : TyEq ℓ A A') (hA : Forces A (.quant q x d r))
    (hA' : Forces A' (.quant q x' d' r')) : TyEq ℓ d d' := by
  obtain ⟨_, _, _, h₁, hd, _⟩ := h.quant_inv hA
  cases h₁.unique hA'
  exact hd

theorem ElEq.end_congr {K K' l l' : Value} (hK : TyEq .large K K') (hl : ElEq K l l') (a : Value) :
    (ElEq K l a ↔ ElEq K' l' a) ∧ (ElEq K a l ↔ ElEq K' a l') := by
  rw [← ElEq.congr hK]
  exact ⟨⟨hl.symm.trans, hl.trans⟩, ⟨(·.trans hl), (·.trans hl.symm)⟩⟩

theorem TyEq.applies {ℓ : Size} {A A' d a : Value} {q : Quantifier} {x : Name} {r : Closure}
    (h : TyEq ℓ A A') (hA : Forces A (.quant q x d r)) (ha : ElEq d a a) :
    ∃ B, Applies r a B := by
  obtain ⟨_, _, _, _, _, hr⟩ := h.quant_inv hA
  obtain ⟨B, _, hB, _⟩ := hr a a ha
  exact ⟨B, hB⟩

theorem VecForm.conv {K K' : Value → Value → Rel} {R : Rel} {k k' v u : Value}
    (hK : ∀ k k' l l' v u, NatEq k l → NatEq k' l' → K k k' v u → K' l l' v u)
    (h : VecForm K R k k' v u) :
    ∀ {l l'}, NatEq k l → NatEq k' l' → VecForm K' R l l' v u := by
  induction h with
  | nil hk hk' hv hu => exact fun hl hl' => .nil (hl.zero_inv hk) (hl'.zero_inv hk') hv hu
  | cons hk hk' hv hu h _ ih =>
      intro l l' hl hl'
      obtain ⟨_, hl₁, hkl⟩ := hl.add1_inv hk
      obtain ⟨_, hl₁', hkl'⟩ := hl'.add1_inv hk'
      exact .cons hl₁ hl₁' hv hu h (ih hkl hkl')
  | stuck h => exact fun hl hl' => .stuck (hK _ _ _ _ _ _ hl hl' h)

section Same

variable {σ : Style} {U U' : Option (Replacement σ → Rel)} {w w' : Replacement σ}
  {A A' C C' : Value} {Q Q' : Replacement σ → Rel}

/-- Quantified types with equal domains and ranges relate the same elements. -/
theorem QuantGlued.conv {q : Quantifier} {x x₁ x' x₁' : Name} {d d₁ d' d₁' v u : Value}
    {r r₁ r' r₁' : Closure} {D D₁ : Replacement σ → Rel}
    {QB QB₁ : Replacement σ → Value → Value → Replacement σ → Rel} (hAA : TyEq .large A A')
    (hCC : TyEq .large C C') (hA : Forces A (.quant q x d r)) (hC : Forces C (.quant q x' d' r'))
    (hA' : Forces A' (.quant q x₁ d₁ r₁)) (hC' : Forces C' (.quant q x₁' d₁' r₁'))
    (hD : ∀ {w'}, w.Le w' → Full d d' D w' = Full d₁ d₁' D₁ w')
    (hB : ∀ {w' a b B B₁ B' B₁'}, w.Le w' → Full d d' D w' a b → Applies r a B → Applies r₁ a B₁ →
      Applies r' b B' → Applies r₁' b B₁' → Full B B' (QB w' a b) w' = Full B₁ B₁' (QB₁ w' a b) w')
    (hv : ElEq A v v) (hu : ElEq C u u) (h : QuantGlued q r r' (Full d d' D) QB w v u) :
    QuantGlued q r₁ r₁' (Full d₁ d₁' D₁) QB₁ w v u := by
  cases q with
  | pi =>
      intro w' a b c c' B₁ B₁' hw hab hc hc' hB₁ hB₁'
      rw [← hD hw] at hab
      obtain ⟨B, hB₂⟩ := hAA.applies hA hab.1
      obtain ⟨B', hB₂'⟩ := hCC.applies hC hab.2.1
      rw [← hB hw hab hB₂ hB₁ hB₂' hB₁']
      exact h hw hab hc hc' hB₂ hB₂'
  | sigma =>
      intro a a' b b' B₁ B₁' ha ha' hb hb' hB₁ hB₁'
      obtain ⟨_, _, _, _, _, _, B, h₁, _, _, _, _, hB₂, _⟩ := (ElEq.sigma_iff hv.type hA).1 hv
      obtain ⟨_, _, _, _, _, _, B', h₂, _, _, _, _, hB₂', _⟩ := (ElEq.sigma_iff hu.type hC).1 hu
      cases h₁.unique ha
      cases h₂.unique ha'
      obtain ⟨haa, hbb⟩ := h ha ha' hb hb' hB₂ hB₂'
      rw [← hD (.refl w), ← hB (.refl w) haa hB₂ hB₁ hB₂' hB₁']
      exact ⟨haa, hbb⟩

/-- The relation between the elements of two types depends on the types only up to equality. -/
theorem Glued.same {w₁ : Replacement σ} (h : Glued U w₁ A C Q)
    (hU : ∀ {Q Q'}, U = some Q → U' = some Q' → Q = Q') :
    ∀ {w₂ w : Replacement σ} {A' C' : Value} {Q' : Replacement σ → Rel}, Glued U' w₂ A' C' Q' →
      TyEq .large A A' → TyEq .large C C' → w₁.Le w → w₂.Le w → Full A C Q w = Full A' C' Q' w := by
  -- It is enough to compare the relations that the two derivations give.
  have reduce : ∀ {w : Replacement σ} {A A' C C' : Value} {Q Q' : Replacement σ → Rel},
      TyEq .large A A' → TyEq .large C C' →
      (∀ {v u}, ElEq A v v → ElEq C u u → (Q w v u ↔ Q' w v u)) →
      Full A C Q w = Full A' C' Q' w := by
    intro w A A' C C' Q Q' hA hC hQ
    funext v u
    simp only [Full, ← ElEq.congr hA, ← ElEq.congr hC]
    exact propext (and_congr_right fun hv => and_congr_right fun hu => hQ hv hu)
  induction h with
  | const hA hC hQ =>
      intro w₂ w A' C' Q' h' hAA hCC hw hw'
      refine reduce hAA hCC fun {v u} _ _ => ?_
      have hA' := hAA.const_inv hA
      cases h' with
      | const hA₁ _ hQ' =>
          cases hA'.unique hA₁
          cases hQ with
          | univ h => cases hQ' with | univ h' => rw [hU h h']
          | _ => cases hQ'; rfl
      | _ hA₁ => cases hA'.unique hA₁
  | stuck hA hC =>
      intro w₂ w A' C' Q' h' hAA hCC hw hw'
      refine reduce hAA hCC fun {v u} _ _ => ?_
      obtain ⟨_, _, hA', _⟩ := hAA.stuck_inv hA
      cases h' with
      | stuck => rw [Replacement.held_congr hAA hCC]
      | _ hA₁ => cases hA'.unique hA₁
  | list hA hC hE ih =>
      intro w₂ w A' C' Q' h' hAA hCC hw hw'
      refine reduce hAA hCC fun {v u} _ _ => ?_
      obtain ⟨_, hA', hEE⟩ := hAA.list_inv hA
      obtain ⟨_, hC', hEE'⟩ := hCC.list_inv hC
      cases h' with
      | list hA₁ hC₁ hE' =>
          cases hA'.unique hA₁
          cases hC'.unique hC₁
          rw [Replacement.held_congr hAA hCC, ih hE' hEE hEE' hw hw']
      | _ hA₁ => cases hA'.unique hA₁
  | vec hA hC hE hk ih =>
      intro w₂ w A' C' Q' h' hAA hCC hw hw'
      refine reduce hAA hCC fun {v u} _ _ => ?_
      obtain ⟨_, _, hA', hEE, hkk⟩ := hAA.vec_inv hA
      obtain ⟨_, _, hC', hEE', hkk'⟩ := hCC.vec_inv hC
      cases h' with
      | vec hA₁ hC₁ hE' hk' =>
          cases hA'.unique hA₁
          cases hC'.unique hC₁
          rw [ih hE' hEE hEE' hw hw']
          have held : ∀ {E E₁ E' E₁' k k' l l' v u}, TyEq .large E E₁ → TyEq .large E' E₁' →
              NatEq k l → NatEq k' l' → w.Held (.vec E k) (.vec E' k') v u →
                w.Held (.vec E₁ l) (.vec E₁' l') v u := fun hE hE' hk hk' h =>
            h.conv (.vec (forces_self rfl) (forces_self rfl) hE ((ElEq.nat_iff (forces_self rfl)).2 hk))
              (.vec (forces_self rfl) (forces_self rfl) hE' ((ElEq.nat_iff (forces_self rfl)).2 hk'))
          have hn := (ElEq.nat_iff (forces_self rfl)).1 hkk
          have hn' := (ElEq.nat_iff (forces_self rfl)).1 hkk'
          constructor
          · refine fun h => h.conv ?_ hn hn'
            exact fun _ _ _ _ _ _ => held hEE hEE'
          · refine fun h => h.conv ?_ (NatEq.equality.symm hn) (NatEq.equality.symm hn')
            exact fun _ _ _ _ _ _ => held hEE.symm hEE'.symm
      | _ hA₁ => cases hA'.unique hA₁
  | either hA hC hl hr ihl ihr =>
      intro w₂ w A' C' Q' h' hAA hCC hw hw'
      refine reduce hAA hCC fun {v u} _ _ => ?_
      obtain ⟨_, _, hA', hll, hrr⟩ := hAA.either_inv hA
      obtain ⟨_, _, hC', hll', hrr'⟩ := hCC.either_inv hC
      cases h' with
      | either hA₁ hC₁ hl' hr' =>
          cases hA'.unique hA₁
          cases hC'.unique hC₁
          rw [Replacement.held_congr hAA hCC, ihl hl' hll hll' hw hw', ihr hr' hrr hrr' hw hw']
      | _ hA₁ => cases hA'.unique hA₁
  | equal hA hC hK hl hr ih =>
      intro w₂ w A' C' Q' h' hAA hCC hw hw'
      refine reduce hAA hCC fun {v u} _ _ => ?_
      obtain ⟨_, _, _, hA', hKK, hll, hrr⟩ := hAA.equal_inv hA
      obtain ⟨_, _, _, hC', hKK', hll', hrr'⟩ := hCC.equal_inv hC
      cases h' with
      | equal hA₁ hC₁ hK' hl' hr' =>
          cases hA'.unique hA₁
          cases hC'.unique hC₁
          simp only [Replacement.held_congr hAA hCC, ih hK' hKK hKK' hw hw',
            (ElEq.end_congr hKK hll _).1, (ElEq.end_congr hKK hrr _).2,
            (ElEq.end_congr hKK' hll' _).1, (ElEq.end_congr hKK' hrr' _).2]
      | _ hA₁ => cases hA'.unique hA₁
  | quant hA hC hd hB ihd ihB =>
      intro w₂ w A' C' Q' h' hAA hCC hw hw'
      refine reduce hAA hCC fun {v u} hv hu => ?_
      obtain ⟨_, _, _, hA', hdd, _⟩ := hAA.quant_inv hA
      obtain ⟨_, _, _, hC', hdd', _⟩ := hCC.quant_inv hC
      cases h' with
      | quant hA₁ hC₁ hd' hB' =>
          cases hA'.unique hA₁
          cases hC'.unique hC₁
          have hD : ∀ {w'}, w.Le w' → _ = _ := fun hw₁ =>
            ihd hd' hdd hdd' (hw.trans hw₁) (hw'.trans hw₁)
          have hB : ∀ {w' a b B B₁ B' B₁'}, w.Le w' → Full _ _ _ w' a b → Applies _ a B →
              Applies _ a B₁ → Applies _ b B' → Applies _ b B₁' → _ = _ :=
            fun hw₁ hab h₁ h₂ h₃ h₄ => ihB (hw.trans hw₁) hab h₁ h₃
              (hB' (hw'.trans hw₁) (hD hw₁ ▸ hab) h₂ h₄) (hAA.range hA hA₁ hab.1 h₁ h₂)
              (hCC.range hC hC₁ hab.2.1 h₃ h₄) (.refl _) (.refl _)
          refine ⟨.conv hAA hCC hA hC hA₁ hC₁ hD hB hv hu, ?_⟩
          refine .conv hAA.symm hCC.symm hA₁ hC₁ hA hC (fun hw₁ => (hD hw₁).symm) ?_ (hv.conv hAA)
            (hu.conv hCC)
          exact fun hw₁ hab h₁ h₂ h₃ h₄ => (hB hw₁ (hD hw₁ ▸ hab) h₂ h₁ h₄ h₃).symm
      | _ hA₁ => cases hA'.unique hA₁

end Same

/-! ## Further replacements and other forms -/

/-- What the universe must satisfy for the types above it to have instances. -/
structure Glued.Universe {σ : Style} (U : Option (Replacement σ → Rel)) : Prop where
  mono : ∀ {Q}, U = some Q → ∀ {w w' v u}, w.Le w' → Q w v u → Q w' v u
  onForms : ∀ {Q}, U = some Q → ∀ w, OnForms (Q w)

section Mono

variable {σ : Style} {U : Option (Replacement σ → Rel)} {w w' : Replacement σ}
  {A A' C C' v v' u u' : Value} {Q : Replacement σ → Rel}

theorem NatGlued.mono (hw : w.Le w') (h : NatGlued w v u) : NatGlued w' v u :=
  h.imp fun _ _ h => h.mono hw

theorem Glued.el_mono (hU : Universe U) {w₀ : Replacement σ} (h : Glued U w₀ A C Q) :
    ∀ {w w' v u}, w₀.Le w → w.Le w' → Full A C Q w v u → Full A C Q w' v u := by
  suffices ∀ {w w' v u}, w₀.Le w → w.Le w' → Full A C Q w v u → Q w' v u by
    intro w w' v u hw hw' h
    exact ⟨h.1, h.2.1, this hw hw' h⟩
  induction h with
  | const hA hC hQ =>
      intro w w' v u _ hw' hvu
      cases hQ with
      | univ h => exact hU.mono h hw' hvu.2.2
      | nat => exact NatGlued.mono hw' hvu.2.2
      | atom => exact hvu.2.2.imp fun _ _ h => h.mono hw'
      | trivial => trivial
      | absurd => exact hvu.2.2.mono hw'
  | stuck hA hC => exact fun _ hw' hvu => hvu.2.2.mono hw'
  | list hA hC hE ih =>
      intro w w' v u hw hw' hvu
      exact hvu.2.2.imp (fun _ _ h => h.mono hw') fun _ _ h => ⟨h.1, h.2.1, ih hw hw' h⟩
  | vec hA hC hE hk ih =>
      intro w w' v u hw hw' hvu
      exact hvu.2.2.imp (fun _ _ _ _ h => h.mono hw') fun _ _ h => ⟨h.1, h.2.1, ih hw hw' h⟩
  | either hA hC hl hr ihl ihr =>
      intro w w' v u hw hw' hvu
      exact hvu.2.2.imp (fun _ _ h => h.mono hw') (fun _ _ h => ⟨h.1, h.2.1, ihl hw hw' h⟩)
        fun _ _ h => ⟨h.1, h.2.1, ihr hw hw' h⟩
  | equal hA hC hK hl hr ih =>
      intro w w' v u hw hw' hvu
      exact hvu.2.2.imp (fun _ _ h => h.mono hw') fun _ _ h =>
        ⟨⟨h.1.1, h.1.2.1, ih hw hw' h.1⟩, h.2⟩
  | @quant _ _ _ q _ _ _ _ _ _ _ _ hA hC hd hB ihd ihB =>
      intro w w' v u hw hw' hvu
      cases q with
      | pi =>
          intro w₁ a b c c' B B' hw₁ hab
          exact hvu.2.2 (hw'.trans hw₁) hab
      | sigma =>
          intro a a' b b' B B' ha ha' hb hb' hB₁ hB₁'
          obtain ⟨haa, hbb⟩ := hvu.2.2 ha ha' hb hb' hB₁ hB₁'
          have haa₁ : Full _ _ _ w' a a' := ⟨haa.1, haa.2.1, ihd hw hw' haa⟩
          have hbb₁ := ihB hw haa hB₁ hB₁' (.refl w) hw' hbb
          refine ⟨haa₁, ?_⟩
          rw [← (hB hw haa hB₁ hB₁').same (fun h h' => by cases h.symm.trans h'; rfl)
            (hB (hw.trans hw') haa₁ hB₁ hB₁') hbb.1.type hbb.2.1.type hw' (.refl w')]
          exact ⟨hbb.1, hbb.2.1, hbb₁⟩

theorem Glued.mono (hU : Universe U) {w₀ : Replacement σ} (h : Glued U w₀ A C Q) :
    ∀ {w}, w₀.Le w → Glued U w A C Q := by
  induction h with
  | const hA hC hQ => exact fun _ => .const hA hC hQ
  | stuck hA hC => exact fun hw => .stuck hA (hC.mono hw)
  | list hA hC hE ih => exact fun hw => .list hA hC (ih hw)
  | vec hA hC hE hk ih => exact fun hw => .vec hA hC (ih hw) (NatGlued.mono hw hk)
  | either hA hC hl hr ihl ihr => exact fun hw => .either hA hC (ihl hw) (ihr hw)
  | equal hA hC hK hl hr ih =>
      exact fun hw => .equal hA hC (ih hw) (hK.el_mono hU (.refl _) hw hl)
        (hK.el_mono hU (.refl _) hw hr)
  | quant hA hC hd hB ihd ihB =>
      exact fun hw => .quant hA hC (ihd hw) fun hw' hab hB₁ hB₁' =>
        hB (hw.trans hw') hab hB₁ hB₁'

theorem Glued.el_form (hU : Universe U) {w₀ : Replacement σ} (h : Glued U w₀ A C Q)
    (hvu : Full A C Q w v u) (hv : Coincides v v') (hu : Coincides u u') : Full A C Q w v' u' := by
  refine ⟨(hvu.1.form hv).form_right hv, (hvu.2.1.form hu).form_right hu, ?_⟩
  have held : ∀ A C, OnForms (w.Held A C) := fun A C _ _ _ _ h => h.form
  have hQ := hvu.2.2
  cases h with
  | const _ _ hc =>
      cases hc with
      | univ h => exact hU.onForms h w hQ hv hu
      | nat => exact NatForm.onForms (held _ _) hQ hv hu
      | atom => exact AtomForm.onForms (held _ _) hQ hv hu
      | trivial => trivial
      | absurd => exact held _ _ hQ hv hu
  | stuck => exact held _ _ hQ hv hu
  | list => exact ListForm.onForms (held _ _) hQ hv hu
  | vec => exact VecForm.onForms (fun k k' => held (.vec _ k) (.vec _ k')) _ _ hQ hv hu
  | either => exact EitherForm.onForms (held _ _) hQ hv hu
  | equal => exact EqualForm.onForms (held _ _) hQ hv hu
  | @quant _ _ _ q =>
      cases q with
      | pi =>
          intro w₁ a b c c' B B' hw₁ hab hc hc'
          exact hQ hw₁ hab (hc.of_coincides hv.symm) (hc'.of_coincides hu.symm)
      | sigma =>
          intro a a' b b' B B' ha ha' hb hb'
          exact hQ (ha.of_coincides hv.symm) (ha'.of_coincides hu.symm) (hb.of_coincides hv.symm)
            (hb'.of_coincides hu.symm)

theorem Glued.form (h : Glued U w A C Q) (hA : Coincides A A') (hC : Coincides C C') :
    ∃ Q, Glued U w A' C' Q := by
  cases h with
  | const h h' hc => exact ⟨_, .const (hA.forces h) (hC.forces h') hc⟩
  | stuck h h' => exact ⟨_, .stuck (hA.forces h) (h'.of_equal (h'.good.form_right hC))⟩
  | list h h' hE => exact ⟨_, .list (hA.forces h) (hC.forces h') hE⟩
  | vec h h' hE hk => exact ⟨_, .vec (hA.forces h) (hC.forces h') hE hk⟩
  | either h h' hl hr => exact ⟨_, .either (hA.forces h) (hC.forces h') hl hr⟩
  | equal h h' hK hl hr => exact ⟨_, .equal (hA.forces h) (hC.forces h') hK hl hr⟩
  | quant h h' hd hB => exact ⟨_, .quant (hA.forces h) (hC.forces h') hd hB⟩

theorem Glued.lift (h : Glued none w A C Q) (U : Option (Replacement σ → Rel)) :
    Glued U w A C Q := by
  induction h with
  | const hA hC hQ =>
      refine .const hA hC ?_
      cases hQ with
      | univ h => cases h
      | nat => exact .nat
      | atom => exact .atom
      | trivial => exact .trivial
      | absurd => exact .absurd
  | stuck hA hC => exact .stuck hA hC
  | list hA hC _ ih => exact .list hA hC ih
  | vec hA hC _ hk ih => exact .vec hA hC ih hk
  | either hA hC _ _ ihl ihr => exact .either hA hC ihl ihr
  | equal hA hC _ hl hr ih => exact .equal hA hC ih hl hr
  | quant hA hC _ _ ihd ihB =>
      exact .quant hA hC ihd fun hw hab hB hB' => ihB hw hab hB hB'

end Mono

end TypeKernel
