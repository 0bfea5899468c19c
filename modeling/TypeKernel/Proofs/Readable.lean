/-
# TypeKernel.Proofs.Readable — equal elements read back alike

Equal elements of a type agree when read back at types of its class, equal types agree, and conversely
neutral forms that agree are equal elements. The three facts are proved together, one type former at a
time: to read back a function means to apply it to a variable, and the variable is an element of the
domain because neutral forms are.
-/
import TypeKernel.Proofs.Denotes

namespace TypeKernel

set_option autoImplicit false

/-- Equal elements and types read back alike, and neutral forms that do are equal. -/
structure Readable (S : Value → Prop) (R : Rel) : Prop where
  element : ∀ {A B v w}, S A → S B → R v w → Agree (.value A v) (.value B w)
  type : ∀ {A B}, S A → S B → Agree (.type A) (.type B)
  reflect : ∀ {A B e e'}, S A → S B → Agree (.neutral e) (.neutral e') →
    R (.neutral A e) (.neutral B e')

theorem forces_neutral (T : Value) (e : Neutral) : Forces (.neutral T e) (.neutral T e) :=
  (forces_self rfl)

namespace Agree

variable {A B A' B' v w v' w' d d' : Value} {x x' : Name} {r r' : Closure} {e e' : Neutral}

theorem value (hA : Forces A A') (hB : Forces B B') (h : Agree (.element A' v) (.element B' w)) :
    Agree (.value A v) (.value B w) :=
  h.of_one (fun _ n => n) (.value hA) (.value hB)

theorem type (hA : Forces A A') (hB : Forces B B') (h : Agree (.former A') (.former B')) :
    Agree (.type A) (.type B) :=
  h.of_one (fun _ n => n) (.type hA) (.type hB)

theorem byForm (hA : A.byForm = true) (hB : B.byForm = true) (hv : Forces v v')
    (hw : Forces w w') (h : Agree (.canonical A v') (.canonical B w')) :
    Agree (.element A v) (.element B w) :=
  h.of_one (fun _ n => n) (.byForm hA hv) (.byForm hB hw)

theorem stuckElement (hA : A.byForm = true) (hB : B.byForm = true) {S : Value → Prop}
    (h : Stuck S v w) : Agree (.element A v) (.element B w) := by
  obtain ⟨T, e, T', e', hv, hw, _, _, he⟩ := h
  exact byForm hA hB hv hw (he.of_one (fun _ n => n) .stuck .stuck)

/-- Variables of the domain show whether functions agree. -/
theorem lam {f g : Value} (hv : Forces v f) (hw : Forces w g)
    (h : ∀ y, ∃ B b B' b', Applies r (.ofVar y d) B ∧ Calls f (.ofVar y d) b ∧
      Applies r' (.ofVar y d') B' ∧ Calls g (.ofVar y d') b' ∧ Agree (.value B b) (.value B' b')) :
    Agree (.element (.pi x d r) v) (.element (.pi x' d' r') w) := by
  intro σ X
  have left : ∀ y, y = σ.pick X (ReadBack.hint x f) → ∃ n,
      Reads σ X (.element (.pi x d r) v) (.lam y n) := by
    intro y hy
    obtain ⟨B, b, B', b', hB, hb, _, _, a⟩ := h y
    obtain ⟨n, _, hn, _⟩ := a σ (y :: X)
    exact ⟨n, .lam hv hy hB hb hn⟩
  have right : ∀ y, y = σ.pick X (ReadBack.hint x' g) → ∃ n,
      Reads σ X (.element (.pi x' d' r') w) (.lam y n) := by
    intro y hy
    obtain ⟨B, b, B', b', _, _, hB, hb, a⟩ := h y
    obtain ⟨_, n, _, hn, _⟩ := a σ (y :: X)
    exact ⟨n, .lam hw hy hB hb hn⟩
  obtain ⟨n, hn⟩ := left _ rfl
  obtain ⟨n', hn'⟩ := right _ rfl
  refine ⟨_, _, hn, hn', ?_⟩
  rintro b rfl
  -- Without hints both sides use one name, and there the bodies agree.
  obtain ⟨B, c, B', c', hB, hc, hB', hc', a⟩ := h ((Style.byPlace b).pick X "")
  obtain ⟨m, m', hm, hm', heq⟩ := a (.byPlace b) (_ :: X)
  cases hn.deterministic (.lam hv rfl hB hc hm)
  cases hn'.deterministic (.lam hw rfl hB' hc' hm')
  rw [heq b rfl]
  rfl

theorem quant (q : Quantifier) (hd : Agree (.type d) (.type d'))
    (h : ∀ y, ∃ B B', Applies r (.ofVar y d) B ∧ Applies r' (.ofVar y d') B' ∧
      Agree (.type B) (.type B')) :
    Agree (.former (.quant q x d r)) (.former (.quant q x' d' r')) := by
  intro σ X
  obtain ⟨nd, nd', hnd, hnd', hdd⟩ := hd σ X
  obtain ⟨B, _, hB, _, a⟩ := h (σ.pick X x)
  obtain ⟨n, _, hn, _⟩ := a σ (σ.pick X x :: X)
  obtain ⟨_, B', _, hB', a'⟩ := h (σ.pick X x')
  obtain ⟨_, n', _, hn', _⟩ := a' σ (σ.pick X x' :: X)
  have left : Reads σ X _ _ := .quant (q := q) rfl hnd hB hn
  have right : Reads σ X _ _ := .quant (q := q) rfl hnd' hB' hn'
  refine ⟨_, _, left, right, ?_⟩
  rintro b rfl
  obtain ⟨C, C', hC, hC', a⟩ := h ((Style.byPlace b).pick X "")
  obtain ⟨m, m', hm, hm', heq⟩ := a (.byPlace b) (_ :: X)
  cases left.deterministic (.quant rfl hnd hC hm)
  cases right.deterministic (.quant rfl hnd' hC' hm')
  rw [heq b rfl, hdd b rfl]
  rfl

end Agree

/-! ## The type formers -/

theorem Stuck.of_agree {S : Value → Prop} {A B : Value} {e e' : Neutral} (hA : S A) (hB : S B)
    (he : Agree (.neutral e) (.neutral e')) : Stuck S (.neutral A e) (.neutral B e') :=
  ⟨A, e, B, e', forces_neutral A e, forces_neutral B e', hA, hB, he⟩

theorem NatEq.agree {v w : Value} (h : NatEq v w) : Agree (.element .nat v) (.element .nat w) := by
  induction h with
  | zero hv hw => exact .byForm rfl rfl hv hw (.of_none .zero .zero .zero)
  | add1 hv hw _ ih =>
      have hn := (forces_self (v := .nat) rfl)
      exact .byForm rfl rfl hv hw ((Agree.value hn hn ih).of_one (fun _ n => .add1 n) .add1 .add1)
  | stuck h => exact .stuckElement rfl rfl h

theorem AtomForm.agree {S : Value → Prop} {v w : Value} (h : AtomForm (Stuck S) v w) :
    Agree (.element .atom v) (.element .atom w) := by
  cases h with
  | quote hv hw => exact .byForm rfl rfl hv hw (.of_none (.quote _) (.quote _) (.quote _))
  | stuck h => exact .stuckElement rfl rfl h

theorem Impossible.agree {v w : Value} (h : Impossible v w) :
    Agree (.element .absurd v) (.element .absurd w) := by
  obtain ⟨⟨T, e, _, _, hv, _, _, _, he⟩, ⟨T', e', _, _, hw, _, _, _, he'⟩⟩ := h
  intro σ X
  obtain ⟨n, _, hn, _⟩ := he σ X
  obtain ⟨n', _, hn', _⟩ := he' σ X
  refine ⟨_, _, .absurd hv hn, .absurd hw hn', ?_⟩
  rintro b rfl
  rfl

namespace Readable

/-- What the universe must satisfy for the types above it to be readable. -/
structure Universe (U : Option Rel) : Prop where
  equality : ∀ R, U = some R → Equality R
  type : ∀ R, U = some R → ∀ {A B}, R A B → Agree (.type A) (.type B)
  reflect : ∀ R, U = some R → ∀ {A B e e'}, Forces A .univ → Forces B .univ →
    Agree (.neutral e) (.neutral e') → R (.neutral A e) (.neutral B e')

theorem const {U : Option Rel} (hU : Universe U) {c : Const} {R : Rel} (h : ConstEq U c R) :
    Readable (Forces · (.const c)) R where
  element := by
    intro A B v w hA hB hvw
    refine .value hA hB ?_
    cases h with
    | univ hR => exact (hU.type R hR hvw).of_one (fun _ n => n) .univ .univ
    | nat => exact NatEq.agree hvw
    | atom => exact AtomForm.agree hvw
    | trivial => exact .of_none .sole .sole .sole
    | absurd => exact Impossible.agree hvw
  type := by
    intro A B hA hB
    have hc : c.isType = true := by cases h <;> rfl
    exact .type hA hB (.of_none (.const c) (.const hc) (.const hc))
  reflect := by
    intro A B e e' hA hB he
    cases h with
    | univ hR => exact hU.reflect R hR hA hB he
    | nat => exact .stuck (.of_agree hA hB he)
    | atom => exact .stuck (.of_agree hA hB he)
    | trivial =>
        exact ⟨.inr (.of_agree hA hA he.refl_left), .inr (.of_agree hB hB he.refl_right)⟩
    | absurd => exact ⟨.of_agree hA hA he.refl_left, .of_agree hB hB he.refl_right⟩

theorem stuck (e : Neutral) : Readable (StuckClass e) (Stuck (StuckClass e)) where
  element := by
    rintro A B v w ⟨T, e₁, hA, _⟩ ⟨T', e₂, hB, _⟩ hvw
    exact .value hA hB (.stuckElement rfl rfl hvw)
  type := by
    rintro A B ⟨T, e₁, hA, _, he₁⟩ ⟨T', e₂, hB, _, he₂⟩
    exact .type hA hB ((he₁.symm.trans he₂).of_one (fun _ n => n) .stuckType .stuckType)
  reflect := fun hA hB he => .of_agree hA hB he

section Parts

variable {S S' : Value → Prop} {R R' : Rel}

theorem list (h : Readable S R) : Readable (ListClass S) (ListForm (Stuck (ListClass S)) R) where
  element := by
    rintro A B v w ⟨E, hA, hE⟩ ⟨E', hB, hE'⟩ hvw
    refine .value hA hB ?_
    induction hvw with
    | nil hv hw => exact .byForm rfl rfl hv hw (.of_none .nil .nil .nil)
    | cons hv hw h₁ _ ih =>
        have hs := Agree.value hA.self hB.self ih
        exact .byForm rfl rfl hv hw
          ((h.element hE hE' h₁).of_two (fun _ n ns => .listCons n ns) .listCons .listCons hs)
    | stuck h => exact .stuckElement rfl rfl h
  type := by
    rintro A B ⟨E, hA, hE⟩ ⟨E', hB, hE'⟩
    exact .type hA hB ((h.type hE hE').of_one (fun _ n => .list n) .list .list)
  reflect := fun hA hB he => .stuck (.of_agree hA hB he)

theorem vec (h : Readable S R) (k : Value) : Readable (VecClass S k) (VecEq S R k) where
  element := by
    -- The lengths in the two types shrink together with the vectors.
    suffices ∀ {k l v w}, VecForm (fun k _ => Stuck (VecClass S k)) R k l v w → k = l →
        ∀ {A B}, VecClass S k A → VecClass S k B → Agree (.value A v) (.value B w) by
      intro A B v w hA hB hvw
      exact this hvw rfl hA hB
    intro k l v w hvw
    induction hvw with
    | nil _ _ hv hw =>
        rintro rfl A B ⟨E, m, hA, _⟩ ⟨E', m', hB, _⟩
        exact .value hA hB (.byForm rfl rfl hv hw (.of_none .vecNil .vecNil .vecNil))
    | cons hk hl hv hw h₁ _ ih =>
        rintro rfl A B ⟨E, m, hA, hE, hm⟩ ⟨E', m', hB, hE', hm'⟩
        cases hk.unique hl
        obtain ⟨m₁, hm₁, hkm⟩ := hm.add1_inv hk
        obtain ⟨m₂, hm₂, hkm'⟩ := hm'.add1_inv hk
        have hs := ih rfl ⟨E, m₁, (forces_self rfl), hE, hkm⟩
          ⟨E', m₂, (forces_self rfl), hE', hkm'⟩
        exact .value hA hB (.byForm rfl rfl hv hw ((h.element hE hE' h₁).of_two
          (fun _ n ns => .vecCons n ns) (.vecCons hm₁) (.vecCons hm₂) hs))
    | stuck h =>
        rintro rfl A B ⟨E, m, hA, _⟩ ⟨E', m', hB, _⟩
        exact .value hA hB (.stuckElement rfl rfl h)
  type := by
    rintro A B ⟨E, m, hA, hE, hm⟩ ⟨E', m', hB, hE', hm'⟩
    have hn := (forces_self (v := .nat) rfl)
    have hmm := NatEq.equality.trans (NatEq.equality.symm hm) hm'
    exact .type hA hB ((h.type hE hE').of_two (fun _ n k => .vec n k) .vec .vec
      (.value hn hn hmm.agree))
  reflect := fun hA hB he => .stuck (.of_agree hA hB he)

theorem either (hl : Readable S R) (hr : Readable S' R') :
    Readable (EitherClass S S') (EitherForm (Stuck (EitherClass S S')) R R') where
  element := by
    rintro A B v w ⟨l, r, hA, hS, hS'⟩ ⟨l', r', hB, hT, hT'⟩ hvw
    refine .value hA hB ?_
    cases hvw with
    | left hv hw h =>
        exact .byForm rfl rfl hv hw ((hl.element hS hT h).of_one (fun _ n => .left n) .left .left)
    | right hv hw h =>
        exact .byForm rfl rfl hv hw
          ((hr.element hS' hT' h).of_one (fun _ n => .right n) .right .right)
    | stuck h => exact .stuckElement rfl rfl h
  type := by
    rintro A B ⟨l, r, hA, hS, hS'⟩ ⟨l', r', hB, hT, hT'⟩
    exact .type hA hB
      ((hl.type hS hT).of_two (fun _ l r => .either l r) .either .either (hr.type hS' hT'))
  reflect := fun hA hB he => .stuck (.of_agree hA hB he)

theorem equal (E : Equality R) (h : Readable S R) (l r : Value) :
    Readable (EqualClass S R l r)
      (EqualForm (Stuck (EqualClass S R l r)) fun a b => R a b ∧ R l a ∧ R a r) where
  element := by
    rintro A B v w ⟨C, l₁, r₁, hA, hC, _⟩ ⟨C', l₂, r₂, hB, hC', _⟩ hvw
    refine .value hA hB ?_
    cases hvw with
    | same hv hw h₁ =>
        exact .byForm rfl rfl hv hw
          ((h.element hC hC' h₁.1).of_one (fun _ n => .same n) .same .same)
    | stuck h => exact .stuckElement rfl rfl h
  type := by
    rintro A B ⟨C, l₁, r₁, hA, hC, hl, hr⟩ ⟨C', l₂, r₂, hB, hC', hl', hr'⟩
    exact .type hA hB ((h.type hC hC').of_three (fun _ t l r => .equal t l r) .equal .equal
      (h.element hC hC' (E.trans (E.symm hl) hl')) (h.element hC hC' (E.trans (E.symm hr) hr')))
  reflect := fun hA hB he => .stuck (.of_agree hA hB he)

end Parts

section Quantified

variable {S : Value → Prop} {R : Rel} {SB : Value → Value → Prop} {RB : Value → Rel}
  (h : Readable S R) (hB : ∀ a, R a a → Readable (SB a) (RB a))
  (hS : ∀ a a', R a a' → SB a = SB a')

include hS in
theorem range {r r' : Closure} (E : Equality R) (hr : ∀ a, R a a → ∃ B, Applies r a B ∧ SB a B)
    (hr' : ∀ a, R a a → ∃ B, Applies r' a B ∧ SB a B) {a a' : Value} (ha : R a a') :
    ∃ B B', Applies r a B ∧ Applies r' a' B' ∧ SB a B ∧ SB a B' := by
  obtain ⟨B, hB, hSB⟩ := hr a (E.refl_left ha)
  obtain ⟨B', hB', hSB'⟩ := hr' a' (E.refl_right ha)
  exact ⟨B, B', hB, hB', hSB, hS a a' ha ▸ hSB'⟩

include h

theorem ofVar {d d' : Value} (hd : S d) (hd' : S d') (y : Name) :
    R (.ofVar y d) (.ofVar y d') :=
  h.reflect hd hd' (.of_none (.var y) (.var y) (.var y))

include hB hS

theorem quantType (E : Equality R) (q : Quantifier) {A B : Value} (hA : QuantClass q S R SB A)
    (hA' : QuantClass q S R SB B) : Agree (.type A) (.type B) := by
  obtain ⟨x, d, r, hA, hd, hr⟩ := hA
  obtain ⟨x', d', r', hA', hd', hr'⟩ := hA'
  refine .type hA hA' (.quant q (h.type hd hd') fun y => ?_)
  have hy := h.ofVar hd hd' y
  obtain ⟨B, B', hB₁, hB₂, hSB, hSB'⟩ := range hS E hr hr' hy
  exact ⟨B, B', hB₁, hB₂, (hB _ (E.refl_left hy)).type hSB hSB'⟩

theorem pi (E : Equality R) :
    Readable (QuantClass .pi S R SB) (FunctionEq (QuantClass .pi S R SB) R RB) where
  element := by
    rintro A B f g ⟨x, d, r, hA, hd, hr⟩ ⟨x', d', r', hA', hd', hr'⟩ ⟨hf, hg, hfg⟩
    have form : ∀ {f}, FunctionIn (QuantClass .pi S R SB) f → ∃ f', Forces f f' := by
      rintro f (⟨x, c, hf⟩ | ⟨T, e, hf, _⟩)
      · exact ⟨_, hf⟩
      · exact ⟨_, hf⟩
    obtain ⟨f', hf'⟩ := form hf
    obtain ⟨g', hg'⟩ := form hg
    refine .value hA hA' (.lam hf' hg' fun y => ?_)
    have hy := h.ofVar hd hd' y
    obtain ⟨B, B', hB₁, hB₂, hSB, hSB'⟩ := range hS E hr hr' hy
    obtain ⟨b, b', hb, hb', hbb⟩ := hfg _ _ hy
    exact ⟨B, b, B', b', hB₁, hb.of_coincides hf'.coincides, hB₂, hb'.of_coincides hg'.coincides,
      (hB _ (E.refl_left hy)).element hSB hSB' hbb⟩
  type := h.quantType hB hS E .pi
  reflect := by
    rintro A B e e' hA hA' he
    refine ⟨.inr ⟨A, e, forces_neutral A e, hA⟩, .inr ⟨B, e', forces_neutral B e', hA'⟩, ?_⟩
    intro a a' ha
    obtain ⟨x, d, r, hA, hd, hr⟩ := hA
    obtain ⟨x', d', r', hA', hd', hr'⟩ := hA'
    obtain ⟨B₁, B₂, hB₁, hB₂, hSB, hSB'⟩ := range hS E hr hr' ha
    refine ⟨_, _, .neutral (forces_neutral A e) hA hB₁, .neutral (forces_neutral B e') hA' hB₂, ?_⟩
    exact (hB a (E.refl_left ha)).reflect hSB hSB'
      (he.of_two (fun _ f a => .app f a) .app .app (h.element hd hd' ha))

theorem sigma (E : Equality R) :
    Readable (QuantClass .sigma S R SB) (PairEq (QuantClass .sigma S R SB) R RB) where
  element := by
    rintro A B p q ⟨x, d, r, hA, hd, hr⟩ ⟨x', d', r', hA', hd', hr'⟩
      ⟨_, _, a, b, a', b', ha, hb, ha', hb', haa, hbb⟩
    obtain ⟨B, B', hB₁, hB₂, hSB, hSB'⟩ := range hS E hr hr' haa
    refine .value hA hA' ((h.element hd hd' haa).of_two (fun _ l r => .cons l r) ?_ ?_
      ((hB a (E.refl_left haa)).element hSB hSB' hbb))
    · exact fun hl hn => .cons ha hb hl hB₁ hn
    · exact fun hl hn => .cons ha' hb' hl hB₂ hn
  type := h.quantType hB hS E .sigma
  reflect := by
    rintro A B e e' hA hA' he
    refine ⟨.inr ⟨A, e, forces_neutral A e, hA⟩, .inr ⟨B, e', forces_neutral B e', hA'⟩, ?_⟩
    obtain ⟨x, d, r, hA, hd, hr⟩ := hA
    obtain ⟨x', d', r', hA', hd', hr'⟩ := hA'
    have haa : R (.neutral d (.proj .car e)) (.neutral d' (.proj .car e')) :=
      h.reflect hd hd' (he.of_one (fun _ n => .proj .car n) (.proj .car) (.proj .car))
    obtain ⟨B₁, B₂, hB₁, hB₂, hSB, hSB'⟩ := range hS E hr hr' haa
    refine ⟨_, _, _, _, .neutral (forces_neutral A e) hA, .neutral (forces_neutral A e) hA hB₁,
      .neutral (forces_neutral B e') hA', .neutral (forces_neutral B e') hA' hB₂, haa, ?_⟩
    exact (hB _ (E.refl_left haa)).reflect hSB hSB'
      (he.of_one (fun _ n => .proj .cdr n) (.proj .cdr) (.proj .cdr))

end Quantified

end Readable

theorem Denotes.readable {U : Option Rel} (hU : Readable.Universe U) {A : Value}
    {S : Value → Prop} {R : Rel} (h : Denotes U A S R) : Readable S R := by
  induction h with
  | const _ hR => exact .const hU hR
  | stuck => exact .stuck _
  | list _ _ ih => exact ih.list
  | vec _ _ _ ih => exact ih.vec _
  | either _ _ _ ihl ihr => exact ihl.either ihr
  | equal _ hC _ _ ih => exact ih.equal (hC.equality hU.equality) _ _
  | @quant _ q _ _ _ _ _ _ _ _ _ hd _ _ hS _ ihd ihB =>
      have E := hd.equality hU.equality
      cases q with
      | pi => exact ihd.pi ihB hS E
      | sigma => exact ihd.sigma ihB hS E

end TypeKernel
