/-
# TypeKernel.Proofs.Motives — the types of motives and steps

Eliminators ask types of their motives, bases and steps that are computed from the type of the target.
These types are equal whenever what they are computed from is, and related in every interpretation
whenever what they are computed from is.
-/
import TypeKernel.Proofs.Exact

namespace TypeKernel

set_option autoImplicit false

open Value

/-! ## Constructors -/

namespace Frame.Lawful

variable {I : Frame} (H : I.Lawful) {w : I.World}
  {E E' K K' a a' as as' k k' l l' r r' : Value}

include H

theorem zero : I.el w .nat .nat .zero .zero :=
  (H.elements.nat (forces_self rfl) (forces_self rfl)).2
    (.zero (forces_self rfl) (forces_self rfl))

theorem add1 (h : I.el w .nat .nat a a') : I.el w .nat .nat (.add1 a) (.add1 a') := by
  have iff := fun {v u} => H.elements.nat (w := w) (v := v) (u := u) (forces_self (v := .nat) rfl)
    (forces_self (v := .nat) rfl)
  exact iff.2 (.add1 (forces_self rfl) (forces_self rfl) (iff.1 h))

theorem nil (h : I.ty .large w E E') : I.el w (.list E) (.list E') .nil .nil :=
  (H.elements.list (H.formers.list h) (forces_self rfl) (forces_self rfl)).2
    (.nil (forces_self rfl) (forces_self rfl))

theorem listCons (h : I.el w E E' a a') (hs : I.el w (.list E) (.list E') as as') :
    I.el w (.list E) (.list E') (.listCons a as) (.listCons a' as') := by
  have iff := fun {v u} => H.elements.list (w := w) (v := v) (u := u) (H.formers.list (H.general.el_ty h))
    (forces_self rfl) (forces_self rfl)
  exact iff.2 (.cons (forces_self rfl) (forces_self rfl) h (iff.1 hs))

theorem vecNil (h : I.ty .large w E E') :
    I.el w (.vec E .zero) (.vec E' .zero) .vecNil .vecNil :=
  (H.elements.vec (H.formers.vec h H.zero) (forces_self rfl) (forces_self rfl)).2
    (.nil (forces_self rfl) (forces_self rfl) (forces_self rfl)
      (forces_self rfl))

theorem vecCons (hk : I.el w .nat .nat k k') (h : I.el w E E' a a')
    (hs : I.el w (.vec E k) (.vec E' k') as as') :
    I.el w (.vec E (.add1 k)) (.vec E' (.add1 k')) (.vecCons a as) (.vecCons a' as') := by
  have hE := H.general.el_ty h
  have hs' := (H.elements.vec (H.formers.vec hE hk) (forces_self rfl) (forces_self rfl)).1 hs
  exact (H.elements.vec (H.formers.vec hE (H.add1 hk)) (forces_self rfl) (forces_self rfl)).2
    (.cons (forces_self rfl) (forces_self rfl) (forces_self rfl)
      (forces_self rfl) h hs')

theorem left (h : I.el w l l' a a') (hr : I.ty .large w r r') :
    I.el w (.either l r) (.either l' r') (.left a) (.left a') :=
  (H.elements.either (H.formers.either (H.general.el_ty h) hr) (forces_self rfl) (forces_self rfl)).2
    (.left (forces_self rfl) (forces_self rfl) h)

theorem right (hl : I.ty .large w l l') (h : I.el w r r' a a') :
    I.el w (.either l r) (.either l' r') (.right a) (.right a') :=
  (H.elements.either (H.formers.either hl (H.general.el_ty h)) (forces_self rfl) (forces_self rfl)).2
    (.right (forces_self rfl) (forces_self rfl) h)

theorem same (h : I.el w K K' a a') :
    I.el w (.equal K a a) (.equal K' a' a') (.same a) (.same a') := by
  refine (H.elements.equal (H.formers.equal (H.general.el_ty h) h h) (forces_self rfl)
    (forces_self rfl)).2 ?_
  have ha := H.general.el_left h
  have ha' := H.general.el_right h
  exact .same (forces_self rfl) (forces_self rfl) ⟨h, ⟨ha, ha⟩, ha', ha'⟩

end Frame.Lawful

/-! ## Equality -/

namespace ElEq

variable {A d E K a a' b f g k as as' m m' : Value} {x : Name} {r : Closure}

theorem call (h : ElEq A f g) (hA : Forces A (.pi x d r)) (ha : ElEq d a a') :
    ∃ b b' B, Calls f a b ∧ Calls g a' b' ∧ Applies r a B ∧ ElEq B b b' :=
  ((pi_iff h.type hA).1 h).2.2 a a' ha

theorem of_calls {b' B : Value} (h : ElEq A f g) (hA : Forces A (.pi x d r)) (ha : ElEq d a a')
    (hb : Calls f a b) (hb' : Calls g a' b') (hB : Applies r a B) : ElEq B b b' := by
  obtain ⟨_, _, _, h₁, h₂, h₃, hbb⟩ := h.call hA ha
  cases hb.unique h₁
  cases hb'.unique h₂
  cases hB.unique h₃
  exact hbb

/-- Equal pairs have equal parts. -/
theorem of_parts {b' B p q : Value} (h : ElEq A p q) (hA : Forces A (.sigma x d r))
    (ha : Cars p a) (ha' : Cars q a') (hb : Cdrs p b) (hb' : Cdrs q b') (hB : Applies r a B) :
    ElEq d a a' ∧ ElEq B b b' := by
  obtain ⟨_, _, _, _, _, _, _, h₁, h₂, h₃, h₄, haa, h₅, hbb⟩ := (sigma_iff h.type hA).1 h
  cases ha.unique h₁
  cases hb.unique h₂
  cases ha'.unique h₃
  cases hb'.unique h₄
  cases hB.unique h₅
  exact ⟨haa, hbb⟩

theorem zero : ElEq .nat .zero .zero :=
  (Frame.exact.lawful.zero (w := ())).2

theorem add1 (h : ElEq .nat a a') : ElEq .nat (.add1 a) (.add1 a') :=
  (Frame.exact.lawful.add1 (w := ()) ⟨h.type, h⟩).2

theorem listCons (h : ElEq E a a') (hs : ElEq (.list E) as as') :
    ElEq (.list E) (.listCons a as) (.listCons a' as') :=
  (Frame.exact.lawful.listCons (w := ()) ⟨h.type, h⟩ ⟨hs.type, hs⟩).2

theorem vecCons (hk : ElEq .nat k k) (h : ElEq E a a') (hs : ElEq (.vec E k) as as') :
    ElEq (.vec E (.add1 k)) (.vecCons a as) (.vecCons a' as') :=
  (Frame.exact.lawful.vecCons (w := ()) ⟨hk.type, hk⟩ ⟨h.type, h⟩ ⟨hs.type, hs⟩).2

theorem left {l r : Value} (hr : TyEq .large r r) (h : ElEq l a a') :
    ElEq (.either l r) (.left a) (.left a') :=
  (Frame.exact.lawful.left (w := ()) ⟨h.type, h⟩ hr).2

theorem right {l r : Value} (hl : TyEq .large l l) (h : ElEq r a a') :
    ElEq (.either l r) (.right a) (.right a') :=
  (Frame.exact.lawful.right (w := ()) hl ⟨h.type, h⟩).2

theorem same (h : ElEq K a a') : ElEq (.equal K a a) (.same a) (.same a') := by
  have hE : TyEq .large (.equal K a a) (.equal K a a) :=
    .equal (forces_self rfl) (forces_self rfl) h.type h.refl_left h.refl_left
  exact (equal_iff hE (forces_self rfl)).2
    (.same (forces_self rfl) (forces_self rfl) ⟨h, h.refl_left, h.refl_left⟩)

theorem motive (h : ElEq (.piFamily x d (.always .univ)) m m') (ha : ElEq d a a') :
    ∃ D D', Calls m a D ∧ Calls m' a' D' ∧ TyEq .small D D' := by
  obtain ⟨D, D', B, hD, hD', hB, hDD⟩ := h.call (forces_self rfl) ha
  cases hB.unique .always
  exact ⟨D, D', hD, hD', (univ_iff (forces_self rfl)).1 hDD⟩

end ElEq

namespace TyEq

variable {A B B' C C' D D' E E' K K' a a' here here' l l' m m' v v' : Value} {ℓ : Size}

theorem nat : TyEq ℓ .nat .nat := .const (by cases ℓ <;> rfl) (forces_self rfl) (forces_self rfl)

theorem univ : TyEq .large .univ .univ := .const rfl (forces_self rfl) (forces_self rfl)

theorem piFamily {x : Name} {f f' : Family} (h : TyEq ℓ A B)
    (hf : ∀ a a', ElEq A a a' → ∃ C C', Applies (.family x f) a C ∧ Applies (.family x f') a' C' ∧
      TyEq ℓ C C') : TyEq ℓ (.piFamily x A f) (.piFamily x B f') :=
  .quant (forces_self rfl) (forces_self rfl) h hf

theorem arrow {x : Name} (h : TyEq ℓ A B) (hC : TyEq ℓ C D) :
    TyEq ℓ (.piFamily x A (.always C)) (.piFamily x B (.always D)) :=
  .piFamily h fun _ _ _ => ⟨C, D, .always, .always, hC⟩

/-- Functions from one type into the motive at a fixed value. -/
theorem step {x : Name} (h : TyEq ℓ here here') (hD : Calls m v D) (hD' : Calls m' v' D')
    (hDD : TyEq ℓ D D') :
    TyEq ℓ (.piFamily x here (.fixed m v)) (.piFamily x here' (.fixed m' v')) :=
  .piFamily h fun _ _ _ => ⟨D, D', .fixed hD, .fixed hD', hDD⟩

theorem natFoldStep {f : Fold} {S : Value → Value} (hf : NatFold f S) (h : TyEq .large B B') :
    TyEq .large (S B) (S B') := by
  cases hf with
  | which => exact arrow nat h
  | iter => exact arrow h h
  | recur => exact arrow nat (arrow h h)

theorem recListStep (hE : TyEq .large E E') (h : TyEq .large B B') :
    TyEq .large (.recListStep E B) (.recListStep E' B') :=
  arrow hE (arrow (.list (forces_self rfl) (forces_self rfl) hE) (arrow h h))

theorem natMotive : TyEq .large .natMotive .natMotive := arrow nat univ

theorem listMotive (h : TyEq .large E E') : TyEq .large (.listMotive E) (.listMotive E') :=
  arrow (.list (forces_self rfl) (forces_self rfl) h) univ

theorem simpleMotive (h : TyEq .large K K') : TyEq .large (.simpleMotive K) (.simpleMotive K') :=
  arrow h univ

theorem vecMotive (h : TyEq .large E E') : TyEq .large (.vecMotive E) (.vecMotive E') :=
  .piFamily nat fun _ _ hk =>
    ⟨_, _, .vecMotive, .vecMotive, arrow (.vec (forces_self rfl) (forces_self rfl) h hk) univ⟩

theorem equalMotive (h : TyEq .large K K') (hl : ElEq K l l') :
    TyEq .large (.equalMotive K l) (.equalMotive K' l') :=
  .piFamily h fun _ _ ha =>
    ⟨_, _, .equalMotive, .equalMotive, arrow (.equal (forces_self rfl) (forces_self rfl) h hl ha) univ⟩

theorem indNatStep (h : ElEq .natMotive m m') :
    TyEq .large (.indNatStep m) (.indNatStep m') := by
  refine .piFamily nat fun a a' ha => ?_
  obtain ⟨D, D', hD, hD', hDD⟩ := h.motive ha
  obtain ⟨N, N', hN, hN', hNN⟩ := h.motive ha.add1
  exact ⟨_, _, .natStep hD, .natStep hD', step hDD.lift hN hN' hNN.lift⟩

theorem indListStep (hE : TyEq .large E E') (h : ElEq (.listMotive E) m m') :
    TyEq .large (.indListStep E m) (.indListStep E' m') := by
  have hL : TyEq .large (.list E) (.list E') := .list (forces_self rfl) (forces_self rfl) hE
  refine .piFamily hE fun a a' ha => ⟨_, _, .listStep, .listStep, .piFamily hL fun as as' has => ?_⟩
  obtain ⟨D, D', hD, hD', hDD⟩ := h.motive has
  obtain ⟨N, N', hN, hN', hNN⟩ := h.motive (ha.listCons has)
  exact ⟨_, _, .listStepTail hD, .listStepTail hD', step hDD.lift hN hN' hNN.lift⟩

/-- One constructor of `Either` gives an element of it. -/
theorem eitherCase {u : Unary} (h : TyEq .large K K') (hm : ElEq (.simpleMotive C) m m')
    (hu : ∀ a a', ElEq K a a' → ElEq C (.unary u a) (.unary u a')) :
    TyEq .large (.eitherCase u K m) (.eitherCase u K' m') := by
  refine .piFamily h fun a a' ha => ?_
  obtain ⟨D, D', hD, hD', hDD⟩ := hm.motive (hu a a' ha)
  exact ⟨D, D', .wrapped hD, .wrapped hD', hDD.lift⟩

theorem eitherLeft {r : Value} (h : TyEq .large l l') (hr : TyEq .large r r)
    (hm : ElEq (.simpleMotive (.either l r)) m m') :
    TyEq .large (.eitherCase .left l m) (.eitherCase .left l' m') :=
  eitherCase h hm fun _ _ ha => ha.left hr

theorem eitherRight {r r' : Value} (h : TyEq .large r r') (hl : TyEq .large l l)
    (hm : ElEq (.simpleMotive (.either l r)) m m') :
    TyEq .large (.eitherCase .right r m) (.eitherCase .right r' m') :=
  eitherCase h hm fun _ _ ha => ha.right hl

end TyEq

/-- A motive over vectors gives equal types for equal lengths and vectors. -/
theorem ElEq.vecMotive {E k k' v v' m m' : Value} (h : ElEq (.vecMotive E) m m')
    (hk : ElEq .nat k k') (hv : ElEq (.vec E k) v v') :
    ∃ D D', CallsBoth m k v D ∧ CallsBoth m' k' v' D' ∧ TyEq .small D D' := by
  obtain ⟨f, f', B, hf, hf', hB, hff⟩ := h.call (forces_self rfl) hk
  cases hB.unique .vecMotive
  obtain ⟨D, D', hD, hD', hDD⟩ := hff.motive hv
  exact ⟨D, D', .intro hf hD, .intro hf' hD', hDD⟩

/-- A motive over proofs of equality gives equal types for equal endpoints and proofs. -/
theorem ElEq.equalMotive {K l a a' p p' m m' : Value} (h : ElEq (.equalMotive K l) m m')
    (ha : ElEq K a a') (hp : ElEq (.equal K l a) p p') :
    ∃ D D', CallsBoth m a p D ∧ CallsBoth m' a' p' D' ∧ TyEq .small D D' := by
  obtain ⟨f, f', B, hf, hf', hB, hff⟩ := h.call (forces_self rfl) ha
  cases hB.unique .equalMotive
  obtain ⟨D, D', hD, hD', hDD⟩ := hff.motive hp
  exact ⟨D, D', .intro hf hD, .intro hf' hD', hDD⟩

theorem TyEq.indVecStep {E E' m m' : Value} (hE : TyEq .large E E')
    (h : ElEq (.vecMotive E) m m') : TyEq .large (.indVecStep E m) (.indVecStep E' m') := by
  refine .piFamily nat fun k k' hk => ⟨_, _, .vecStep, .vecStep, .piFamily hE fun a a' ha => ?_⟩
  have hV : TyEq .large (.vec E k) (.vec E' k') := .vec (forces_self rfl) (forces_self rfl) hE hk
  refine ⟨_, _, .vecStepHead, .vecStepHead, .piFamily hV fun as as' has => ?_⟩
  obtain ⟨D, D', hD, hD', hDD⟩ := h.vecMotive hk has
  have hc : ElEq (.vec E (.add1 k)) (.vecCons a as) (.vecCons a' as') :=
    hk.refl_left.vecCons ha has
  obtain ⟨N, N', hN, hN', hNN⟩ := h.vecMotive hk.add1 hc
  refine ⟨_, _, .vecStepTail hD, .vecStepTail hD', .piFamily hDD.lift fun _ _ _ => ?_⟩
  exact ⟨N, N', .fixedBoth hN, .fixedBoth hN', hNN.lift⟩

/-! ## Every interpretation -/

namespace Frame.Lawful

variable {I : Frame} (H : I.Lawful) {w : I.World}
  {A B B' C C' D D' E E' K K' a a' d d' l l' m m' k k' p p' v v' : Value} {x : Name}

include H

theorem nat : I.ty .large w .nat .nat := H.formers.const rfl

theorem univ : I.ty .large w .univ .univ := H.formers.const rfl

/-- The ranges of both families are types, because the families are. -/
theorem piFamily {f f' : Family} (hA : TyEq .large (.piFamily x A f) (.piFamily x A f))
    (hB : TyEq .large (.piFamily x B f') (.piFamily x B f')) (h : I.ty .large w A B)
    (hf : ∀ {w' a b C C'}, I.le w w' → I.el w' A B a b → Applies (.family x f) a C →
      Applies (.family x f') b C' → TyEq .large C C → TyEq .large C' C' → I.ty .large w' C C') :
    I.ty .large w (.piFamily x A f) (.piFamily x B f') := by
  have range : ∀ {x A f a C}, TyEq .large (.piFamily x A f) (.piFamily x A f) → ElEq A a a →
      Applies (.family x f) a C → TyEq .large C C := by
    intro x A f a C hA ha hC
    obtain ⟨_, _, _, _, _, hr⟩ := hA.quant_inv (forces_self rfl)
    obtain ⟨C₁, _, hC₁, _, hCC⟩ := hr a a ha
    cases hC.unique hC₁
    exact hCC.refl_left
  refine H.formers.quant hA hB (forces_self rfl) (forces_self rfl) h fun le ha hC hC' => ?_
  exact hf le ha hC hC' (range hA (H.general.el_left ha) hC) (range hB (H.general.el_right ha) hC')

theorem arrow (h : I.ty .large w A B) (hC : I.ty .large w C D) :
    I.ty .large w (.piFamily x A (.always C)) (.piFamily x B (.always D)) := by
  have left := TyEq.arrow (x := x) (H.general.ty_left h) (H.general.ty_left hC)
  have right := TyEq.arrow (x := x) (H.general.ty_right h) (H.general.ty_right hC)
  refine H.piFamily left right h fun le _ hC₁ hD₁ _ _ => ?_
  cases hC₁.unique .always
  cases hD₁.unique .always
  exact H.general.ty_mono hC le

theorem motive (h : I.el w (.piFamily x d (.always .univ)) (.piFamily x d' (.always .univ)) m m')
    (ha : I.el w d d' a a') : ∃ D D', Calls m a D ∧ Calls m' a' D' ∧ I.ty .small w D D' := by
  obtain ⟨D, D', B, B', hD, hD', hB, hB', hDD⟩ := H.elements.pi_elim h (forces_self rfl) (forces_self rfl) ha
  cases hB.unique .always
  cases hB'.unique .always
  exact ⟨D, D', hD, hD', (H.elements.univ (forces_self rfl) (forces_self rfl)).1 hDD⟩

theorem natFoldStep {f : Fold} {S : Value → Value} (hf : NatFold f S) (h : I.ty .large w B B') :
    I.ty .large w (S B) (S B') := by
  cases hf with
  | which => exact H.arrow H.nat h
  | iter => exact H.arrow h h
  | recur => exact H.arrow H.nat (H.arrow h h)

theorem recListStep (hE : I.ty .large w E E') (h : I.ty .large w B B') :
    I.ty .large w (.recListStep E B) (.recListStep E' B') :=
  H.arrow hE (H.arrow (H.formers.list hE) (H.arrow h h))

theorem natMotive : I.ty .large w .natMotive .natMotive := H.arrow H.nat H.univ

theorem listMotive (h : I.ty .large w E E') : I.ty .large w (.listMotive E) (.listMotive E') :=
  H.arrow (H.formers.list h) H.univ

theorem simpleMotive (h : I.ty .large w K K') :
    I.ty .large w (.simpleMotive K) (.simpleMotive K') :=
  H.arrow h H.univ

theorem vecMotive (h : I.ty .large w E E') : I.ty .large w (.vecMotive E) (.vecMotive E') := by
  refine H.piFamily (.vecMotive (H.general.ty_left h)) (.vecMotive (H.general.ty_right h)) H.nat
    fun le hk hC hC' _ _ => ?_
  cases hC.unique .vecMotive
  cases hC'.unique .vecMotive
  exact H.arrow (H.formers.vec (H.general.ty_mono h le) hk) H.univ

theorem equalMotive (h : I.ty .large w K K') (hl : I.el w K K' l l') :
    I.ty .large w (.equalMotive K l) (.equalMotive K' l') := by
  refine H.piFamily (.equalMotive (H.general.ty_left h) (H.general.el_left hl))
    (.equalMotive (H.general.ty_right h) (H.general.el_right hl)) h fun le ha hC hC' _ _ => ?_
  cases hC.unique .equalMotive
  cases hC'.unique .equalMotive
  exact H.arrow (H.formers.equal (H.general.ty_mono h le) (H.general.el_mono hl le) ha) H.univ

theorem vecMotive_call (h : I.el w (.vecMotive E) (.vecMotive E') m m')
    (hk : I.el w .nat .nat k k') (hv : I.el w (.vec E k) (.vec E' k') v v') :
    ∃ D D', CallsBoth m k v D ∧ CallsBoth m' k' v' D' ∧ I.ty .small w D D' := by
  obtain ⟨f, f', B, B', hf, hf', hB, hB', hff⟩ := H.elements.pi_elim h (forces_self rfl) (forces_self rfl) hk
  cases hB.unique .vecMotive
  cases hB'.unique .vecMotive
  obtain ⟨D, D', hD, hD', hDD⟩ := H.motive hff hv
  exact ⟨D, D', .intro hf hD, .intro hf' hD', hDD⟩

theorem equalMotive_call (h : I.el w (.equalMotive K l) (.equalMotive K' l') m m')
    (ha : I.el w K K' a a') (hp : I.el w (.equal K l a) (.equal K' l' a') p p') :
    ∃ D D', CallsBoth m a p D ∧ CallsBoth m' a' p' D' ∧ I.ty .small w D D' := by
  obtain ⟨f, f', B, B', hf, hf', hB, hB', hff⟩ := H.elements.pi_elim h (forces_self rfl) (forces_self rfl) ha
  cases hB.unique .equalMotive
  cases hB'.unique .equalMotive
  obtain ⟨D, D', hD, hD', hDD⟩ := H.motive hff hp
  exact ⟨D, D', .intro hf hD, .intro hf' hD', hDD⟩

theorem step (h : I.ty .large w C C') (hD : Calls m v D) (hD' : Calls m' v' D')
    (hDD : I.ty .large w D D') :
    I.ty .large w (.piFamily x C (.fixed m v)) (.piFamily x C' (.fixed m' v')) := by
  have left := TyEq.step (x := x) (H.general.ty_left h) hD hD (H.general.ty_left hDD)
  have right := TyEq.step (x := x) (H.general.ty_right h) hD' hD' (H.general.ty_right hDD)
  refine H.piFamily left right h fun le _ hN hN' _ _ => ?_
  cases hN.unique (.fixed hD)
  cases hN'.unique (.fixed hD')
  exact H.general.ty_mono hDD le

theorem indNatStep (h : I.el w .natMotive .natMotive m m') :
    I.ty .large w (.indNatStep m) (.indNatStep m') := by
  refine H.piFamily (.indNatStep (H.general.el_left h)) (.indNatStep (H.general.el_right h)) H.nat
    fun le ha hC hC' _ _ => ?_
  have h := H.general.el_mono h le
  obtain ⟨D, D', hD, hD', hDD⟩ := H.motive h ha
  obtain ⟨N, N', hN, hN', hNN⟩ := H.motive h (H.add1 ha)
  cases hC.unique (.natStep hD)
  cases hC'.unique (.natStep hD')
  exact H.step (H.general.lift hDD) hN hN' (H.general.lift hNN)

theorem indListStep (hE : I.ty .large w E E')
    (h : I.el w (.listMotive E) (.listMotive E') m m') :
    I.ty .large w (.indListStep E m) (.indListStep E' m') := by
  refine H.piFamily (.indListStep (H.general.ty_left hE) (H.general.el_left h))
    (.indListStep (H.general.ty_right hE) (H.general.el_right h)) hE
    fun le ha hC hC' hCC hCC' => ?_
  cases hC.unique .listStep
  cases hC'.unique .listStep
  refine H.piFamily hCC hCC' (H.formers.list (H.general.ty_mono hE le))
    fun le' has hN hN' _ _ => ?_
  have h := H.general.el_mono h (H.general.trans le le')
  obtain ⟨D, D', hD, hD', hDD⟩ := H.motive h has
  obtain ⟨N, N', hN₁, hN₁', hNN⟩ := H.motive h (H.listCons (H.general.el_mono ha le') has)
  cases hN.unique (.listStepTail hD)
  cases hN'.unique (.listStepTail hD')
  exact H.step (H.general.lift hDD) hN₁ hN₁' (H.general.lift hNN)

theorem eitherCase {u : Unary} (hA : TyEq .large (.eitherCase u K m) (.eitherCase u K m))
    (hB : TyEq .large (.eitherCase u K' m') (.eitherCase u K' m')) (h : I.ty .large w K K')
    (hm : I.el w (.simpleMotive C) (.simpleMotive C') m m')
    (hu : ∀ {w' a a'}, I.le w w' → I.el w' K K' a a' → I.el w' C C' (.unary u a) (.unary u a')) :
    I.ty .large w (.eitherCase u K m) (.eitherCase u K' m') := by
  refine H.piFamily hA hB h fun le ha hD hD' _ _ => ?_
  obtain ⟨D, D', hD₁, hD₁', hDD⟩ := H.motive (H.general.el_mono hm le) (hu le ha)
  cases hD.unique (.wrapped hD₁)
  cases hD'.unique (.wrapped hD₁')
  exact H.general.lift hDD

theorem indVecStep (hE : I.ty .large w E E') (h : I.el w (.vecMotive E) (.vecMotive E') m m') :
    I.ty .large w (.indVecStep E m) (.indVecStep E' m') := by
  refine H.piFamily (.indVecStep (H.general.ty_left hE) (H.general.el_left h))
    (.indVecStep (H.general.ty_right hE) (H.general.el_right h)) H.nat
    fun le hk hC hC' hCC hCC' => ?_
  cases hC.unique .vecStep
  cases hC'.unique .vecStep
  have hE₁ := H.general.ty_mono hE le
  refine H.piFamily hCC hCC' hE₁ fun le₁ ha hC hC' hCC hCC' => ?_
  cases hC.unique .vecStepHead
  cases hC'.unique .vecStepHead
  have hk₁ := H.general.el_mono hk le₁
  refine H.piFamily hCC hCC' (H.formers.vec (H.general.ty_mono hE₁ le₁) hk₁)
    fun le₂ has hC hC' hCC hCC' => ?_
  have h := H.general.el_mono h (H.general.trans (H.general.trans le le₁) le₂)
  have hk₂ := H.general.el_mono hk₁ le₂
  obtain ⟨D, D', hD, hD', hDD⟩ := H.vecMotive_call h hk₂ has
  obtain ⟨N, N', hN, hN', hNN⟩ := H.vecMotive_call h (H.add1 hk₂)
    (H.vecCons hk₂ (H.general.el_mono ha le₂) has)
  cases hC.unique (.vecStepTail hD)
  cases hC'.unique (.vecStepTail hD')
  refine H.piFamily hCC hCC' (H.general.lift hDD) fun le₃ _ hC hC' _ _ => ?_
  cases hC.unique (.fixedBoth hN)
  cases hC'.unique (.fixedBoth hN')
  exact H.general.ty_mono (H.general.lift hNN) le₃

end Frame.Lawful

end TypeKernel
