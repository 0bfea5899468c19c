/-
# TypeKernel.Proofs.Equality — equal types and equal elements

There are two sizes of types: the elements of the universe, and all types, the universe among them.
`TyEq ℓ` is equality of types of a size and `ElEq A` equality of elements of a type. Both say also that
what they relate is well formed, so a type is one that equals itself.

For each type former this module says when types of that form are equal and what their equal elements
are, so that nothing after it looks into `Denotes`.
-/
import TypeKernel.Proofs.Readable

namespace TypeKernel

set_option autoImplicit false

/-- The sizes of types. -/
inductive Size where
  /-- Elements of the universe. -/
  | small
  /-- All types. -/
  | large
  deriving DecidableEq, Repr

/-- Equality of elements of the universe. -/
def SmallEq : Rel := fun A B => ∃ S R, Denotes none A S R ∧ S B

/-- The equality of the elements of the universe, at a size at which it is a type. -/
def Size.universe : Size → Option Rel
  | .small => none
  | .large => some SmallEq

/-- Equality of types. -/
def TyEq (ℓ : Size) : Rel := fun A B => ∃ S R, Denotes ℓ.universe A S R ∧ S B

/-- Equality of elements of a type. -/
def ElEq (A : Value) : Rel := fun v w => ∃ S R, Denotes (some SmallEq) A S R ∧ R v w

/-! ## General laws -/

theorem readable_none : Readable.Universe none := by
  refine ⟨?_, ?_, ?_⟩ <;> rintro R ⟨⟩

theorem SmallEq.equality : Equality SmallEq where
  symm := by
    rintro A B ⟨S, R, hA, hB⟩
    exact ⟨S, R, hA.of_mem readable_none.equality hB, hA.mem_self⟩
  trans := by
    rintro A B C ⟨S, R, hA, hB⟩ ⟨S', R', hB', hC⟩
    obtain ⟨rfl, rfl⟩ := (hA.of_mem readable_none.equality hB).unique readable_none.equality hB'
    exact ⟨S, R, hA, hC⟩
  form := by
    rintro A A' B hc ⟨S, R, hA, hB⟩
    exact ⟨S, R, hA.form hc, hB⟩

theorem readable_universe (ℓ : Size) : Readable.Universe ℓ.universe := by
  cases ℓ with
  | small => exact readable_none
  | large =>
      refine ⟨?_, ?_, ?_⟩
      · rintro R ⟨⟩
        exact SmallEq.equality
      · rintro R ⟨⟩ A B ⟨S, R, hA, hB⟩
        exact (hA.readable readable_none).type hA.mem_self hB
      · rintro R ⟨⟩ A B e e' hA hB he
        exact ⟨_, _, .stuck (forces_neutral A e) hA he.refl_left, B, e', forces_neutral B e', hB, he⟩

namespace TyEq

variable {ℓ : Size} {A A' B B' C : Value}

theorem symm (h : TyEq ℓ A B) : TyEq ℓ B A := by
  obtain ⟨S, R, hA, hB⟩ := h
  exact ⟨S, R, hA.of_mem (readable_universe ℓ).equality hB, hA.mem_self⟩

theorem trans (h : TyEq ℓ A B) (h' : TyEq ℓ B C) : TyEq ℓ A C := by
  obtain ⟨S, R, hA, hB⟩ := h
  obtain ⟨S', R', hB', hC⟩ := h'
  have hU := (readable_universe ℓ).equality
  obtain ⟨rfl, rfl⟩ := (hA.of_mem hU hB).unique hU hB'
  exact ⟨S, R, hA, hC⟩

theorem refl_left (h : TyEq ℓ A B) : TyEq ℓ A A := h.trans h.symm

theorem refl_right (h : TyEq ℓ A B) : TyEq ℓ B B := h.symm.trans h

theorem form (h : TyEq ℓ A B) (hA : Coincides A A') : TyEq ℓ A' B := by
  obtain ⟨S, R, hd, hB⟩ := h
  exact ⟨S, R, hd.form hA, hB⟩

theorem form_right (h : TyEq ℓ A B) (hB : Coincides B B') : TyEq ℓ A B' :=
  (h.symm.form hB).symm

theorem coincides (h : TyEq ℓ A A) (hA : Coincides A A') : TyEq ℓ A A' := h.form_right hA

theorem lift (h : TyEq ℓ A B) : TyEq .large A B := by
  cases ℓ with
  | small =>
      obtain ⟨S, R, hA, hB⟩ := h
      exact ⟨S, R, hA.lift _, hB⟩
  | large => exact h

theorem agree (h : TyEq ℓ A B) : Agree (.type A) (.type B) := by
  obtain ⟨S, R, hA, hB⟩ := h
  exact (hA.readable (readable_universe ℓ)).type hA.mem_self hB

end TyEq

theorem Denotes.raise {ℓ : Size} {A : Value} {S : Value → Prop} {R : Rel}
    (h : Denotes ℓ.universe A S R) : Denotes (some SmallEq) A S R := by
  cases ℓ with
  | small => exact h.lift _
  | large => exact h

theorem Denotes.elEq_iff {ℓ : Size} {A v w : Value} {S : Value → Prop} {R : Rel}
    (h : Denotes ℓ.universe A S R) : ElEq A v w ↔ R v w := by
  refine ⟨?_, fun hR => ⟨S, R, h.raise, hR⟩⟩
  rintro ⟨S', R', hA, hR⟩
  obtain ⟨rfl, rfl⟩ := h.raise.unique (readable_universe .large).equality hA
  exact hR

theorem Denotes.tyEq_iff {ℓ : Size} {A B : Value} {S : Value → Prop} {R : Rel}
    (h : Denotes ℓ.universe A S R) : TyEq .large A B ↔ S B := by
  refine ⟨?_, fun hB => ⟨S, R, h.raise, hB⟩⟩
  rintro ⟨S', R', hA, hB⟩
  obtain ⟨rfl, rfl⟩ := h.raise.unique (readable_universe .large).equality hA
  exact hB

namespace ElEq

variable {A B u v v' w w' : Value}

theorem equality (A : Value) : Equality (ElEq A) where
  symm := by
    rintro v w ⟨S, R, hA, h⟩
    exact ⟨S, R, hA, (hA.equality (readable_universe .large).equality).symm h⟩
  trans := by
    rintro u v w ⟨S, R, hA, h⟩ h'
    have E := hA.equality (readable_universe .large).equality
    exact ⟨S, R, hA, E.trans h ((Denotes.elEq_iff (ℓ := .large) hA).1 h')⟩
  form := by
    rintro v v' w hc ⟨S, R, hA, h⟩
    exact ⟨S, R, hA, (hA.equality (readable_universe .large).equality).form hc h⟩

theorem symm (h : ElEq A v w) : ElEq A w v := (equality A).symm h

theorem trans (h : ElEq A u v) (h' : ElEq A v w) : ElEq A u w := (equality A).trans h h'

theorem refl_left (h : ElEq A v w) : ElEq A v v := (equality A).refl_left h

theorem refl_right (h : ElEq A v w) : ElEq A w w := (equality A).refl_right h

theorem form (h : ElEq A v w) (hc : Coincides v v') : ElEq A v' w := (equality A).form hc h

theorem form_right (h : ElEq A v w) (hc : Coincides w w') : ElEq A v w' :=
  (equality A).form_right hc h

theorem type (h : ElEq A v w) : TyEq .large A A := by
  obtain ⟨S, R, hA, _⟩ := h
  exact ⟨S, R, hA, hA.mem_self⟩

theorem conv (h : ElEq A v w) (hAB : TyEq .large A B) : ElEq B v w := by
  obtain ⟨S, R, hA, hB⟩ := hAB
  have hU := (readable_universe .large).equality
  exact ⟨S, R, hA.of_mem hU hB, (Denotes.elEq_iff (ℓ := .large) hA).1 h⟩

theorem agree (h : ElEq A v w) (hAB : TyEq .large A B) : Agree (.value A v) (.value B w) := by
  obtain ⟨S, R, hA, hB⟩ := hAB
  exact (hA.readable (readable_universe .large)).element hA.mem_self hB
    ((Denotes.elEq_iff (ℓ := .large) hA).1 h)

/-- Neutral forms that agree are equal elements of any type equal to theirs. -/
theorem reflect {T T' : Value} {e e' : Neutral} (hT : TyEq .large A T) (hT' : TyEq .large A T')
    (he : Agree (.neutral e) (.neutral e')) : ElEq A (.neutral T e) (.neutral T' e') := by
  obtain ⟨S, R, hA, hS⟩ := hT
  exact ⟨S, R, hA, (hA.readable (readable_universe .large)).reflect hS
    ((Denotes.tyEq_iff (ℓ := .large) hA).1 hT') he⟩

end ElEq

theorem Denotes.class_eq {ℓ : Size} {A : Value} {S : Value → Prop} {R : Rel}
    (h : Denotes ℓ.universe A S R) : S = TyEq .large A :=
  funext fun _ => propext h.tyEq_iff.symm

theorem Denotes.rel_eq {ℓ : Size} {A : Value} {S : Value → Prop} {R : Rel}
    (h : Denotes ℓ.universe A S R) : R = ElEq A :=
  funext fun _ => funext fun _ => propext h.elEq_iff.symm

theorem TyEq.denotes {ℓ : Size} {A B : Value} (h : TyEq ℓ A B) :
    Denotes ℓ.universe A (TyEq .large A) (ElEq A) := by
  obtain ⟨S, R, hA, _⟩ := h
  rw [← hA.class_eq, ← hA.rel_eq]
  exact hA

/-! ## Equal types, by their form -/

/-- Which forms without parts are types of a size. -/
def Size.has : Size → Const → Bool
  | .small, .univ => false
  | _, c => c.isType

namespace TyEq

variable {ℓ : Size} {A B : Value}

theorem const {c : Const} (hc : ℓ.has c = true) (hA : Forces A (.const c))
    (hB : Forces B (.const c)) : TyEq ℓ A B := by
  suffices ∃ R, ConstEq ℓ.universe c R by
    obtain ⟨R, hR⟩ := this
    exact ⟨_, R, .const hA hR, hB⟩
  cases c with
  | univ => cases ℓ with
    | small => cases hc
    | large => exact ⟨_, .univ rfl⟩
  | nat => exact ⟨_, .nat⟩
  | atom => exact ⟨_, .atom⟩
  | trivial => exact ⟨_, .trivial⟩
  | absurd => exact ⟨_, .absurd⟩
  | zero | sole | nil | vecNil => cases ℓ <;> cases hc

theorem const_inv {c : Const} (h : TyEq ℓ A B) (hA : Forces A (.const c)) :
    Forces B (.const c) := by
  obtain ⟨S, R, hd, hB⟩ := h
  obtain ⟨_, rfl⟩ := hd.const_inv hA
  exact hB

theorem stuck {T T' : Value} {e e' : Neutral} (hA : Forces A (.neutral T e))
    (hB : Forces B (.neutral T' e')) (hT : Forces T .univ) (hT' : Forces T' .univ)
    (he : Agree (.neutral e) (.neutral e')) : TyEq ℓ A B :=
  ⟨_, _, .stuck hA hT he.refl_left, T', e', hB, hT', he⟩

theorem stuck_inv {T : Value} {e : Neutral} (h : TyEq ℓ A B) (hA : Forces A (.neutral T e)) :
    ∃ T' e', Forces B (.neutral T' e') ∧ Forces T .univ ∧ Forces T' .univ ∧
      Agree (.neutral e) (.neutral e') := by
  obtain ⟨S, R, hd, hB⟩ := h
  obtain ⟨hT, _, rfl, _⟩ := hd.stuck_inv hA
  obtain ⟨T', e', hB, hT', he⟩ := hB
  exact ⟨T', e', hB, hT, hT', he⟩

theorem list {E E' : Value} (hA : Forces A (.list E)) (hB : Forces B (.list E'))
    (h : TyEq ℓ E E') : TyEq ℓ A B :=
  ⟨_, _, .list hA h.denotes, E', hB, h.lift⟩

theorem list_inv {E : Value} (h : TyEq ℓ A B) (hA : Forces A (.list E)) :
    ∃ E', Forces B (.list E') ∧ TyEq ℓ E E' := by
  obtain ⟨S, R, hd, hB⟩ := h
  obtain ⟨S₀, R₀, hE, rfl, _⟩ := hd.list_inv hA
  obtain ⟨E', hB, hE'⟩ := hB
  exact ⟨E', hB, S₀, R₀, hE, hE'⟩

theorem either {l r l' r' : Value} (hA : Forces A (.either l r)) (hB : Forces B (.either l' r'))
    (hl : TyEq ℓ l l') (hr : TyEq ℓ r r') : TyEq ℓ A B :=
  ⟨_, _, .either hA hl.denotes hr.denotes, l', r', hB, hl.lift, hr.lift⟩

theorem either_inv {l r : Value} (h : TyEq ℓ A B) (hA : Forces A (.either l r)) :
    ∃ l' r', Forces B (.either l' r') ∧ TyEq ℓ l l' ∧ TyEq ℓ r r' := by
  obtain ⟨S, R, hd, hB⟩ := h
  obtain ⟨S₁, R₁, S₂, R₂, hl, hr, rfl, _⟩ := hd.either_inv hA
  obtain ⟨l', r', hB, hl', hr'⟩ := hB
  exact ⟨l', r', hB, ⟨S₁, R₁, hl, hl'⟩, S₂, R₂, hr, hr'⟩

theorem equal {C l r C' l' r' : Value} (hA : Forces A (.equal C l r))
    (hB : Forces B (.equal C' l' r')) (hC : TyEq ℓ C C') (hl : ElEq C l l') (hr : ElEq C r r') :
    TyEq ℓ A B :=
  ⟨_, _, .equal hA hC.denotes hl.refl_left hr.refl_left, C', l', r', hB, hC.lift, hl, hr⟩

theorem equal_inv {C l r : Value} (h : TyEq ℓ A B) (hA : Forces A (.equal C l r)) :
    ∃ C' l' r', Forces B (.equal C' l' r') ∧ TyEq ℓ C C' ∧ ElEq C l l' ∧ ElEq C r r' := by
  obtain ⟨S, R, hd, hB⟩ := h
  obtain ⟨S₀, R₀, hC, _, _, rfl, _⟩ := hd.equal_inv hA
  obtain ⟨C', l', r', hB, hC', hl, hr⟩ := hB
  exact ⟨C', l', r', hB, ⟨S₀, R₀, hC, hC'⟩, hC.elEq_iff.2 hl, hC.elEq_iff.2 hr⟩

/-- Quantified types are equal if their domains are, and their ranges at equal elements. -/
theorem quant {q : Quantifier} {x x' : Name} {d d' : Value} {r r' : Closure}
    (hA : Forces A (.quant q x d r)) (hB : Forces B (.quant q x' d' r')) (hd : TyEq ℓ d d')
    (hr : ∀ a a', ElEq d a a' →
      ∃ C C', Applies r a C ∧ Applies r' a' C' ∧ TyEq ℓ C C') : TyEq ℓ A B := by
  have left : ∀ a, ∃ C, ElEq d a a → Applies r a C ∧ TyEq ℓ C C := fun a => by
    by_cases ha : ElEq d a a
    · obtain ⟨C, _, hC, _, h⟩ := hr a a ha
      exact ⟨C, fun _ => ⟨hC, h.refl_left⟩⟩
    · exact ⟨a, fun h => absurd h ha⟩
  choose F hF using left
  have same : ∀ a a', ElEq d a a' → TyEq ℓ (F a) (F a') := fun a a' ha => by
    obtain ⟨C, C', hC, hC', h⟩ := hr a a' ha
    obtain ⟨C₁, C₁', hC₁, hC₁', h₁⟩ := hr a' a' ha.refl_right
    cases hC'.unique hC₁'
    cases hC.unique (hF a ha.refl_left).1
    cases hC₁.unique (hF a' ha.refl_right).1
    exact h.trans h₁.symm
  refine ⟨_, _, .quant hA hd.denotes (fun a ha => (hF a ha).1)
    (fun a ha => (hF a ha).2.denotes) (fun a a' ha => ?_) (fun a a' ha => ?_), ?_⟩
  · have h := (same a a' ha).lift
    exact funext fun C => propext ⟨h.symm.trans, h.trans⟩
  · have h := (same a a' ha).lift
    exact funext fun v => funext fun w => propext ⟨(·.conv h), (·.conv h.symm)⟩
  · refine ⟨x', d', r', hB, hd.lift, fun a ha => ?_⟩
    obtain ⟨C, C', hC, hC', h⟩ := hr a a ha
    cases hC.unique (hF a ha).1
    exact ⟨C', hC', h.lift⟩

theorem quant_inv {q : Quantifier} {x : Name} {d : Value} {r : Closure} (h : TyEq ℓ A B)
    (hA : Forces A (.quant q x d r)) :
    ∃ x' d' r', Forces B (.quant q x' d' r') ∧ TyEq ℓ d d' ∧ ∀ a a', ElEq d a a' →
      ∃ C C', Applies r a C ∧ Applies r' a' C' ∧ TyEq ℓ C C' := by
  obtain ⟨S, R, hden, hB⟩ := h
  obtain ⟨S₀, R₀, F, SB, RB, hd, hF, hR, hS, _, rfl, _⟩ := hden.quant_inv hA
  obtain ⟨x', d', r', hB, hd', hr'⟩ := hB
  refine ⟨x', d', r', hB, ⟨S₀, R₀, hd, hd'⟩, fun a a' ha => ?_⟩
  have E := hd.equality (readable_universe ℓ).equality
  have ha := hd.elEq_iff.1 ha
  obtain ⟨C', hC', hSB⟩ := hr' a' (E.refl_right ha)
  rw [← hS a a' ha] at hSB
  exact ⟨F a, C', hF a (E.refl_left ha), hC', SB a, RB a, hR a (E.refl_left ha), hSB⟩

end TyEq

/-! ## Equal elements, by the form of their type -/

namespace ElEq

variable {A v w : Value}

theorem univ_iff (hA : Forces A .univ) : ElEq A v w ↔ TyEq .small v w :=
  Denotes.elEq_iff (ℓ := .large) (.const hA (.univ rfl))

theorem nat_iff (hA : Forces A .nat) : ElEq A v w ↔ NatEq v w :=
  Denotes.elEq_iff (ℓ := .large) (.const hA .nat)

theorem atom_iff (hA : Forces A .atom) : ElEq A v w ↔ AtomForm (Stuck (Forces · .atom)) v w :=
  Denotes.elEq_iff (ℓ := .large) (.const hA .atom)

theorem trivial_iff (hA : Forces A .trivial) : ElEq A v w ↔ Single v w :=
  Denotes.elEq_iff (ℓ := .large) (.const hA .trivial)

theorem absurd_iff (hA : Forces A .absurd) : ElEq A v w ↔ Impossible v w :=
  Denotes.elEq_iff (ℓ := .large) (.const hA .absurd)

theorem list_iff {E : Value} (h : TyEq .large A A) (hA : Forces A (.list E)) :
    ElEq A v w ↔ ListForm (Stuck (TyEq .large A)) (ElEq E) v w := by
  obtain ⟨S₀, R₀, hE, _, hR⟩ := h.denotes.list_inv hA
  rw [hR, Denotes.rel_eq (ℓ := .large) hE]

theorem vec_iff {E k : Value} (h : TyEq .large A A) (hA : Forces A (.vec E k)) :
    ElEq A v w ↔ VecEq (TyEq .large E) (ElEq E) k v w := by
  obtain ⟨S₀, R₀, hE, _, _, hR⟩ := h.denotes.vec_inv hA
  rw [hR, Denotes.rel_eq (ℓ := .large) hE, Denotes.class_eq (ℓ := .large) hE]

theorem either_iff {l r : Value} (h : TyEq .large A A) (hA : Forces A (.either l r)) :
    ElEq A v w ↔ EitherForm (Stuck (TyEq .large A)) (ElEq l) (ElEq r) v w := by
  obtain ⟨S₁, R₁, S₂, R₂, hl, hr, _, hR⟩ := h.denotes.either_inv hA
  rw [hR, Denotes.rel_eq (ℓ := .large) hl, Denotes.rel_eq (ℓ := .large) hr]

theorem equal_iff {C l r : Value} (h : TyEq .large A A) (hA : Forces A (.equal C l r)) :
    ElEq A v w ↔ EqualForm (Stuck (TyEq .large A))
      (fun a b => ElEq C a b ∧ ElEq C l a ∧ ElEq C a r) v w := by
  obtain ⟨S₀, R₀, hC, _, _, _, hR⟩ := h.denotes.equal_inv hA
  rw [hR, Denotes.rel_eq (ℓ := .large) hC]

theorem pi_iff {x : Name} {d : Value} {r : Closure} (h : TyEq .large A A)
    (hA : Forces A (.pi x d r)) :
    ElEq A v w ↔ FunctionIn (TyEq .large A) v ∧ FunctionIn (TyEq .large A) w ∧
      ∀ a a', ElEq d a a' → ∃ b b' B, Calls v a b ∧ Calls w a' b' ∧ Applies r a B ∧
        ElEq B b b' := by
  obtain ⟨S₀, R₀, F, SB, RB, hd, hF, hB, _, _, _, hR⟩ := h.denotes.quant_inv hA
  have hd' := Denotes.rel_eq (ℓ := .large) hd
  subst hd'
  rw [hR]
  refine and_congr_right fun _ => and_congr_right fun _ => forall₂_congr fun a a' => ?_
  refine forall_congr' fun ha => exists₂_congr fun b b' => ?_
  have hBa := hB a ha.refl_left
  constructor
  · rintro ⟨hb, hb', hbb⟩
    exact ⟨F a, hb, hb', hF a ha.refl_left, (Denotes.elEq_iff (ℓ := .large) hBa).2 hbb⟩
  · rintro ⟨B, hb, hb', hB, hbb⟩
    cases hB.unique (hF a ha.refl_left)
    exact ⟨hb, hb', (Denotes.elEq_iff (ℓ := .large) hBa).1 hbb⟩

theorem sigma_iff {x : Name} {d : Value} {r : Closure} (h : TyEq .large A A)
    (hA : Forces A (.sigma x d r)) :
    ElEq A v w ↔ PairIn (TyEq .large A) v ∧ PairIn (TyEq .large A) w ∧
      ∃ a b a' b' B, Cars v a ∧ Cdrs v b ∧ Cars w a' ∧ Cdrs w b' ∧ ElEq d a a' ∧ Applies r a B ∧
        ElEq B b b' := by
  obtain ⟨S₀, R₀, F, SB, RB, hd, hF, hB, _, _, _, hR⟩ := h.denotes.quant_inv hA
  have hd' := Denotes.rel_eq (ℓ := .large) hd
  subst hd'
  rw [hR]
  refine and_congr_right fun _ => and_congr_right fun _ => ?_
  refine exists₂_congr fun a b => exists₂_congr fun a' b' => ?_
  constructor
  · rintro ⟨ha, hb, ha', hb', haa, hbb⟩
    have hBa := hB a haa.refl_left
    exact ⟨F a, ha, hb, ha', hb', haa, hF a haa.refl_left,
      (Denotes.elEq_iff (ℓ := .large) hBa).2 hbb⟩
  · rintro ⟨B, ha, hb, ha', hb', haa, hB', hbb⟩
    cases hB'.unique (hF a haa.refl_left)
    exact ⟨ha, hb, ha', hb', haa, (Denotes.elEq_iff (ℓ := .large) (hB a haa.refl_left)).1 hbb⟩

end ElEq

namespace TyEq

variable {ℓ : Size} {A B : Value}

theorem vec {E k E' k' : Value} (hA : Forces A (.vec E k)) (hB : Forces B (.vec E' k'))
    (hE : TyEq ℓ E E') (hk : ElEq .nat k k') : TyEq ℓ A B := by
  have hk := (ElEq.nat_iff (forces_self rfl)).1 hk
  exact ⟨_, _, .vec hA hE.denotes (NatEq.equality.refl_left hk), E', k', hB, hE.lift, hk⟩

theorem vec_inv {E k : Value} (h : TyEq ℓ A B) (hA : Forces A (.vec E k)) :
    ∃ E' k', Forces B (.vec E' k') ∧ TyEq ℓ E E' ∧ ElEq .nat k k' := by
  obtain ⟨S, R, hd, hB⟩ := h
  obtain ⟨S₀, R₀, hE, _, rfl, _⟩ := hd.vec_inv hA
  obtain ⟨E', k', hB, hE', hk⟩ := hB
  exact ⟨E', k', hB, ⟨S₀, R₀, hE, hE'⟩, (ElEq.nat_iff (forces_self rfl)).2 hk⟩

end TyEq

end TypeKernel
