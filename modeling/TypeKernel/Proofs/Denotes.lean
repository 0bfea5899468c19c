/-
# TypeKernel.Proofs.Denotes — types as classes of types with an equality of elements

`Denotes U A S R` says that `A` is a type, `S` are the types equal to it and `R` is the equality of its
elements. A canonical type is given by its parts. The parts of a function type or a pair type are one
type for each element of the domain, so `Denotes` is inductive with a premise for each of them, and `S`
and `R` are results rather than functions of `A`.

Elements of `Trivial`, `Absurd`, functions and pairs are compared by what can be done with them, other
elements by their form, and stuck elements by how they read back. A stuck element carries its type,
which must be in `S`.

`U` is the equality of the elements of the universe. It is absent at the lower level, where the
universe is not a type; the equality of types at that level is then the one to use above.
-/
import Mathlib.Tactic.Choose
import TypeKernel.Proofs.Agree

namespace TypeKernel

set_option autoImplicit false

/-! ## Equality of elements, one type former at a time -/

/-- Stuck elements that read back alike, of types in `S`. -/
def Stuck (S : Value → Prop) : Rel := fun v w =>
  ∃ T e T' e', Forces v (.neutral T e) ∧ Forces w (.neutral T' e') ∧ S T ∧ S T' ∧
    Agree (.neutral e) (.neutral e')

/-- Elements of `Trivial`: all are equal. -/
def Single : Rel := fun v w =>
  (Forces v (.const .sole) ∨ Stuck (Forces · .trivial) v v) ∧
    (Forces w (.const .sole) ∨ Stuck (Forces · .trivial) w w)

/-- Elements of `Absurd`: there are only stuck ones, and all are equal. -/
def Impossible : Rel := fun v w =>
  Stuck (Forces · .absurd) v v ∧ Stuck (Forces · .absurd) w w

/-- The equality of elements of a type without parts. -/
inductive ConstEq (U : Option Rel) : Const → Rel → Prop
  | univ {R} (hU : U = some R) : ConstEq U .univ R
  | nat : ConstEq U .nat (NatForm (Stuck (Forces · .nat)))
  | atom : ConstEq U .atom (AtomForm (Stuck (Forces · .atom)))
  | trivial : ConstEq U .trivial Single
  | absurd : ConstEq U .absurd Impossible

/-- Numbers. -/
abbrev NatEq : Rel := NatForm (Stuck (Forces · .nat))

/-- Types stuck on the same neutral form. -/
def StuckClass (e : Neutral) (A : Value) : Prop :=
  ∃ T e', Forces A (.neutral T e') ∧ Forces T .univ ∧ Agree (.neutral e) (.neutral e')

def ListClass (S : Value → Prop) (A : Value) : Prop :=
  ∃ E, Forces A (.list E) ∧ S E

def VecClass (S : Value → Prop) (k A : Value) : Prop :=
  ∃ E k', Forces A (.vec E k') ∧ S E ∧ NatEq k k'

def EitherClass (S S' : Value → Prop) (A : Value) : Prop :=
  ∃ l r, Forces A (.either l r) ∧ S l ∧ S' r

def EqualClass (S : Value → Prop) (R : Rel) (l r A : Value) : Prop :=
  ∃ C l' r', Forces A (.equal C l' r') ∧ S C ∧ R l l' ∧ R r r'

/-- `SB a` are the types equal to the range at `a`. -/
def QuantClass (q : Quantifier) (S : Value → Prop) (R : Rel) (SB : Value → Value → Prop)
    (A : Value) : Prop :=
  ∃ x d r, Forces A (.quant q x d r) ∧ S d ∧ ∀ a, R a a → ∃ B, Applies r a B ∧ SB a B

/-- A form that is a `λ`, or stuck at a type in `S`. -/
def FunctionIn (S : Value → Prop) (f : Value) : Prop :=
  (∃ x c, Forces f (.lam x c)) ∨ ∃ T e, Forces f (.neutral T e) ∧ S T

/-- Functions that give equal results for equal arguments. -/
def FunctionEq (S : Value → Prop) (R : Rel) (RB : Value → Rel) : Rel := fun f g =>
  FunctionIn S f ∧ FunctionIn S g ∧
    ∀ a a', R a a' → ∃ b b', Calls f a b ∧ Calls g a' b' ∧ RB a b b'

/-- A form that is a pair, or stuck at a type in `S`. -/
def PairIn (S : Value → Prop) (p : Value) : Prop :=
  (∃ a d, Forces p (.cons a d)) ∨ ∃ T e, Forces p (.neutral T e) ∧ S T

/-- Pairs with equal parts. -/
def PairEq (S : Value → Prop) (R : Rel) (RB : Value → Rel) : Rel := fun p q =>
  PairIn S p ∧ PairIn S q ∧
    ∃ a d a' d', Cars p a ∧ Cdrs p d ∧ Cars q a' ∧ Cdrs q d' ∧ R a a' ∧ RB a d d'

/-- The equality of elements of a binding type former. -/
def QuantEq : Quantifier → (Value → Prop) → Rel → (Value → Rel) → Rel
  | .pi => FunctionEq
  | .sigma => PairEq

/-- Types, with the types equal to them and the equality of their elements. -/
inductive Denotes (U : Option Rel) : Value → (Value → Prop) → Rel → Prop
  | const {A c R} (hA : Forces A (.const c)) (hR : ConstEq U c R) :
      Denotes U A (Forces · (.const c)) R
  | stuck {A T e} (hA : Forces A (.neutral T e)) (hT : Forces T .univ)
      (he : Agree (.neutral e) (.neutral e)) :
      Denotes U A (StuckClass e) (Stuck (StuckClass e))
  | list {A E S R} (hA : Forces A (.list E)) (hE : Denotes U E S R) :
      Denotes U A (ListClass S) (ListForm (Stuck (ListClass S)) R)
  | vec {A E k S R} (hA : Forces A (.vec E k)) (hE : Denotes U E S R) (hk : NatEq k k) :
      Denotes U A (VecClass S k) (VecForm (fun k _ => Stuck (VecClass S k)) R k k)
  | either {A l r S R S' R'} (hA : Forces A (.either l r)) (hl : Denotes U l S R)
      (hr : Denotes U r S' R') :
      Denotes U A (EitherClass S S') (EitherForm (Stuck (EitherClass S S')) R R')
  | equal {A C l r S R} (hA : Forces A (.equal C l r)) (hC : Denotes U C S R) (hl : R l l)
      (hr : R r r) :
      Denotes U A (EqualClass S R l r)
        (EqualForm (Stuck (EqualClass S R l r)) fun a b => R a b ∧ R l a ∧ R a r)
  | quant {A q x d r S R} {F : Value → Value} {SB : Value → Value → Prop} {RB : Value → Rel}
      (hA : Forces A (.quant q x d r)) (hd : Denotes U d S R)
      (hF : ∀ a, R a a → Applies r a (F a)) (hB : ∀ a, R a a → Denotes U (F a) (SB a) (RB a))
      (hS : ∀ a a', R a a' → SB a = SB a') (hR : ∀ a a', R a a' → RB a = RB a') :
      Denotes U A (QuantClass q S R SB) (QuantEq q (QuantClass q S R SB) R RB)

/-! ## Equality of elements is an equality -/

/-- Symmetric, transitive, and about forms. -/
structure Equality (R : Rel) : Prop where
  symm : ∀ {v w}, R v w → R w v
  trans : ∀ {u v w}, R u v → R v w → R u w
  form : ∀ {v v' w}, Coincides v v' → R v w → R v' w

namespace Equality

variable {R : Rel} {v v' w w' : Value}

theorem refl_left (h : Equality R) (hv : R v w) : R v v := h.trans hv (h.symm hv)

theorem refl_right (h : Equality R) (hv : R v w) : R w w := h.trans (h.symm hv) hv

theorem form_right (h : Equality R) (hw : Coincides w w') (hv : R v w) : R v w' :=
  h.symm (h.form hw (h.symm hv))

end Equality

theorem Stuck.equality (S : Value → Prop) : Equality (Stuck S) where
  symm := by
    rintro v w ⟨T, e, T', e', hv, hw, hT, hT', he⟩
    exact ⟨T', e', T, e, hw, hv, hT', hT, he.symm⟩
  trans := by
    rintro u v w ⟨T, e, T', e', hu, hv, hT, hT', he⟩ ⟨T₁, e₁, T₂, e₂, hv', hw, _, hT₂, he'⟩
    cases hv.unique hv'
    exact ⟨T, e, T₂, e₂, hu, hw, hT, hT₂, he.trans he'⟩
  form := by
    rintro v v' w hc ⟨T, e, T', e', hv, hw, hT, hT', he⟩
    exact ⟨T, e, T', e', hc.forces hv, hw, hT, hT', he⟩

theorem Stuck.neutral_left {S : Value → Prop} {v w : Value} (h : Stuck S v w) :
    ∃ T e, Forces v (.neutral T e) := by
  obtain ⟨T, e, _, _, hv, _⟩ := h
  exact ⟨T, e, hv⟩

/-- A canonical value is not stuck. -/
theorem Stuck.not_left {S : Value → Prop} {v w c : Value} (h : Stuck S v w) (hv : Forces v c)
    (hc : c.shape ≠ .neutral) : False := by
  obtain ⟨T, e, hv'⟩ := h.neutral_left
  cases hv.unique hv'
  exact hc rfl

theorem Stuck.not_right {S : Value → Prop} {v w c : Value} (h : Stuck S v w) (hw : Forces w c)
    (hc : c.shape ≠ .neutral) : False :=
  ((Stuck.equality S).symm h).not_left hw hc

theorem Single.equality : Equality Single where
  symm h := ⟨h.2, h.1⟩
  trans h h' := ⟨h.1, h'.2⟩
  form := by
    rintro v v' w hc ⟨hv | hv, hw⟩
    · exact ⟨.inl (hc.forces hv), hw⟩
    · have E := Stuck.equality (Forces · .trivial)
      exact ⟨.inr (E.form hc (E.form_right hc hv)), hw⟩

theorem Impossible.equality : Equality Impossible where
  symm h := ⟨h.2, h.1⟩
  trans h h' := ⟨h.1, h'.2⟩
  form := by
    rintro v v' w hc ⟨hv, hw⟩
    have E := Stuck.equality (Forces · .absurd)
    exact ⟨E.form hc (E.form_right hc hv), hw⟩

theorem NatForm.equality (S : Value → Prop) : Equality (NatForm (Stuck S)) where
  symm := by
    intro v w h
    induction h with
    | zero hv hw => exact .zero hw hv
    | add1 hv hw _ ih => exact .add1 hw hv ih
    | stuck h => exact .stuck ((Stuck.equality S).symm h)
  trans := by
    intro u v w h
    induction h generalizing w with
    | zero hu hv =>
        intro h'
        cases h' with
        | zero hv' hw => exact .zero hu hw
        | add1 hv' hw => cases hv.unique hv'
        | stuck h' => exact (h'.not_left hv nofun).elim
    | add1 hu hv _ ih =>
        intro h'
        cases h' with
        | zero hv' hw => cases hv.unique hv'
        | add1 hv' hw h' =>
            cases hv.unique hv'
            exact .add1 hu hw (ih h')
        | stuck h' => exact (h'.not_left hv nofun).elim
    | stuck h =>
        intro h'
        cases h' with
        | zero hv hw => exact (h.not_right hv nofun).elim
        | add1 hv hw => exact (h.not_right hv nofun).elim
        | stuck h' => exact .stuck ((Stuck.equality S).trans h h')
  form := by
    intro v v' w hc h
    cases h with
    | zero hv hw => exact .zero (hc.forces hv) hw
    | add1 hv hw h => exact .add1 (hc.forces hv) hw h
    | stuck h => exact .stuck ((Stuck.equality S).form hc h)

theorem AtomForm.equality (S : Value → Prop) : Equality (AtomForm (Stuck S)) where
  symm := by
    intro v w h
    cases h with
    | quote hv hw => exact .quote hw hv
    | stuck h => exact .stuck ((Stuck.equality S).symm h)
  trans := by
    intro u v w h h'
    cases h with
    | quote hu hv =>
        cases h' with
        | quote hv' hw =>
            cases hv.unique hv'
            exact .quote hu hw
        | stuck h' => exact (h'.not_left hv nofun).elim
    | stuck h =>
        cases h' with
        | quote hv hw => exact (h.not_right hv nofun).elim
        | stuck h' => exact .stuck ((Stuck.equality S).trans h h')
  form := by
    intro v v' w hc h
    cases h with
    | quote hv hw => exact .quote (hc.forces hv) hw
    | stuck h => exact .stuck ((Stuck.equality S).form hc h)

theorem ListForm.equality (S : Value → Prop) {R : Rel} (E : Equality R) :
    Equality (ListForm (Stuck S) R) where
  symm := by
    intro v w h
    induction h with
    | nil hv hw => exact .nil hw hv
    | cons hv hw h _ ih => exact .cons hw hv (E.symm h) ih
    | stuck h => exact .stuck ((Stuck.equality S).symm h)
  trans := by
    intro u v w h
    induction h generalizing w with
    | nil hu hv =>
        intro h'
        cases h' with
        | nil hv' hw => exact .nil hu hw
        | cons hv' hw => cases hv.unique hv'
        | stuck h' => exact (h'.not_left hv nofun).elim
    | cons hu hv h _ ih =>
        intro h'
        cases h' with
        | nil hv' hw => cases hv.unique hv'
        | cons hv' hw h' hs' =>
            cases hv.unique hv'
            exact .cons hu hw (E.trans h h') (ih hs')
        | stuck h' => exact (h'.not_left hv nofun).elim
    | stuck h =>
        intro h'
        cases h' with
        | nil hv hw => exact (h.not_right hv nofun).elim
        | cons hv hw => exact (h.not_right hv nofun).elim
        | stuck h' => exact .stuck ((Stuck.equality S).trans h h')
  form := by
    intro v v' w hc h
    cases h with
    | nil hv hw => exact .nil (hc.forces hv) hw
    | cons hv hw h hs => exact .cons (hc.forces hv) hw h hs
    | stuck h => exact .stuck ((Stuck.equality S).form hc h)

/-- Vectors of one length. -/
abbrev VecEq (S : Value → Prop) (R : Rel) (k : Value) : Rel :=
  VecForm (fun k _ => Stuck (VecClass S k)) R k k

theorem VecEq.symm {S : Value → Prop} {R : Rel} (E : Equality R) {k v w : Value}
    (h : VecEq S R k v w) : VecEq S R k w v := by
  -- The two lengths are one, so they stay one under `cons`.
  suffices ∀ {k l v w}, VecForm (fun k _ => Stuck (VecClass S k)) R k l v w → k = l →
      VecEq S R k w v from this h rfl
  intro k l v w h
  induction h with
  | nil hk hl hv hw => exact fun _ => .nil hk hk hw hv
  | cons hk hl hv hw h _ ih =>
      rintro rfl
      cases hk.unique hl
      exact .cons hk hk hw hv (E.symm h) (ih rfl)
  | stuck h => exact fun _ => .stuck ((Stuck.equality _).symm h)

theorem VecEq.trans {S : Value → Prop} {R : Rel} (E : Equality R) {k u v w : Value}
    (h : VecEq S R k u v) (h' : VecEq S R k v w) : VecEq S R k u w := by
  suffices ∀ {k l u v}, VecForm (fun k _ => Stuck (VecClass S k)) R k l u v → k = l →
      ∀ {w}, VecEq S R k v w → VecEq S R k u w from this h rfl h'
  intro k l u v h
  induction h with
  | nil hk hl hu hv =>
      rintro rfl w h'
      cases h' with
      | nil _ _ hv' hw => exact .nil hk hk hu hw
      | cons _ _ hv' hw => cases hv.unique hv'
      | stuck h' => exact (h'.not_left hv nofun).elim
  | cons hk hl hu hv h _ ih =>
      rintro rfl w h'
      cases hk.unique hl
      cases h' with
      | nil _ _ hv' hw => cases hv.unique hv'
      | cons hk' hl' hv' hw h' hs' =>
          cases hv.unique hv'
          cases hk.unique hk'
          cases hk.unique hl'
          exact .cons hk hk hu hw (E.trans h h') (ih rfl hs')
      | stuck h' => exact (h'.not_left hv nofun).elim
  | stuck h =>
      rintro rfl w h'
      cases h' with
      | nil _ _ hv hw => exact (h.not_right hv nofun).elim
      | cons _ _ hv hw => exact (h.not_right hv nofun).elim
      | stuck h' => exact .stuck ((Stuck.equality _).trans h h')

theorem VecEq.equality (S : Value → Prop) {R : Rel} (E : Equality R) (k : Value) :
    Equality (VecEq S R k) where
  symm := VecEq.symm E
  trans := VecEq.trans E
  form := by
    intro v v' w hc h
    cases h with
    | nil hk hl hv hw => exact .nil hk hl (hc.forces hv) hw
    | cons hk hl hv hw h hs => exact .cons hk hl (hc.forces hv) hw h hs
    | stuck h => exact .stuck ((Stuck.equality _).form hc h)

theorem EitherForm.equality (S : Value → Prop) {L R : Rel} (EL : Equality L) (ER : Equality R) :
    Equality (EitherForm (Stuck S) L R) where
  symm := by
    intro v w h
    cases h with
    | left hv hw h => exact .left hw hv (EL.symm h)
    | right hv hw h => exact .right hw hv (ER.symm h)
    | stuck h => exact .stuck ((Stuck.equality S).symm h)
  trans := by
    intro u v w h h'
    cases h with
    | left hu hv h =>
        cases h' with
        | left hv' hw h' =>
            cases hv.unique hv'
            exact .left hu hw (EL.trans h h')
        | right hv' => cases hv.unique hv'
        | stuck h' => exact (h'.not_left hv nofun).elim
    | right hu hv h =>
        cases h' with
        | left hv' => cases hv.unique hv'
        | right hv' hw h' =>
            cases hv.unique hv'
            exact .right hu hw (ER.trans h h')
        | stuck h' => exact (h'.not_left hv nofun).elim
    | stuck h =>
        cases h' with
        | left hv | right hv => exact (h.not_right hv nofun).elim
        | stuck h' => exact .stuck ((Stuck.equality S).trans h h')
  form := by
    intro v v' w hc h
    cases h with
    | left hv hw h => exact .left (hc.forces hv) hw h
    | right hv hw h => exact .right (hc.forces hv) hw h
    | stuck h => exact .stuck ((Stuck.equality S).form hc h)

theorem EqualForm.equality (S : Value → Prop) {R : Rel} (E : Equality R) :
    Equality (EqualForm (Stuck S) R) where
  symm := by
    intro v w h
    cases h with
    | same hv hw h => exact .same hw hv (E.symm h)
    | stuck h => exact .stuck ((Stuck.equality S).symm h)
  trans := by
    intro u v w h h'
    cases h with
    | same hu hv h =>
        cases h' with
        | same hv' hw h' =>
            cases hv.unique hv'
            exact .same hu hw (E.trans h h')
        | stuck h' => exact (h'.not_left hv nofun).elim
    | stuck h =>
        cases h' with
        | same hv => exact (h.not_right hv nofun).elim
        | stuck h' => exact .stuck ((Stuck.equality S).trans h h')
  form := by
    intro v v' w hc h
    cases h with
    | same hv hw h => exact .same (hc.forces hv) hw h
    | stuck h => exact .stuck ((Stuck.equality S).form hc h)

theorem Equality.between {R : Rel} (E : Equality R) (l r : Value) :
    Equality fun a b => R a b ∧ R l a ∧ R a r where
  symm h := ⟨E.symm h.1, E.trans h.2.1 h.1, E.trans (E.symm h.1) h.2.2⟩
  trans h h' := ⟨E.trans h.1 h'.1, h.2⟩
  form hc h := ⟨E.form hc h.1, E.form_right hc h.2.1, E.form hc h.2.2⟩

theorem FunctionIn.form {S : Value → Prop} {f f' : Value} (h : FunctionIn S f)
    (hc : Coincides f f') : FunctionIn S f' := by
  rcases h with ⟨x, c, hf⟩ | ⟨T, e, hf, hT⟩
  · exact .inl ⟨x, c, hc.forces hf⟩
  · exact .inr ⟨T, e, hc.forces hf, hT⟩

theorem PairIn.form {S : Value → Prop} {p p' : Value} (h : PairIn S p) (hc : Coincides p p') :
    PairIn S p' := by
  rcases h with ⟨a, d, hp⟩ | ⟨T, e, hp, hT⟩
  · exact .inl ⟨a, d, hc.forces hp⟩
  · exact .inr ⟨T, e, hc.forces hp, hT⟩

section Quantified

variable {S : Value → Prop} {R : Rel} {RB : Value → Rel}

theorem FunctionEq.equality (E : Equality R) (EB : ∀ a, R a a → Equality (RB a))
    (hR : ∀ a a', R a a' → RB a = RB a') : Equality (FunctionEq S R RB) where
  symm := by
    rintro f g ⟨hf, hg, h⟩
    refine ⟨hg, hf, fun a a' haa => ?_⟩
    obtain ⟨b, b', hb, hb', hbb⟩ := h a' a (E.symm haa)
    rw [← hR a a' haa] at hbb
    exact ⟨b', b, hb', hb, (EB a (E.refl_left haa)).symm hbb⟩
  trans := by
    rintro f g k ⟨hf, _, h⟩ ⟨_, hk, h'⟩
    refine ⟨hf, hk, fun a a' haa => ?_⟩
    obtain ⟨b, b₁, hb, hb₁, hbb⟩ := h a a (E.refl_left haa)
    obtain ⟨b₂, b', hb₂, hb', hbb'⟩ := h' a a' haa
    cases hb₁.unique hb₂
    exact ⟨b, b', hb, hb', (EB a (E.refl_left haa)).trans hbb hbb'⟩
  form := by
    rintro f f' g hc ⟨hf, hg, h⟩
    refine ⟨hf.form hc, hg, fun a a' haa => ?_⟩
    obtain ⟨b, b', hb, hb', hbb⟩ := h a a' haa
    exact ⟨b, b', hb.of_coincides hc, hb', hbb⟩

theorem PairEq.equality (E : Equality R) (EB : ∀ a, R a a → Equality (RB a))
    (hR : ∀ a a', R a a' → RB a = RB a') : Equality (PairEq S R RB) where
  symm := by
    rintro p q ⟨hp, hq, a, d, a', d', ha, hd, ha', hd', haa, hdd⟩
    have hdd' := (EB a (E.refl_left haa)).symm hdd
    rw [hR a a' haa] at hdd'
    exact ⟨hq, hp, a', d', a, d, ha', hd', ha, hd, E.symm haa, hdd'⟩
  trans := by
    rintro p q u ⟨hp, _, a, d, a', d', ha, hd, ha', hd', haa, hdd⟩
      ⟨_, hu, a₁, d₁, a₂, d₂, ha₁, hd₁, ha₂, hd₂, haa', hdd'⟩
    cases ha'.unique ha₁
    cases hd'.unique hd₁
    rw [← hR a a' haa] at hdd'
    exact ⟨hp, hu, a, d, a₂, d₂, ha, hd, ha₂, hd₂, E.trans haa haa',
      (EB a (E.refl_left haa)).trans hdd hdd'⟩
  form := by
    rintro p p' q hc ⟨hp, hq, a, d, a', d', ha, hd, h⟩
    exact ⟨hp.form hc, hq, a, d, a', d', ha.of_coincides hc, hd.of_coincides hc, h⟩

theorem QuantEq.equality (q : Quantifier) (E : Equality R) (EB : ∀ a, R a a → Equality (RB a))
    (hR : ∀ a a', R a a' → RB a = RB a') : Equality (QuantEq q S R RB) := by
  cases q with
  | pi => exact FunctionEq.equality E EB hR
  | sigma => exact PairEq.equality E EB hR

end Quantified

theorem ConstEq.equality {U : Option Rel} (hU : ∀ R, U = some R → Equality R) {c : Const} {R : Rel}
    (h : ConstEq U c R) : Equality R := by
  cases h with
  | univ h => exact hU R h
  | nat => exact NatForm.equality _
  | atom => exact AtomForm.equality _
  | trivial => exact Single.equality
  | absurd => exact Impossible.equality

theorem Denotes.equality {U : Option Rel} (hU : ∀ R, U = some R → Equality R) {A : Value}
    {S : Value → Prop} {R : Rel} (h : Denotes U A S R) : Equality R := by
  induction h with
  | const _ hR => exact hR.equality hU
  | stuck => exact Stuck.equality _
  | list _ _ ih => exact ListForm.equality _ ih
  | vec _ _ _ ih => exact VecEq.equality _ ih _
  | either _ _ _ ihl ihr => exact EitherForm.equality _ ihl ihr
  | equal _ _ _ _ ih => exact EqualForm.equality _ (ih.between _ _)
  | quant _ _ _ _ _ hR ihd ihB => exact QuantEq.equality _ ihd ihB hR

/-! ## Equal types denote the same -/

theorem NatEq.equality : Equality NatEq := NatForm.equality _

theorem NatEq.add1_inv {k l k' : Value} (h : NatEq k l) (hk : Forces k (.add1 k')) :
    ∃ l', Forces l (.add1 l') ∧ NatEq k' l' := by
  cases h with
  | zero hk' => cases hk.unique hk'
  | add1 hk' hl h =>
      cases hk.unique hk'
      exact ⟨_, hl, h⟩
  | stuck h => exact (h.not_left hk nofun).elim

theorem NatEq.zero_inv {k l : Value} (h : NatEq k l) (hk : Forces k .zero) : Forces l .zero := by
  cases h with
  | zero _ hl => exact hl
  | add1 hk' => cases hk.unique hk'
  | stuck h => exact (h.not_left hk nofun).elim

theorem VecClass.of_length {S : Value → Prop} {k l A : Value} (h : NatEq k l)
    (hA : VecClass S k A) : VecClass S l A := by
  obtain ⟨E, k', hA, hE, hk⟩ := hA
  exact ⟨E, k', hA, hE, NatEq.equality.trans (NatEq.equality.symm h) hk⟩

theorem VecClass.congr {S : Value → Prop} {k l : Value} (h : NatEq k l) :
    VecClass S k = VecClass S l :=
  funext fun _ => propext ⟨.of_length h, .of_length (NatEq.equality.symm h)⟩

theorem VecEq.of_length {S : Value → Prop} {R : Rel} {k l v w : Value} (hkl : NatEq k l)
    (h : VecEq S R k v w) : VecEq S R l v w := by
  suffices ∀ {k m v w}, VecForm (fun k _ => Stuck (VecClass S k)) R k m v w → k = m →
      ∀ {l}, NatEq k l → VecEq S R l v w from this h rfl hkl
  intro k m v w h
  induction h with
  | nil hk _ hv hw =>
      rintro rfl l hkl
      have hl := hkl.zero_inv hk
      exact .nil hl hl hv hw
  | cons hk hm hv hw h _ ih =>
      rintro rfl l hkl
      cases hk.unique hm
      obtain ⟨l', hl, hkl'⟩ := hkl.add1_inv hk
      exact .cons hl hl hv hw h (ih rfl hkl')
  | stuck h =>
      rintro rfl l hkl
      exact .stuck (VecClass.congr hkl ▸ h)

theorem VecEq.congr {S : Value → Prop} {R : Rel} {k l : Value} (h : NatEq k l) :
    VecEq S R k = VecEq S R l :=
  funext fun _ => funext fun _ => propext ⟨.of_length h, .of_length (NatEq.equality.symm h)⟩

theorem StuckClass.congr {e e' : Neutral} (h : Agree (.neutral e) (.neutral e')) :
    StuckClass e = StuckClass e' := by
  funext A
  refine propext ⟨?_, ?_⟩
  · rintro ⟨T, e₁, hA, hT, he⟩
    exact ⟨T, e₁, hA, hT, h.symm.trans he⟩
  · rintro ⟨T, e₁, hA, hT, he⟩
    exact ⟨T, e₁, hA, hT, h.trans he⟩

theorem EqualClass.congr {S : Value → Prop} {R : Rel} (E : Equality R) {l r l' r' : Value}
    (hl : R l l') (hr : R r r') : EqualClass S R l r = EqualClass S R l' r' := by
  funext A
  refine propext ⟨?_, ?_⟩
  · rintro ⟨C, l₁, r₁, hA, hC, hl₁, hr₁⟩
    exact ⟨C, l₁, r₁, hA, hC, E.trans (E.symm hl) hl₁, E.trans (E.symm hr) hr₁⟩
  · rintro ⟨C, l₁, r₁, hA, hC, hl₁, hr₁⟩
    exact ⟨C, l₁, r₁, hA, hC, E.trans hl hl₁, E.trans hr hr₁⟩

theorem Equality.between_congr {R : Rel} (E : Equality R) {l r l' r' : Value} (hl : R l l')
    (hr : R r r') : (fun a b => R a b ∧ R l a ∧ R a r) = fun a b => R a b ∧ R l' a ∧ R a r' := by
  funext a b
  refine propext ⟨fun h => ⟨h.1, ?_, ?_⟩, fun h => ⟨h.1, ?_, ?_⟩⟩
  · exact E.trans (E.symm hl) h.2.1
  · exact E.trans h.2.2 hr
  · exact E.trans hl h.2.1
  · exact E.trans h.2.2 (E.symm hr)

section Quantified

variable {S : Value → Prop} {R : Rel}

theorem QuantClass.congr (q : Quantifier) {SB SB' : Value → Value → Prop}
    (h : ∀ a, R a a → SB a = SB' a) : QuantClass q S R SB = QuantClass q S R SB' := by
  funext A
  refine propext ⟨?_, ?_⟩
  · rintro ⟨x, d, r, hA, hd, hr⟩
    exact ⟨x, d, r, hA, hd, fun a ha => h a ha ▸ hr a ha⟩
  · rintro ⟨x, d, r, hA, hd, hr⟩
    exact ⟨x, d, r, hA, hd, fun a ha => h a ha ▸ hr a ha⟩

theorem QuantEq.congr (q : Quantifier) (E : Equality R) {RB RB' : Value → Rel}
    (h : ∀ a, R a a → RB a = RB' a) : QuantEq q S R RB = QuantEq q S R RB' := by
  have imp : ∀ {RB RB' : Value → Rel}, (∀ a, R a a → RB a = RB' a) → ∀ v w,
      QuantEq q S R RB v w → QuantEq q S R RB' v w := by
    intro RB RB' h v w hvw
    cases q with
    | pi =>
        refine ⟨hvw.1, hvw.2.1, fun a a' haa => ?_⟩
        obtain ⟨b, b', hb, hb', hbb⟩ := hvw.2.2 a a' haa
        exact ⟨b, b', hb, hb', h a (E.refl_left haa) ▸ hbb⟩
    | sigma =>
        obtain ⟨hv, hw, a, d, a', d', ha, hd, ha', hd', haa, hdd⟩ := hvw
        exact ⟨hv, hw, a, d, a', d', ha, hd, ha', hd', haa, h a (E.refl_left haa) ▸ hdd⟩
  exact funext fun v => funext fun w =>
    propext ⟨imp h v w, imp (fun a ha => (h a ha).symm) v w⟩

end Quantified

namespace Denotes

variable {U : Option Rel} {A B : Value} {S S' : Value → Prop} {R R' : Rel}

theorem mem_self (h : Denotes U A S R) : S A := by
  induction h with
  | const hA => exact hA
  | stuck hA hT he => exact ⟨_, _, hA, hT, he⟩
  | list hA _ ih => exact ⟨_, hA, ih⟩
  | vec hA _ hk ih => exact ⟨_, _, hA, ih, hk⟩
  | either hA _ _ ihl ihr => exact ⟨_, _, hA, ihl, ihr⟩
  | equal hA _ hl hr ih => exact ⟨_, _, _, hA, ih, hl, hr⟩
  | quant hA _ hF _ _ _ ihd ihB => exact ⟨_, _, _, hA, ihd, fun a ha => ⟨_, hF a ha, ihB a ha⟩⟩

theorem of_mem (hU : ∀ R, U = some R → Equality R) (h : Denotes U A S R) (hB : S B) :
    Denotes U B S R := by
  induction h generalizing B with
  | const _ hR => exact .const hB hR
  | stuck =>
      obtain ⟨T, e, hB, hT, he⟩ := hB
      rw [StuckClass.congr he]
      exact .stuck hB hT he.refl_right
  | list _ _ ih =>
      obtain ⟨E, hB, hE⟩ := hB
      exact .list hB (ih hE)
  | @vec _ _ _ S R _ _ _ ih =>
      obtain ⟨E, k, hB, hE, hk⟩ := hB
      change Denotes U B _ (VecEq S R _)
      rw [VecClass.congr hk, VecEq.congr hk]
      exact .vec hB (ih hE) (NatEq.equality.refl_right hk)
  | either _ _ _ ihl ihr =>
      obtain ⟨l, r, hB, hl, hr⟩ := hB
      exact .either hB (ihl hl) (ihr hr)
  | equal _ hC _ _ ih =>
      obtain ⟨C, l, r, hB, hS, hl, hr⟩ := hB
      have E := hC.equality hU
      rw [EqualClass.congr E hl hr, E.between_congr hl hr]
      exact .equal hB (ih hS) (E.refl_right hl) (E.refl_right hr)
  | @quant _ _ _ _ _ _ R _ SB _ _ _ _ _ hS hR ihd ihB =>
      obtain ⟨x, d, r, hB, hd, hr⟩ := hB
      have hr : ∀ a, ∃ B, R a a → Applies r a B ∧ SB a B := fun a => by
        by_cases ha : R a a
        · obtain ⟨B, hB⟩ := hr a ha
          exact ⟨B, fun _ => hB⟩
        · exact ⟨a, fun h => absurd h ha⟩
      choose F hF using hr
      exact .quant hB (ihd hd) (fun a ha => (hF a ha).1) (fun a ha => ihB a ha (hF a ha).2) hS hR

/-! What a type of a given form denotes. -/

theorem const_inv {c : Const} (h : Denotes U A S R) (hA : Forces A (.const c)) :
    ConstEq U c R ∧ S = (Forces · (.const c)) := by
  cases h with
  | const hA' hR =>
      cases hA.unique hA'
      exact ⟨hR, rfl⟩
  | stuck hA' | list hA' | vec hA' | either hA' | equal hA' | quant hA' => cases hA.unique hA'

theorem stuck_inv {T : Value} {e : Neutral} (h : Denotes U A S R) (hA : Forces A (.neutral T e)) :
    Forces T .univ ∧ Agree (.neutral e) (.neutral e) ∧ S = StuckClass e ∧
      R = Stuck (StuckClass e) := by
  cases h with
  | stuck hA' hT he =>
      cases hA.unique hA'
      exact ⟨hT, he, rfl, rfl⟩
  | const hA' | list hA' | vec hA' | either hA' | equal hA' | quant hA' => cases hA.unique hA'

theorem list_inv {E : Value} (h : Denotes U A S R) (hA : Forces A (.list E)) :
    ∃ S₀ R₀, Denotes U E S₀ R₀ ∧ S = ListClass S₀ ∧ R = ListForm (Stuck S) R₀ := by
  cases h with
  | list hA' hE =>
      cases hA.unique hA'
      exact ⟨_, _, hE, rfl, rfl⟩
  | const hA' | stuck hA' | vec hA' | either hA' | equal hA' | quant hA' => cases hA.unique hA'

theorem vec_inv {E k : Value} (h : Denotes U A S R) (hA : Forces A (.vec E k)) :
    ∃ S₀ R₀, Denotes U E S₀ R₀ ∧ NatEq k k ∧ S = VecClass S₀ k ∧ R = VecEq S₀ R₀ k := by
  cases h with
  | vec hA' hE hk =>
      cases hA.unique hA'
      exact ⟨_, _, hE, hk, rfl, rfl⟩
  | const hA' | stuck hA' | list hA' | either hA' | equal hA' | quant hA' => cases hA.unique hA'

theorem either_inv {l r : Value} (h : Denotes U A S R) (hA : Forces A (.either l r)) :
    ∃ S₁ R₁ S₂ R₂, Denotes U l S₁ R₁ ∧ Denotes U r S₂ R₂ ∧ S = EitherClass S₁ S₂ ∧
      R = EitherForm (Stuck S) R₁ R₂ := by
  cases h with
  | either hA' hl hr =>
      cases hA.unique hA'
      exact ⟨_, _, _, _, hl, hr, rfl, rfl⟩
  | const hA' | stuck hA' | list hA' | vec hA' | equal hA' | quant hA' => cases hA.unique hA'

theorem equal_inv {C l r : Value} (h : Denotes U A S R) (hA : Forces A (.equal C l r)) :
    ∃ S₀ R₀, Denotes U C S₀ R₀ ∧ R₀ l l ∧ R₀ r r ∧ S = EqualClass S₀ R₀ l r ∧
      R = EqualForm (Stuck S) fun a b => R₀ a b ∧ R₀ l a ∧ R₀ a r := by
  cases h with
  | equal hA' hC hl hr =>
      cases hA.unique hA'
      exact ⟨_, _, hC, hl, hr, rfl, rfl⟩
  | const hA' | stuck hA' | list hA' | vec hA' | either hA' | quant hA' => cases hA.unique hA'

theorem quant_inv {q : Quantifier} {x : Name} {d : Value} {r : Closure} (h : Denotes U A S R)
    (hA : Forces A (.quant q x d r)) :
    ∃ (S₀ : Value → Prop) (R₀ : Rel) (F : Value → Value) (SB : Value → Value → Prop)
      (RB : Value → Rel), Denotes U d S₀ R₀ ∧ (∀ a, R₀ a a → Applies r a (F a)) ∧
      (∀ a, R₀ a a → Denotes U (F a) (SB a) (RB a)) ∧ (∀ a a', R₀ a a' → SB a = SB a') ∧
      (∀ a a', R₀ a a' → RB a = RB a') ∧ S = QuantClass q S₀ R₀ SB ∧ R = QuantEq q S R₀ RB := by
  cases h with
  | quant hA' hd hF hB hS hR =>
      cases hA.unique hA'
      exact ⟨_, _, _, _, _, hd, hF, hB, hS, hR, rfl, rfl⟩
  | const hA' | stuck hA' | list hA' | vec hA' | either hA' | equal hA' => cases hA.unique hA'

theorem form (h : Denotes U A S R) (hc : Coincides A B) : Denotes U B S R := by
  cases h with
  | const hA hR => exact .const (hc.forces hA) hR
  | stuck hA hT he => exact .stuck (hc.forces hA) hT he
  | list hA hE => exact .list (hc.forces hA) hE
  | vec hA hE hk => exact .vec (hc.forces hA) hE hk
  | either hA hl hr => exact .either (hc.forces hA) hl hr
  | equal hA hC hl hr => exact .equal (hc.forces hA) hC hl hr
  | quant hA hd hF hB hS hR => exact .quant (hc.forces hA) hd hF hB hS hR

/-- A type of the lower level is one of the higher level, and denotes the same there. -/
theorem lift (h : Denotes none A S R) (U : Option Rel) : Denotes U A S R := by
  induction h with
  | const hA hR =>
      refine .const hA ?_
      cases hR with
      | univ hU => cases hU
      | nat => exact .nat
      | atom => exact .atom
      | trivial => exact .trivial
      | absurd => exact .absurd
  | stuck hA hT he => exact .stuck hA hT he
  | list hA _ ih => exact .list hA ih
  | vec hA _ hk ih => exact .vec hA ih hk
  | either hA _ _ ihl ihr => exact .either hA ihl ihr
  | equal hA _ hl hr ih => exact .equal hA ih hl hr
  | quant hA _ hF _ hS hR ihd ihB => exact .quant hA ihd hF ihB hS hR

theorem unique (hU : ∀ R, U = some R → Equality R) (h : Denotes U A S R) (h' : Denotes U A S' R') :
    S = S' ∧ R = R' := by
  induction h generalizing S' R' with
  | const hA hR =>
      obtain ⟨hR', rfl⟩ := h'.const_inv hA
      refine ⟨rfl, ?_⟩
      cases hR with
      | univ hU =>
          cases hR' with
          | univ hU' => exact Option.some.inj (hU.symm.trans hU')
      | _ => cases hR'; rfl
  | stuck hA =>
      obtain ⟨_, _, rfl, rfl⟩ := h'.stuck_inv hA
      exact ⟨rfl, rfl⟩
  | list hA _ ih =>
      obtain ⟨S₀, R₀, hE, rfl, rfl⟩ := h'.list_inv hA
      obtain ⟨rfl, rfl⟩ := ih hE
      exact ⟨rfl, rfl⟩
  | vec hA _ _ ih =>
      obtain ⟨S₀, R₀, hE, _, rfl, rfl⟩ := h'.vec_inv hA
      obtain ⟨rfl, rfl⟩ := ih hE
      exact ⟨rfl, rfl⟩
  | either hA _ _ ihl ihr =>
      obtain ⟨S₁, R₁, S₂, R₂, hl, hr, rfl, rfl⟩ := h'.either_inv hA
      obtain ⟨rfl, rfl⟩ := ihl hl
      obtain ⟨rfl, rfl⟩ := ihr hr
      exact ⟨rfl, rfl⟩
  | equal hA _ _ _ ih =>
      obtain ⟨S₀, R₀, hC, _, _, rfl, rfl⟩ := h'.equal_inv hA
      obtain ⟨rfl, rfl⟩ := ih hC
      exact ⟨rfl, rfl⟩
  | @quant _ q _ _ _ S₁ R₁ _ SB _ hA hd hF _ _ _ ihd ihB =>
      obtain ⟨S₀, R₀, F', SB', RB', hd', hF', hB', _, _, rfl, rfl⟩ := h'.quant_inv hA
      obtain ⟨rfl, rfl⟩ := ihd hd'
      -- The ranges are compared at elements of the domain only; elsewhere nothing depends on them.
      have hB := fun a ha => ihB a ha ((hF a ha).unique (hF' a ha) ▸ hB' a ha)
      have hS : QuantClass q S₁ R₁ SB = QuantClass q S₁ R₁ SB' :=
        QuantClass.congr q fun a ha => (hB a ha).1
      refine ⟨hS, ?_⟩
      rw [hS]
      exact QuantEq.congr q (hd.equality hU) fun a ha => (hB a ha).2

end Denotes

end TypeKernel
