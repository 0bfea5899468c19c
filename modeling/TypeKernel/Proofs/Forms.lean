/-
# TypeKernel.Proofs.Forms — the forms that values take

What a value is for a rule is its canonical or neutral form. Two values coincide if they have the same
one. This module gives the rules of application and projection by that form, and the shapes in which
two related elements of `Nat`, `Atom`, `List`, `Vec`, `Either` and `=` come: the same constructor with
related parts, or a stuck element, about which the shape itself says nothing.
-/
import TypeKernel.Proofs.Reads

namespace TypeKernel

set_option autoImplicit false

/-- Relations between values. -/
abbrev Rel := Value → Value → Prop

theorem Forces.unique {v w w' : Value} (h : Forces v w) (h' : Forces v w') : w = w' :=
  Except.ok.inj (h.symm.trans h')

theorem Applies.unique {c : Closure} {v w w' : Value} (h : Applies c v w) (h' : Applies c v w') :
    w = w' :=
  Except.ok.inj (h.symm.trans h')

theorem Calls.unique {f v w w' : Value} (h : Calls f v w) (h' : Calls f v w') : w = w' :=
  Except.ok.inj (h.symm.trans h')

/-- Whether a value is waiting to be evaluated. -/
def Value.isDelayed : Value → Bool
  | .delayed _ _ _ => true
  | _ => false

theorem forces_self {v : Value} (h : v.isDelayed = false) : Forces v v := by
  have := answer_eq (.force v)
  cases v with
  | delayed => cases h
  | _ => exact this

/-- Forcing ends at a form: no bound on the steps gives a value that is still delayed. -/
theorem run_force_not_delayed (n : Nat) {v w : Value} (h : run n (.force v) = (.ok w : ByName Value)) :
    w.isDelayed = false := by
  induction n generalizing v with
  | zero => cases h
  | succ n ih =>
      cases v with
      | delayed cell ρ e =>
          change Eval.force (run n) (.delayed cell ρ e) = _ at h
          rw [Eval.force_delayed] at h
          cases hv : (run n (.eval ρ e) : ByName Value) with
          | error s => rw [hv] at h; cases h
          | ok v' =>
              rw [hv] at h
              exact ih (by exact h)
      | _ => cases h; rfl

theorem Forces.not_delayed {v w : Value} (h : Forces v w) : w.isDelayed = false := by
  obtain ⟨n, hn⟩ := run_of_answer h
  exact run_force_not_delayed n (hn n (Nat.le_refl n))

theorem Forces.self {v w : Value} (h : Forces v w) : Forces w w :=
  forces_self h.not_delayed

/-- Two values with the same form. -/
def Coincides (v v' : Value) : Prop :=
  answer (.force v) = answer (.force v')

theorem Coincides.refl (v : Value) : Coincides v v := rfl

theorem Coincides.symm {v v' : Value} (h : Coincides v v') : Coincides v' v := Eq.symm h

theorem Coincides.forces {v v' w : Value} (h : Coincides v v') (hv : Forces v w) : Forces v' w :=
  Eq.trans (Eq.symm h) hv

theorem Forces.coincides {v w : Value} (h : Forces v w) : Coincides v w :=
  Eq.trans h (Eq.symm h.self)

/-! ## Application and projection -/

theorem Coincides.call {f f' : Value} (h : Coincides f f') (a : Value) :
    Eval.call answer f a = Eval.call answer f' a := by
  unfold Eval.call
  rw [h]

theorem Calls.of_coincides {f f' a b : Value} (hb : Calls f a b) (h : Coincides f f') :
    Calls f' a b :=
  (h.call a).symm.trans hb

theorem Calls.lam {f a b : Value} {x : Name} {c : Closure} (hf : Forces f (.lam x c))
    (hb : Applies c a b) : Calls f a b := by
  unfold Calls Eval.call
  rw [hf]
  exact hb

theorem Calls.neutral {f T d a B : Value} {e : Neutral} {x : Name} {r : Closure}
    (hf : Forces f (.neutral T e)) (hT : Forces T (.pi x d r)) (hB : Applies r a B) :
    Calls f a (.neutral B (.app e (.mk d a))) := by
  unfold Calls Eval.call
  rw [hf]
  change (answer (.force T) >>= _) = _
  rw [hT]
  change (answer (.apply r a) >>= _) = _
  rw [hB]
  rfl

/-- `a` is the first part of the pair `p`. -/
abbrev Cars (p a : Value) : Prop := Eval.car answer p = .ok a

/-- `d` is the second part of the pair `p`. -/
abbrev Cdrs (p d : Value) : Prop := Eval.cdr answer p = .ok d

theorem Cars.of_coincides {p p' a : Value} (ha : Cars p a) (h : Coincides p p') : Cars p' a := by
  unfold Cars Eval.car at *
  rw [← h]
  exact ha

theorem Cdrs.of_coincides {p p' d : Value} (hd : Cdrs p d) (h : Coincides p p') : Cdrs p' d := by
  unfold Cdrs Eval.cdr at *
  rw [← h]
  exact hd

theorem Cars.unique {p a a' : Value} (h : Cars p a) (h' : Cars p a') : a = a' :=
  Except.ok.inj (h.symm.trans h')

theorem Cdrs.unique {p d d' : Value} (h : Cdrs p d) (h' : Cdrs p d') : d = d' :=
  Except.ok.inj (h.symm.trans h')

theorem Cars.cons {p a d : Value} (hp : Forces p (.cons a d)) : Cars p a := by
  unfold Cars Eval.car
  rw [hp]
  rfl

theorem Cdrs.cons {p a d : Value} (hp : Forces p (.cons a d)) : Cdrs p d := by
  unfold Cdrs Eval.cdr
  rw [hp]
  rfl

theorem Cars.neutral {p T d : Value} {e : Neutral} {x : Name} {r : Closure}
    (hp : Forces p (.neutral T e)) (hT : Forces T (.sigma x d r)) :
    Cars p (.neutral d (.proj .car e)) := by
  unfold Cars Eval.car
  rw [hp]
  change (answer (.force T) >>= _) = _
  rw [hT]
  rfl

theorem Cdrs.neutral {p T d B : Value} {e : Neutral} {x : Name} {r : Closure}
    (hp : Forces p (.neutral T e)) (hT : Forces T (.sigma x d r))
    (hB : Applies r (.neutral d (.proj .car e)) B) : Cdrs p (.neutral B (.proj .cdr e)) := by
  unfold Cdrs Eval.cdr
  rw [hp]
  change (answer (.force T) >>= _) = _
  rw [hT]
  change (answer (.apply r _) >>= _) = _
  rw [hB]
  rfl

/-! ## Reading what has the same form -/

theorem Reads.of_coincides_type {σ : Style} {X : List Name} {v v' : Value} {n : Expr}
    (h : Reads σ X (.type v) n) (hv : Coincides v v') : Reads σ X (.type v') n := by
  cases h with
  | type hA h => exact .type (hv.forces hA) h

theorem Reads.of_coincides {σ : Style} {X : List Name} {A v v' : Value} {n : Expr}
    (h : Reads σ X (.value A v) n) (hv : Coincides v v') : Reads σ X (.value A v') n := by
  cases h with
  | value hA h =>
      refine .value hA ?_
      cases h with
      | univ h => exact .univ (h.of_coincides_type hv)
      | lam hf hy hB hb h => exact .lam (hv.forces hf) hy hB hb h
      | cons ha hb hl hB hn => exact .cons (Cars.of_coincides ha hv) (Cdrs.of_coincides hb hv) hl hB hn
      | sole => exact .sole
      | absurd hv' h => exact .absurd (hv.forces hv') h
      | byForm hA hv' h => exact .byForm hA (hv.forces hv') h

theorem Reads.pi_inv {σ : Style} {X : List Name} {x : Name} {d : Value} {R : Closure} {t : Expr}
    (h : Reads σ X (.type (.pi x d R)) t) : ∃ y B nd n, t = .pi y nd n ∧ y = σ.pick X x ∧
      Applies R (.ofVar y d) B ∧ Reads σ (y :: X) (.type B) n := by
  cases h with
  | type hp h =>
      cases hp.unique (forces_self rfl)
      cases h with
      | quant hy _ hB hn => exact ⟨_, _, _, _, rfl, hy, hB, hn⟩

/-! ## Shapes of related elements

`K` says when stuck elements are related. -/

inductive NatForm (K : Rel) : Rel
  | zero {v w} (hv : Forces v .zero) (hw : Forces w .zero) : NatForm K v w
  | add1 {v w a b} (hv : Forces v (.add1 a)) (hw : Forces w (.add1 b)) (h : NatForm K a b) :
      NatForm K v w
  | stuck {v w} (h : K v w) : NatForm K v w

inductive AtomForm (K : Rel) : Rel
  | quote {v w a} (hv : Forces v (.quote a)) (hw : Forces w (.quote a)) : AtomForm K v w
  | stuck {v w} (h : K v w) : AtomForm K v w

inductive ListForm (K R : Rel) : Rel
  | nil {v w} (hv : Forces v .nil) (hw : Forces w .nil) : ListForm K R v w
  | cons {v w a as b bs} (hv : Forces v (.listCons a as)) (hw : Forces w (.listCons b bs))
      (h : R a b) (hs : ListForm K R as bs) : ListForm K R v w
  | stuck {v w} (h : K v w) : ListForm K R v w

/-- Vectors of two lengths, which shrink together with the vectors. -/
inductive VecForm (K : Value → Value → Rel) (R : Rel) : Value → Value → Rel
  | nil {k l v w} (hk : Forces k .zero) (hl : Forces l .zero) (hv : Forces v .vecNil)
      (hw : Forces w .vecNil) : VecForm K R k l v w
  | cons {k l k' l' v w a as b bs} (hk : Forces k (.add1 k')) (hl : Forces l (.add1 l'))
      (hv : Forces v (.vecCons a as)) (hw : Forces w (.vecCons b bs)) (h : R a b)
      (hs : VecForm K R k' l' as bs) : VecForm K R k l v w
  | stuck {k l v w} (h : K k l v w) : VecForm K R k l v w

inductive EitherForm (K L R : Rel) : Rel
  | left {v w a b} (hv : Forces v (.left a)) (hw : Forces w (.left b)) (h : L a b) :
      EitherForm K L R v w
  | right {v w a b} (hv : Forces v (.right a)) (hw : Forces w (.right b)) (h : R a b) :
      EitherForm K L R v w
  | stuck {v w} (h : K v w) : EitherForm K L R v w

inductive EqualForm (K R : Rel) : Rel
  | same {v w a b} (hv : Forces v (.same a)) (hw : Forces w (.same b)) (h : R a b) :
      EqualForm K R v w
  | stuck {v w} (h : K v w) : EqualForm K R v w

section Imp

variable {K K' L L' R R' : Rel} {v w : Value}

theorem NatForm.imp (hK : ∀ v w, K v w → K' v w) (h : NatForm K v w) : NatForm K' v w := by
  induction h with
  | zero hv hw => exact .zero hv hw
  | add1 hv hw _ ih => exact .add1 hv hw ih
  | stuck h => exact .stuck (hK _ _ h)

theorem AtomForm.imp (hK : ∀ v w, K v w → K' v w) (h : AtomForm K v w) : AtomForm K' v w := by
  cases h with
  | quote hv hw => exact .quote hv hw
  | stuck h => exact .stuck (hK _ _ h)

theorem ListForm.imp (hK : ∀ v w, K v w → K' v w) (hR : ∀ v w, R v w → R' v w)
    (h : ListForm K R v w) : ListForm K' R' v w := by
  induction h with
  | nil hv hw => exact .nil hv hw
  | cons hv hw h _ ih => exact .cons hv hw (hR _ _ h) ih
  | stuck h => exact .stuck (hK _ _ h)

theorem VecForm.imp {K K' : Value → Value → Rel} {k l : Value}
    (hK : ∀ k l v w, K k l v w → K' k l v w) (hR : ∀ v w, R v w → R' v w)
    (h : VecForm K R k l v w) : VecForm K' R' k l v w := by
  induction h with
  | nil hk hl hv hw => exact .nil hk hl hv hw
  | cons hk hl hv hw h _ ih => exact .cons hk hl hv hw (hR _ _ h) ih
  | stuck h => exact .stuck (hK _ _ _ _ h)

theorem EitherForm.imp (hK : ∀ v w, K v w → K' v w) (hL : ∀ v w, L v w → L' v w)
    (hR : ∀ v w, R v w → R' v w) (h : EitherForm K L R v w) : EitherForm K' L' R' v w := by
  cases h with
  | left hv hw h => exact .left hv hw (hL _ _ h)
  | right hv hw h => exact .right hv hw (hR _ _ h)
  | stuck h => exact .stuck (hK _ _ h)

theorem EqualForm.imp (hK : ∀ v w, K v w → K' v w) (hR : ∀ v w, R v w → R' v w)
    (h : EqualForm K R v w) : EqualForm K' R' v w := by
  cases h with
  | same hv hw h => exact .same hv hw (hR _ _ h)
  | stuck h => exact .stuck (hK _ _ h)

end Imp

/-! The shapes are about the forms of values, if relations between stuck elements are. -/

/-- A relation that depends on the forms of values alone. -/
def OnForms (R : Rel) : Prop :=
  ∀ {v v' w w'}, R v w → Coincides v v' → Coincides w w' → R v' w'

section OnForms

variable {K L R : Rel}

theorem NatForm.onForms (hK : OnForms K) : OnForms (NatForm K) := by
  intro v v' w w' h hc hc'
  cases h with
  | zero hv hw => exact .zero (hc.forces hv) (hc'.forces hw)
  | add1 hv hw h => exact .add1 (hc.forces hv) (hc'.forces hw) h
  | stuck h => exact .stuck (hK h hc hc')

theorem AtomForm.onForms (hK : OnForms K) : OnForms (AtomForm K) := by
  intro v v' w w' h hc hc'
  cases h with
  | quote hv hw => exact .quote (hc.forces hv) (hc'.forces hw)
  | stuck h => exact .stuck (hK h hc hc')

theorem ListForm.onForms (hK : OnForms K) : OnForms (ListForm K R) := by
  intro v v' w w' h hc hc'
  cases h with
  | nil hv hw => exact .nil (hc.forces hv) (hc'.forces hw)
  | cons hv hw h hs => exact .cons (hc.forces hv) (hc'.forces hw) h hs
  | stuck h => exact .stuck (hK h hc hc')

theorem VecForm.onForms {K : Value → Value → Rel} (hK : ∀ k l, OnForms (K k l)) (k l : Value) :
    OnForms (VecForm K R k l) := by
  intro v v' w w' h hc hc'
  cases h with
  | nil hk hl hv hw => exact .nil hk hl (hc.forces hv) (hc'.forces hw)
  | cons hk hl hv hw h hs => exact .cons hk hl (hc.forces hv) (hc'.forces hw) h hs
  | stuck h => exact .stuck (hK _ _ h hc hc')

theorem EitherForm.onForms (hK : OnForms K) : OnForms (EitherForm K L R) := by
  intro v v' w w' h hc hc'
  cases h with
  | left hv hw h => exact .left (hc.forces hv) (hc'.forces hw) h
  | right hv hw h => exact .right (hc.forces hv) (hc'.forces hw) h
  | stuck h => exact .stuck (hK h hc hc')

theorem EqualForm.onForms (hK : OnForms K) : OnForms (EqualForm K R) := by
  intro v v' w w' h hc hc'
  cases h with
  | same hv hw h => exact .same (hc.forces hv) (hc'.forces hw) h
  | stuck h => exact .stuck (hK h hc hc')

end OnForms

end TypeKernel
