/-
# TypeKernel.Proofs.Lockstep — matching requests are answered alike

A simulation compares computations of two machines: which of their outcomes correspond. Whatever a
simulation is, it passes through the rules of evaluation, because a rule looks only at the form of
values, and values that match have one form. This is said once here, rule by rule, for every
simulation; `Asks.step` puts the rules together. What is left to each simulation is how it treats
memo cells: suspending and forcing.
-/
import TypeKernel.Eval.Basic
import TypeKernel.Proofs.Matches

namespace TypeKernel

set_option autoImplicit false

open Machine

/-- Values that match. -/
abbrev Both (K : Correspondence) (v v' : Value) : Prop :=
  Matches K (.value v) (.value v')

/-- Matching values have one form. -/
@[elab_as_elim]
theorem Both.byForm {K : Correspondence} {motive : ∀ v v', Both K v v' → Prop}
    (const : ∀ c, motive _ _ (.const c)) (quote : ∀ a, motive _ _ (.quote a))
    (unary : ∀ {v v'} u (h : Both K v v'), motive _ _ (.unary u h))
    (binary : ∀ {l l' r r'} b (hl : Both K l l') (hr : Both K r r'), motive _ _ (.binary b hl hr))
    (equal : ∀ {t t' l l' r r'} (ht : Both K t t') (hl : Both K l l') (hr : Both K r r'),
      motive _ _ (.equal ht hl hr))
    (quant : ∀ {x x' d d' r r'} q (hx : K.binders x x') (hd : Both K d d')
      (hr : Matches K (.closure r) (.closure r')), motive _ _ (.quant q hx hd hr))
    (lam : ∀ {x x' b b'} (hx : K.binders x x') (hb : Matches K (.closure b) (.closure b')),
      motive _ _ (.lam hx hb))
    (neutral : ∀ {t t' e e'} (ht : Both K t t') (he : Matches K (.neutral e) (.neutral e')),
      motive _ _ (.neutral ht he))
    (delayed : ∀ {c c' ρ ρ' e e'} (hc : K.cells c ρ e c' ρ' e') (hρ : Matches K (.env ρ) (.env ρ'))
      (he : K.Code (K.pairing ρ ρ') e e'), motive _ _ (.delayed hc hρ he))
    {v v' : Value} (h : Both K v v') : motive v v' h := by
  cases h with
  | const c => exact const c
  | quote a => exact quote a
  | unary u h => exact unary u h
  | binary b hl hr => exact binary b hl hr
  | equal ht hl hr => exact equal ht hl hr
  | quant q hx hd hr => exact quant q hx hd hr
  | lam hx hb => exact lam hx hb
  | neutral ht he => exact neutral ht he
  | delayed hc hρ he => exact delayed hc hρ he

@[elab_as_elim]
theorem Matches.typedByParts {K : Correspondence} {motive : ∀ a a', Matches K (.typed a) (.typed a') → Prop}
    (typed : ∀ {t t' v v'} (ht : Both K t t') (hv : Both K v v'), motive _ _ (.typed ht hv)) {a a' : Typed}
    (h : Matches K (.typed a) (.typed a')) : motive a a' h := by
  cases h with
  | typed ht hv => exact typed ht hv

/-- Matching stuck forms have one form. -/
@[elab_as_elim]
theorem Matches.stuckByForm {K : Correspondence}
    {motive : ∀ e e', Matches K (.neutral e) (.neutral e') → Prop}
    (var : ∀ {x x'} (hx : K.names x x'), motive _ _ (.var hx))
    (app : ∀ {f f' d d' a a'} (hf : Matches K (.neutral f) (.neutral f')) (hd : Both K d d')
      (ha : Both K a a'), motive _ _ (.app hf (.typed hd ha)))
    (proj : ∀ {t t'} p (ht : Matches K (.neutral t) (.neutral t')), motive _ _ (.proj p ht))
    (fold : ∀ {t t' B B' b b' S S' s s'} f (ht : Matches K (.neutral t) (.neutral t')) (hB : Both K B B')
      (hb : Both K b b') (hS : Both K S S') (hs : Both K s s'),
      motive _ _ (.fold f ht (.typed hB hb) (.typed hS hs)))
    (induct : ∀ {t t' M M' m m' B B' b b' S S' s s'} i (ht : Matches K (.neutral t) (.neutral t'))
      (hM : Both K M M') (hm : Both K m m') (hB : Both K B B') (hb : Both K b b') (hS : Both K S S')
      (hs : Both K s s'), motive _ _ (.induct i ht (.typed hM hm) (.typed hB hb) (.typed hS hs)))
    (transport : ∀ {t t' M M' m m' B B' b b'} k (ht : Matches K (.neutral t) (.neutral t'))
      (hM : Both K M M') (hm : Both K m m') (hB : Both K B B') (hb : Both K b b'),
      motive _ _ (.transport k ht (.typed hM hm) (.typed hB hb)))
    (indAbsurd : ∀ {t t' M M' m m'} (ht : Matches K (.neutral t) (.neutral t')) (hM : Both K M M')
      (hm : Both K m m'), motive _ _ (.indAbsurd ht (.typed hM hm)))
    (indVec : ∀ {N N' k k' t t' M M' m m' B B' b b' S S' s s'} (hN : Both K N N') (hk : Both K k k')
      (ht : Matches K (.neutral t) (.neutral t')) (hM : Both K M M') (hm : Both K m m') (hB : Both K B B')
      (hb : Both K b b') (hS : Both K S S') (hs : Both K s s'),
      motive _ _ (.indVec (.typed hN hk) ht (.typed hM hm) (.typed hB hb) (.typed hS hs)))
    (trans : ∀ {L L' l l' R R' r r'} (hL : Both K L L') (hl : Both K l l') (hR : Both K R R')
      (hr : Both K r r'), motive _ _ (.trans (.typed hL hl) (.typed hR hr)))
    (cong : ∀ {t t' F F' f f'} (ht : Matches K (.neutral t) (.neutral t')) (hF : Both K F F')
      (hf : Both K f f'), motive _ _ (.cong ht (.typed hF hf)))
    {e e' : Neutral} (h : Matches K (.neutral e) (.neutral e')) : motive e e' h := by
  cases h with
  | var hx => exact var hx
  | app hf ha =>
      cases ha using typedByParts with | typed hd ha =>
      exact app hf hd ha
  | proj p ht => exact proj p ht
  | fold f ht hb hs =>
      cases hb using typedByParts with | typed hB hb =>
      cases hs using typedByParts with | typed hS hs =>
      exact fold f ht hB hb hS hs
  | induct i ht hm hb hs =>
      cases hm using typedByParts with | typed hM hm =>
      cases hb using typedByParts with | typed hB hb =>
      cases hs using typedByParts with | typed hS hs =>
      exact induct i ht hM hm hB hb hS hs
  | transport k ht hm hb =>
      cases hm using typedByParts with | typed hM hm =>
      cases hb using typedByParts with | typed hB hb =>
      exact transport k ht hM hm hB hb
  | indAbsurd ht hm =>
      cases hm using typedByParts with | typed hM hm =>
      exact indAbsurd ht hM hm
  | indVec hk ht hm hb hs =>
      cases hk using typedByParts with | typed hN hk =>
      cases hm using typedByParts with | typed hM hm =>
      cases hb using typedByParts with | typed hB hb =>
      cases hs using typedByParts with | typed hS hs =>
      exact indVec hN hk ht hM hm hB hb hS hs
  | trans hl hr =>
      cases hl using typedByParts with | typed hL hl =>
      cases hr using typedByParts with | typed hR hr =>
      exact trans hL hl hR hr
  | cong ht hf =>
      cases hf using typedByParts with | typed hF hf =>
      exact cong ht hF hf

theorem Both.ofVar {K : Correspondence} {d d' : Value} (h : Both K d d') (y y' : Name) :
    Both (K.bind y y') (.ofVar y d) (.ofVar y' d') :=
  .neutral (h.mono (K.le_bind y y')) (.var (.inr ⟨rfl, rfl⟩))

/-- Values that match, or none on either side. An annotation that only the right side has may have any
value. -/
inductive BothOrNone (K : Correspondence) : Option Value → Option Value → Prop
  | none : BothOrNone K none none
  | some {v v'} (h : Both K v v') : BothOrNone K (some v) (some v')
  | added (ha : K.annotated) (v' : Value) : BothOrNone K none (some v')

theorem BothOrNone.mono {K K' : Correspondence} {o o' : Option Value} (h : BothOrNone K o o')
    (le : K.Le K') : BothOrNone K' o o' := by
  cases h with
  | none => exact .none
  | some h => exact .some (h.mono le)
  | added ha v' => exact .added (le.annotated ha) v'

/-- Triples of values that match. -/
def AllThree (K : Correspondence) (p q : Value × Value × Value) : Prop :=
  Both K p.1 q.1 ∧ Both K p.2.1 q.2.1 ∧ Both K p.2.2 q.2.2

/-- An argument with the value of its annotation, if it has one. -/
def BothAnnotated (K : Correspondence) (p q : Option Value × Value) : Prop :=
  BothOrNone K p.1 q.1 ∧ Both K p.2 q.2

/-- Requests that match. -/
inductive Request.Matches (K : Correspondence) : Request → Request → Prop
  | eval {ρ ρ' e e'} (hρ : TypeKernel.Matches K (.env ρ) (.env ρ'))
      (he : K.Code (K.pairing ρ ρ') e e') : Request.Matches K (.eval ρ e) (.eval ρ' e')
  | evalAnnotated {ρ ρ' e a e'} (ha : K.annotated) (hρ : TypeKernel.Matches K (.env ρ) (.env ρ'))
      (he : K.Code (K.pairing ρ ρ') e e') : Request.Matches K (.eval ρ e) (.eval ρ' (.the a e'))
  | force {v v'} (hv : Both K v v') : Request.Matches K (.force v) (.force v')
  | apply {c c' v v'} (hc : TypeKernel.Matches K (.closure c) (.closure c')) (hv : Both K v v') :
      Request.Matches K (.apply c v) (.apply c' v')
  | fold {t t' o o' b b' s s'} (f : Fold) (ht : Both K t t') (ho : BothOrNone K o o')
      (hb : Both K b b') (hs : Both K s s') : Request.Matches K (.fold f t o b s) (.fold f t' o' b' s')
  | induct {t t' m m' b b' s s'} (i : Induction) (ht : Both K t t') (hm : Both K m m')
      (hb : Both K b b') (hs : Both K s s') :
      Request.Matches K (.induct i t m b s) (.induct i t' m' b' s')
  | indVec {n n' t t' m m' b b' s s'} (hn : Both K n n') (ht : Both K t t') (hm : Both K m m')
      (hb : Both K b b') (hs : Both K s s') :
      Request.Matches K (.indVec n t m b s) (.indVec n' t' m' b' s')

/-- Whether a numeral was too long. -/
def Stop.isNumeral : Stop → Bool
  | .failed (.defect (.numeral _)) => true
  | _ => false

/-- When a computation of one machine corresponds to computations of another. The right side is a
family of computations, such as one for every bound on the steps. What is returned is compared at a
correspondence that may have grown. -/
structure Simulation (ι : Type) (m m' : Type → Type) [Machine m] [Machine m'] where
  rel : {α β : Type} → Correspondence → (Correspondence → α → β → Prop) → m α → (ι → m' β) → Prop
  pure : ∀ {α β : Type} {K : Correspondence} {R : Correspondence → α → β → Prop} {a : α} {b : β},
    R K a b → rel K R (pure a) (fun _ => pure b)
  bind : ∀ {α β γ δ : Type} {K : Correspondence} {R : Correspondence → α → β → Prop}
    {S : Correspondence → γ → δ → Prop} {x : m α} {y : ι → m' β} {f : α → m γ}
    {g : ι → β → m' δ}, rel K R x y →
      (∀ K' a b, K.Le K' → R K' a b → rel K' S (f a) (fun i => g i b)) →
        rel K S (x >>= f) (fun i => y i >>= g i)
  /-- Both sides fail alike. No name is chosen in evaluation, so no numeral is too long. -/
  fail : ∀ {α β : Type} {K : Correspondence} {R : Correspondence → α → β → Prop} (e : Error),
    Stop.isNumeral (.failed e) = false → rel K R (stop (.failed e)) (fun _ => stop (.failed e))
  suspend : ∀ {K : Correspondence} {ρ ρ' : Env} {e e' : Expr}, Matches K (.env ρ) (.env ρ') →
    K.Code (K.pairing ρ ρ') e e' → rel K Both (suspend ρ e) (fun _ => suspend ρ' e')
  /-- Without an annotation the left side may fail where the right side goes on. -/
  leftFails : ∀ {α β : Type} {K : Correspondence} {R : Correspondence → α → β → Prop} (e : Error)
    (y : ι → m' β), K.annotated → rel K R (stop (.failed e)) y
  /-- The right side may evaluate an annotation that the left side lacks. -/
  rightAlone : ∀ {α β γ : Type} {K : Correspondence} {R : Correspondence → α → β → Prop} {x : m α}
    {y : ι → m' γ} {g : ι → γ → m' β}, K.annotated → (∀ c, rel K R x (fun i => g i c)) →
      rel K R x (fun i => y i >>= g i)

namespace Simulation

variable {ι : Type} {m m' : Type → Type} [Machine m] [Machine m'] (L : Simulation ι m m')

theorem defect {α β : Type} {K : Correspondence} {R : Correspondence → α → β → Prop} (d : Defect)
    (h : Stop.isNumeral (.failed (.defect d)) = false := by rfl) :
    L.rel K R (Machine.defect d) (fun _ => Machine.defect d) :=
  L.fail (.defect d) h

theorem reject {α β : Type} {K : Correspondence} {R : Correspondence → α → β → Prop}
    (r : Rejection) : L.rel K R (Machine.reject r) (fun _ => Machine.reject r) :=
  L.fail (.rejection r) rfl

/-- Matching requests are answered alike. -/
def Asks (ask : Request → m Value) (ask' : ι → Request → m' Value) : Prop :=
  ∀ ⦃K : Correspondence⦄ ⦃r r' : Request⦄, r.Matches K r' →
    L.rel K Both (ask r) (fun i => ask' i r')

variable {L} {ask : Request → m Value} {ask' : ι → Request → m' Value} {K : Correspondence}

namespace Asks

variable (h : L.Asks ask ask')

include h

theorem call {fn fn' arg arg' : Value} (hf : Both K fn fn') (ha : Both K arg arg') :
    L.rel K Both (Eval.call ask fn arg) (fun i => Eval.call (ask' i) fn' arg') := by
  refine L.bind (h (.force hf)) fun K₁ v v' le₁ hv => ?_
  cases hv using Both.byForm with
  | lam _ hb => exact h (.apply hb (ha.mono le₁))
  | neutral ht he =>
      refine L.bind (h (.force ht)) fun K₂ t t' le₂ ht' => ?_
      cases ht' using Both.byForm with
      | quant q _ hd hr =>
          cases q with
          | pi =>
              refine L.bind (h (.apply hr ((ha.mono le₁).mono le₂))) fun K₃ r r' le₃ hr' => ?_
              exact L.pure (.neutral hr' (.app ((he.mono le₂).mono le₃)
                (.typed (hd.mono le₃) (((ha.mono le₁).mono le₂).mono le₃))))
          | sigma => exact L.defect _
      | _ => exact L.defect _
  | _ => exact L.defect _

theorem callBoth {fn fn' a a' b b' : Value} (hf : Both K fn fn') (ha : Both K a a')
    (hb : Both K b b') :
    L.rel K Both (Eval.callBoth ask fn a b) (fun i => Eval.callBoth (ask' i) fn' a' b') :=
  L.bind (h.call hf ha) fun _ _ _ le hr => h.call hr (hb.mono le)

theorem applyFamily {arg arg' : Value} {f f' : Family} (ha : Both K arg arg')
    (hf : Matches K (.family f) (.family f')) :
    L.rel K Both (Eval.applyFamily ask arg f) (fun i => Eval.applyFamily (ask' i) arg' f') := by
  cases hf with
  | always ht => exact L.pure ht
  | fixed hm hv => exact h.call hm hv
  | fixedBoth hm hv hw => exact h.callBoth hm hv hw
  | wrapped u hm => exact h.call hm (.unary u ha)
  | natStep hm =>
      refine L.bind (h.call hm ha) fun K₁ t t' le ht => ?_
      exact L.pure (.piFamily _ ht (.fixed (hm.mono le) (.unary .add1 (ha.mono le))))
  | listStep he hm => exact L.pure (.piFamily _ (.unary .list he) (.listStepTail hm ha))
  | listStepTail hm hv =>
      refine L.bind (h.call hm ha) fun K₁ t t' le ht => ?_
      exact L.pure (.piFamily _ ht
        (.fixed (hm.mono le) (.binary .listCons (hv.mono le) (ha.mono le))))
  | vecMotive he => exact L.pure (.piFamily _ (.binary .vec he ha) (.always (.const .univ)))
  | vecStep he hm => exact L.pure (.piFamily _ he (.vecStepHead he hm ha))
  | vecStepHead he hm hn =>
      exact L.pure (.piFamily _ (.binary .vec he hn) (.vecStepTail hm hn ha))
  | vecStepTail hm hn hv =>
      refine L.bind (h.callBoth hm hn ha) fun K₁ t t' le ht => ?_
      exact L.pure (.piFamily _ ht (.fixedBoth (hm.mono le) (.unary .add1 (hn.mono le))
        (.binary .vecCons (hv.mono le) (ha.mono le))))
  | equalMotive ht hl => exact L.pure (.piFamily _ (.equal ht hl ha) (.always (.const .univ)))

omit h in
theorem requireType (eliminator : Eliminator) {o o' : Option Value} (ho : BothOrNone K o o') :
    L.rel K Both (Eval.requireType eliminator o) (fun _ => Eval.requireType eliminator o') := by
  cases ho with
  | none => exact L.defect _
  | some hv => exact L.pure hv
  | added ha v' => exact L.leftFails _ _ ha

theorem entryType (eliminator : Eliminator) {t t' : Value} {e e' : Neutral} (ht : Both K t t') :
    L.rel K Both (Eval.entryType ask eliminator t e) (fun i => Eval.entryType (ask' i) eliminator t' e') := by
  refine L.bind (h (.force ht)) fun K₁ v v' _ hv => ?_
  cases hv using Both.byForm with
  | unary u hv =>
      cases u with
      | list => exact L.pure hv
      | _ => exact L.defect _
  | _ => exact L.defect _

theorem equalityOf (eliminator : Eliminator) {t t' : Value} {e e' : Neutral} (ht : Both K t t') :
    L.rel K AllThree (Eval.equalityOf ask eliminator t e) (fun i => Eval.equalityOf (ask' i) eliminator t' e') := by
  refine L.bind (h (.force ht)) fun K₁ v v' _ hv => ?_
  cases hv using Both.byForm with
  | equal ht hl hr => exact L.pure ⟨ht, hl, hr⟩
  | _ => exact L.defect _

theorem project (p : Projection) {t t' : Value} (ht : Both K t t') :
    L.rel K Both (Eval.project ask p t) (fun i => Eval.project (ask' i) p t') := by
  cases p with
  | car =>
      refine L.bind (h (.force ht)) fun K₁ v v' _ hv => ?_
      cases hv using Both.byForm with
      | binary b ha hd =>
          cases b with
          | cons => exact L.pure ha
          | _ => exact L.defect _
      | neutral ht he =>
          refine L.bind (h (.force ht)) fun K₂ t t' le ht' => ?_
          cases ht' using Both.byForm with
          | quant q _ hd _ =>
              cases q with
              | pi => exact L.defect _
              | sigma => exact L.pure (.neutral hd (.proj .car (he.mono le)))
          | _ => exact L.defect _
      | _ => exact L.defect _
  | cdr =>
      refine L.bind (h (.force ht)) fun K₁ v v' _ hv => ?_
      cases hv using Both.byForm with
      | binary b ha hd =>
          cases b with
          | cons => exact L.pure hd
          | _ => exact L.defect _
      | neutral ht he =>
          refine L.bind (h (.force ht)) fun K₂ t t' le ht' => ?_
          cases ht' using Both.byForm with
          | quant q _ hd hr =>
              cases q with
              | pi => exact L.defect _
              | sigma =>
                  refine L.bind (h (.apply hr (.neutral hd (.proj .car (he.mono le)))))
                    fun K₃ r r' le₃ hr' => ?_
                  exact L.pure (.neutral hr' (.proj .cdr ((he.mono le).mono le₃)))
          | _ => exact L.defect _
      | _ => exact L.defect _
  | head =>
      refine L.bind (h (.force ht)) fun K₁ v v' _ hv => ?_
      cases hv using Both.byForm with
      | binary b he hes =>
          cases b with
          | vecCons => exact L.pure he
          | _ => exact L.defect _
      | neutral ht he =>
          refine L.bind (h (.force ht)) fun K₂ t t' le ht' => ?_
          cases ht' using Both.byForm with
          | binary b hentry _ =>
              cases b with
              | vec => exact L.pure (.neutral hentry (.proj .head (he.mono le)))
              | _ => exact L.defect _
          | _ => exact L.defect _
      | _ => exact L.defect _
  | tail =>
      refine L.bind (h (.force ht)) fun K₁ v v' _ hv => ?_
      cases hv using Both.byForm with
      | binary b he hes =>
          cases b with
          | vecCons => exact L.pure hes
          | _ => exact L.defect _
      | neutral ht he =>
          refine L.bind (h (.force ht)) fun K₂ t t' le ht' => ?_
          cases ht' using Both.byForm with
          | binary b hentry hn =>
              cases b with
              | vec =>
                  refine L.bind (h (.force hn)) fun K₃ n n' le₃ hn' => ?_
                  cases hn' using Both.byForm with
                  | unary u hn' =>
                      cases u with
                      | add1 =>
                          exact L.pure (.neutral (.binary .vec (hentry.mono le₃) hn')
                            (.proj .tail ((he.mono le).mono le₃)))
                      | _ => exact L.defect _
                  | _ => exact L.defect _
              | _ => exact L.defect _
          | _ => exact L.defect _
      | _ => exact L.defect _
  | symm =>
      refine L.bind (h (.force ht)) fun K₁ v v' _ hv => ?_
      cases hv using Both.byForm with
      | unary u hv =>
          cases u with
          | same => exact L.pure (.unary .same hv)
          | _ => exact L.defect _
      | neutral ht he =>
          refine L.bind (h.equalityOf _ ht) fun K₂ p q le hp => ?_
          exact L.pure (.neutral (.equal hp.1 hp.2.2 hp.2.1) (.proj .symm (he.mono le)))
      | _ => exact L.defect _

omit h in
theorem natFoldStep {stepType : Value → Value} {v v' : Value} (hv : Both K v v')
    (hs : stepType = Value.whichNatStep ∨ stepType = Value.iterNatStep ∨
      stepType = Value.recNatStep) : Both K (stepType v) (stepType v') := by
  rcases hs with rfl | rfl | rfl
  · exact .piFamily _ (.const .nat) (.always hv)
  · exact .piFamily _ hv (.always hv)
  · exact .piFamily _ (.const .nat) (.always (.piFamily _ hv (.always hv)))

omit h in
theorem stuckNatFold (f : Fold) {stepType : Value → Value} {e e' : Neutral} {o o' : Option Value}
    {b b' s s' : Value}
    (hstep : stepType = Value.whichNatStep ∨ stepType = Value.iterNatStep ∨
      stepType = Value.recNatStep)
    (he : Matches K (.neutral e) (.neutral e')) (ho : BothOrNone K o o') (hb : Both K b b')
    (hs : Both K s s') :
    L.rel K Both (Eval.stuckNatFold f stepType e o b s)
      (fun _ => Eval.stuckNatFold f stepType e' o' b' s') := by
  refine L.bind (requireType _ ho) fun K₁ t t' le ht => ?_
  exact L.pure (.neutral ht (.fold f (he.mono le) (.typed ht (hb.mono le))
    (.typed (natFoldStep ht hstep) (hs.mono le))))

theorem fold (f : Fold) {t t' : Value} {o o' : Option Value} {b b' s s' : Value}
    (ht : Both K t t') (ho : BothOrNone K o o') (hb : Both K b b') (hs : Both K s s') :
    L.rel K Both (Eval.fold ask f t o b s) (fun i => Eval.fold (ask' i) f t' o' b' s') := by
  cases f with
  | whichNat =>
      refine L.bind (h (.force ht)) fun K₁ v v' le hv => ?_
      cases hv using Both.byForm with
      | const c =>
          cases c with
          | zero => exact L.pure (hb.mono le)
          | _ => exact L.defect _
      | unary u hv =>
          cases u with
          | add1 => exact h.call (hs.mono le) hv
          | _ => exact L.defect _
      | neutral ht he =>
          exact stuckNatFold _ (.inl rfl) he (ho.mono le) (hb.mono le) (hs.mono le)
      | _ => exact L.defect _
  | iterNat =>
      refine L.bind (h (.force ht)) fun K₁ v v' le hv => ?_
      cases hv using Both.byForm with
      | const c =>
          cases c with
          | zero => exact L.pure (hb.mono le)
          | _ => exact L.defect _
      | unary u hv =>
          cases u with
          | add1 =>
              exact L.bind (h (.fold .iterNat hv (ho.mono le) (hb.mono le) (hs.mono le)))
                fun K₂ r r' le₂ hr => h.call ((hs.mono le).mono le₂) hr
          | _ => exact L.defect _
      | neutral ht he =>
          exact stuckNatFold _ (.inr (.inl rfl)) he (ho.mono le) (hb.mono le) (hs.mono le)
      | _ => exact L.defect _
  | recNat =>
      refine L.bind (h (.force ht)) fun K₁ v v' le hv => ?_
      cases hv using Both.byForm with
      | const c =>
          cases c with
          | zero => exact L.pure (hb.mono le)
          | _ => exact L.defect _
      | unary u hv =>
          cases u with
          | add1 =>
              refine L.bind (h.call (hs.mono le) hv) fun K₂ fn fn' le₂ hfn => ?_
              have le' := le.trans le₂
              exact L.bind (h (.fold .recNat (hv.mono le₂) (ho.mono le') (hb.mono le')
                (hs.mono le'))) fun K₃ r r' le₃ hr => h.call (hfn.mono le₃) hr
          | _ => exact L.defect _
      | neutral ht he =>
          exact stuckNatFold _ (.inr (.inr rfl)) he (ho.mono le) (hb.mono le) (hs.mono le)
      | _ => exact L.defect _
  | recList =>
      refine L.bind (h (.force ht)) fun K₁ v v' le hv => ?_
      cases hv using Both.byForm with
      | const c =>
          cases c with
          | nil => exact L.pure (hb.mono le)
          | _ => exact L.defect _
      | binary c he hes =>
          cases c with
          | listCons =>
              refine L.bind (h.callBoth (hs.mono le) he hes) fun K₂ fn fn' le₂ hfn => ?_
              have le' := le.trans le₂
              exact L.bind (h (.fold .recList (hes.mono le₂) (ho.mono le') (hb.mono le')
                (hs.mono le'))) fun K₃ r r' le₃ hr => h.call (hfn.mono le₃) hr
          | _ => exact L.defect _
      | neutral ht he =>
          refine L.bind (requireType _ (ho.mono le)) fun K₂ t t' le₂ ht' => ?_
          refine L.bind (h.entryType _ (ht.mono le₂)) fun K₃ entry entry' le₃ hentry => ?_
          have le' := (le.trans le₂).trans le₃
          have ht' := ht'.mono le₃
          have step : Both K₃ (Value.recListStep entry t) (Value.recListStep entry' t') :=
            .piFamily _ hentry (.always (.piFamily _ (.unary .list hentry)
              (.always (.piFamily _ ht' (.always ht')))))
          exact L.pure (.neutral ht' (.fold .recList (he.mono (le₂.trans le₃))
            (.typed ht' (hb.mono le')) (.typed step (hs.mono le'))))
      | _ => exact L.defect _

theorem induct (i : Induction) {t t' mo mo' b b' s s' : Value}
    (ht : Both K t t') (hm : Both K mo mo') (hb : Both K b b') (hs : Both K s s') :
    L.rel K Both (Eval.induct ask i t mo b s) (fun j => Eval.induct (ask' j) i t' mo' b' s') := by
  cases i with
  | indNat =>
      refine L.bind (h (.force ht)) fun K₁ v v' le hv => ?_
      cases hv using Both.byForm with
      | const c =>
          cases c with
          | zero => exact L.pure (hb.mono le)
          | _ => exact L.defect _
      | unary u hv =>
          cases u with
          | add1 =>
              refine L.bind (h.call (hs.mono le) hv) fun K₂ fn fn' le₂ hfn => ?_
              have le' := le.trans le₂
              exact L.bind (h (.induct .indNat (hv.mono le₂) (hm.mono le') (hb.mono le')
                (hs.mono le'))) fun K₃ r r' le₃ hr => h.call (hfn.mono le₃) hr
          | _ => exact L.defect _
      | neutral ht he =>
          refine L.bind (h.call (hm.mono le) (.neutral ht he)) fun K₂ r r' le₂ hr => ?_
          refine L.bind (h.call (hm.mono (le.trans le₂)) (.const .zero)) fun K₃ z z' le₃ hz => ?_
          have le' := (le.trans le₂).trans le₃
          have hm' := hm.mono le'
          exact L.pure (.neutral (hr.mono le₃) (.induct .indNat (he.mono (le₂.trans le₃))
            (.typed (.piFamily _ (.const .nat) (.always (.const .univ))) hm')
            (.typed hz (hb.mono le'))
            (.typed (.piFamily _ (.const .nat) (.natStep hm')) (hs.mono le'))))
      | _ => exact L.defect _
  | indList =>
      refine L.bind (h (.force ht)) fun K₁ v v' le hv => ?_
      cases hv using Both.byForm with
      | const c =>
          cases c with
          | nil => exact L.pure (hb.mono le)
          | _ => exact L.defect _
      | binary c he hes =>
          cases c with
          | listCons =>
              refine L.bind (h.callBoth (hs.mono le) he hes) fun K₂ fn fn' le₂ hfn => ?_
              have le' := le.trans le₂
              exact L.bind (h (.induct .indList (hes.mono le₂) (hm.mono le') (hb.mono le')
                (hs.mono le'))) fun K₃ r r' le₃ hr => h.call (hfn.mono le₃) hr
          | _ => exact L.defect _
      | neutral ht he =>
          refine L.bind (h.entryType _ ht) fun K₂ entry entry' le₂ hentry => ?_
          refine L.bind (h.call (hm.mono (le.trans le₂)) (.neutral (ht.mono le₂) (he.mono le₂)))
            fun K₃ r r' le₃ hr => ?_
          refine L.bind (h.call (hm.mono ((le.trans le₂).trans le₃)) (.const .nil))
            fun K₄ z z' le₄ hz => ?_
          have le' := ((le.trans le₂).trans le₃).trans le₄
          have hm' := hm.mono le'
          have hentry := (hentry.mono le₃).mono le₄
          exact L.pure (.neutral (hr.mono le₄)
            (.induct .indList (he.mono ((le₂.trans le₃).trans le₄))
            (.typed (.piFamily _ (.unary .list hentry) (.always (.const .univ))) hm')
            (.typed hz (hb.mono le'))
            (.typed (.piFamily _ hentry (.listStep hentry hm')) (hs.mono le'))))
      | _ => exact L.defect _
  | indEither =>
      refine L.bind (h (.force ht)) fun K₁ v v' le hv => ?_
      cases hv using Both.byForm with
      | unary u hv =>
          cases u with
          | left => exact h.call (hb.mono le) hv
          | right => exact h.call (hs.mono le) hv
          | _ => exact L.defect _
      | neutral ht he =>
          refine L.bind (h (.force ht)) fun K₂ t t' le₂ ht' => ?_
          cases ht' using Both.byForm with
          | binary c hl hr =>
              cases c with
              | either =>
                  refine L.bind (h.call (hm.mono (le.trans le₂))
                    (.neutral (ht.mono le₂) (he.mono le₂))) fun K₃ r r' le₃ hr' => ?_
                  have le' := (le.trans le₂).trans le₃
                  have hm' := hm.mono le'
                  have hl := hl.mono le₃
                  have hr := hr.mono le₃
                  exact L.pure (.neutral hr' (.induct .indEither (he.mono (le₂.trans le₃))
                    (.typed (.piFamily _ (.binary .either hl hr) (.always (.const .univ))) hm')
                    (.typed (.piFamily _ hl (.wrapped .left hm')) (hb.mono le'))
                    (.typed (.piFamily _ hr (.wrapped .right hm')) (hs.mono le'))))
              | _ => exact L.defect _
          | _ => exact L.defect _
      | _ => exact L.defect _

theorem indVec {n n' t t' mo mo' b b' s s' : Value} (hn : Both K n n')
    (ht : Both K t t') (hm : Both K mo mo') (hb : Both K b b') (hs : Both K s s') :
    L.rel K Both (Eval.indVec ask n t mo b s) (fun i => Eval.indVec (ask' i) n' t' mo' b' s') := by
  refine L.bind (h (.force ht)) fun K₁ v v' le hv => ?_
  cases hv using Both.byForm with
  | const c =>
      cases c with
      | vecNil => exact L.pure (hb.mono le)
      | _ => exact L.defect _
  | binary c he hes =>
      cases c with
      | vecCons =>
          refine L.bind (h (.force (hn.mono le))) fun K₂ k k' le₂ hk => ?_
          cases hk using Both.byForm with
          | unary u hk =>
              cases u with
              | add1 =>
                  have le₁₂ := le.trans le₂
                  refine L.bind (h.callBoth (hs.mono le₁₂) hk (he.mono le₂))
                    fun K₃ f f' le₃ hf => ?_
                  refine L.bind (h.call hf ((hes.mono le₂).mono le₃)) fun K₄ f f' le₄ hf => ?_
                  have le' := (le₁₂.trans le₃).trans le₄
                  exact L.bind (h (.indVec ((hk.mono le₃).mono le₄)
                    (((hes.mono le₂).mono le₃).mono le₄) (hm.mono le') (hb.mono le')
                    (hs.mono le'))) fun K₅ r r' le₅ hr => h.call (hf.mono le₅) hr
              | _ => exact L.defect _
          | _ => exact L.defect _
      | _ => exact L.defect _
  | neutral ht he =>
      refine L.bind (h (.force ht)) fun K₂ t t' le₂ ht' => ?_
      cases ht' using Both.byForm with
      | binary c hentry _ =>
          cases c with
          | vec =>
              have le₁₂ := le.trans le₂
              refine L.bind (h.callBoth (hm.mono le₁₂) (hn.mono le₁₂)
                (.neutral (ht.mono le₂) (he.mono le₂))) fun K₃ r r' le₃ hr => ?_
              refine L.bind (h.callBoth (hm.mono (le₁₂.trans le₃)) (.const .zero)
                (.const .vecNil)) fun K₄ z z' le₄ hz => ?_
              have le' := (le₁₂.trans le₃).trans le₄
              have hm' := hm.mono le'
              have hentry := (hentry.mono le₃).mono le₄
              exact L.pure (.neutral (hr.mono le₄)
                (.indVec (.typed (.const .nat) (hn.mono le')) (he.mono ((le₂.trans le₃).trans le₄))
                (.typed (.piFamily _ (.const .nat) (.vecMotive hentry)) hm')
                (.typed hz (hb.mono le'))
                (.typed (.piFamily _ (.const .nat) (.vecStep hentry hm')) (hs.mono le'))))
          | _ => exact L.defect _
      | _ => exact L.defect _
  | _ => exact L.defect _

theorem indAbsurd {t t' mo mo' : Value} (ht : Both K t t') (hm : Both K mo mo') :
    L.rel K Both (Eval.indAbsurd ask t mo) (fun i => Eval.indAbsurd (ask' i) t' mo') := by
  refine L.bind (h (.force ht)) fun K₁ v v' le hv => ?_
  cases hv using Both.byForm with
  | neutral _ he =>
      exact L.pure (.neutral (hm.mono le) (.indAbsurd he (.typed (.const .univ) (hm.mono le))))
  | _ => exact L.defect _

theorem transport (k : Transport) {t t' mo mo' b b' : Value} (ht : Both K t t')
    (hm : Both K mo mo') (hb : Both K b b') :
    L.rel K Both (Eval.transport ask k t mo b) (fun i => Eval.transport (ask' i) k t' mo' b') := by
  cases k with
  | replace =>
      refine L.bind (h (.force ht)) fun K₁ v v' le hv => ?_
      cases hv using Both.byForm with
      | unary u hv =>
          cases u with
          | same => exact L.pure (hb.mono le)
          | _ => exact L.defect _
      | neutral ht he =>
          refine L.bind (h.equalityOf _ ht) fun K₂ p q le₂ hp => ?_
          refine L.bind (h.call (hm.mono (le.trans le₂)) hp.2.2) fun K₃ r r' le₃ hr => ?_
          refine L.bind (h.call (hm.mono ((le.trans le₂).trans le₃)) (hp.2.1.mono le₃))
            fun K₄ z z' le₄ hz => ?_
          have le' := ((le.trans le₂).trans le₃).trans le₄
          exact L.pure (.neutral (hr.mono le₄)
            (.transport .replace (he.mono ((le₂.trans le₃).trans le₄))
            (.typed (.piFamily _ ((hp.1.mono le₃).mono le₄) (.always (.const .univ))) (hm.mono le'))
            (.typed hz (hb.mono le'))))
      | _ => exact L.defect _
  | indEqual =>
      refine L.bind (h (.force ht)) fun K₁ v v' le hv => ?_
      cases hv using Both.byForm with
      | unary u hv =>
          cases u with
          | same => exact L.pure (hb.mono le)
          | _ => exact L.defect _
      | neutral ht he =>
          refine L.bind (h.equalityOf _ ht) fun K₂ p q le₂ hp => ?_
          refine L.bind (h.callBoth (hm.mono (le.trans le₂)) hp.2.2
            (.neutral (ht.mono le₂) (he.mono le₂))) fun K₃ r r' le₃ hr => ?_
          refine L.bind (h.callBoth (hm.mono ((le.trans le₂).trans le₃)) (hp.2.1.mono le₃)
            (.unary .same (hp.2.1.mono le₃))) fun K₄ z z' le₄ hz => ?_
          have le' := ((le.trans le₂).trans le₃).trans le₄
          have hc := (hp.1.mono le₃).mono le₄
          have hl := (hp.2.1.mono le₃).mono le₄
          exact L.pure (.neutral (hr.mono le₄)
            (.transport .indEqual (he.mono ((le₂.trans le₃).trans le₄))
            (.typed (.piFamily _ hc (.equalMotive hc hl)) (hm.mono le'))
            (.typed hz (hb.mono le'))))
      | _ => exact L.defect _

theorem trans {l l' r r' : Value} (hl : Both K l l') (hr : Both K r r') :
    L.rel K Both (Eval.trans ask l r) (fun i => Eval.trans (ask' i) l' r') := by
  refine L.bind (h (.force hl)) fun K₁ v v' le₁ hv => ?_
  refine L.bind (h (.force (hr.mono le₁))) fun K₂ w w' le₂ hw => ?_
  replace hv := hv.mono le₂
  cases hv using Both.byForm with
  | unary u hv =>
      cases u with
      | same =>
          cases hw using Both.byForm with
          | unary u hw =>
              cases u with
              | same => exact L.pure (.unary .same hv)
              | _ => exact L.defect _
          | neutral ht he =>
              refine L.bind (h.equalityOf _ ht) fun K₃ p q le₃ hp => ?_
              have hv := hv.mono le₃
              exact L.pure (.neutral (.equal hp.1 hv hp.2.2)
                (.trans (.typed (.equal hp.1 hv hv) (.unary .same hv))
                  (.typed (.equal hp.1 hp.2.1 hp.2.2) (.neutral (ht.mono le₃) (he.mono le₃)))))
          | _ => exact L.defect _
      | _ => cases hw using Both.byForm <;> exact L.defect _
  | neutral ht he =>
      cases hw using Both.byForm with
      | unary u hw =>
          cases u with
          | same =>
              refine L.bind (h.equalityOf _ ht) fun K₃ p q le₃ hp => ?_
              have hw := hw.mono le₃
              exact L.pure (.neutral (.equal hp.1 hp.2.1 hw)
                (.trans (.typed (.equal hp.1 hp.2.1 hp.2.2)
                  (.neutral (ht.mono le₃) (he.mono le₃)))
                  (.typed (.equal hp.1 hw hw) (.unary .same hw))))
          | _ => exact L.defect _
      | neutral ht' he' =>
          refine L.bind (h.equalityOf _ ht) fun K₃ p q le₃ hp => ?_
          refine L.bind (h.equalityOf _ (ht'.mono le₃)) fun K₄ p' q' le₄ hp' => ?_
          have le' := le₃.trans le₄
          have hs := hp.2.1.mono le₄
          have hc := hp.1.mono le₄
          exact L.pure (.neutral (.equal hc hs hp'.2.2)
            (.trans (.typed (.equal hc hs (hp.2.2.mono le₄))
              (.neutral (ht.mono le') (he.mono le')))
              (.typed (.equal hp'.1 hp'.2.1 hp'.2.2) (.neutral (ht'.mono le') (he'.mono le')))))
      | _ => exact L.defect _
  | _ => cases hw using Both.byForm <;> exact L.defect _

theorem cong {t t' : Value} {o o' : Option Value} {f f' : Value} (ht : Both K t t')
    (ho : BothOrNone K o o') (hf : Both K f f') :
    L.rel K Both (Eval.cong ask t o f) (fun i => Eval.cong (ask' i) t' o' f') := by
  refine L.bind (h (.force ht)) fun K₁ v v' le hv => ?_
  cases hv using Both.byForm with
  | unary u hv =>
      cases u with
      | same =>
          exact L.bind (h.call (hf.mono le) hv) fun K₂ r r' _ hr => L.pure (.unary .same hr)
      | _ => exact L.defect _
  | neutral ht he =>
      refine L.bind (h.equalityOf _ ht) fun K₂ p q le₂ hp => ?_
      refine L.bind (requireType _ (ho.mono (le.trans le₂))) fun K₃ t t' le₃ ht' => ?_
      refine L.bind (h (.force ht')) fun K₄ t t' le₄ ht' => ?_
      cases ht' using Both.byForm with
      | quant q hx hd hr =>
          cases q with
          | pi =>
              have le₂₄ := le₃.trans le₄
              have le₁₄ := (le.trans le₂).trans le₂₄
              refine L.bind (h (.apply hr (hp.2.1.mono le₂₄))) fun K₅ r r' le₅ hres => ?_
              refine L.bind (h.call (hf.mono (le₁₄.trans le₅)) (hp.2.1.mono (le₂₄.trans le₅)))
                fun K₆ l l' le₆ hl => ?_
              refine L.bind (h.call (hf.mono ((le₁₄.trans le₅).trans le₆))
                (hp.2.2.mono ((le₂₄.trans le₅).trans le₆))) fun K₇ r r' le₇ hr' => ?_
              have le' := (le₅.trans le₆).trans le₇
              exact L.pure (.neutral (.equal (hres.mono (le₆.trans le₇)) (hl.mono le₇) hr')
                (.cong (he.mono ((le₂.trans le₂₄).trans le'))
                  (.typed (.quant .pi (le'.binders _ _ hx) (hd.mono le') (hr.mono le'))
                    (hf.mono (le₁₄.trans le')))))
          | sigma => exact L.defect _
      | _ => exact L.defect _
  | _ => exact L.defect _

theorem later {ρ ρ' : Env} {e e' : Expr} (hρ : Matches K (.env ρ) (.env ρ'))
    (he : K.Code (K.pairing ρ ρ') e e') :
    L.rel K Both (Eval.later ask ρ e) (fun i => Eval.later (ask' i) ρ' e') := by
  have suspended := L.suspend hρ he
  cases he with
  | var hx => exact h (.eval hρ (.var hx))
  | quote a => exact h (.eval hρ (.quote a))
  | const c => exact h (.eval hρ (.const c))
  | _ => exact suspended

theorem annotated {ρ ρ' : Env} {e e' : Expr} (hρ : Matches K (.env ρ) (.env ρ'))
    (he : K.Code (K.pairing ρ ρ') e e') :
    L.rel K BothAnnotated (Eval.annotated ask ρ e) (fun i => Eval.annotated (ask' i) ρ' e') := by
  have plain : L.rel K BothAnnotated
      (Eval.later ask ρ e >>= fun v => Pure.pure (none, v))
      (fun i => Eval.later (ask' i) ρ' e' >>= fun v => Pure.pure (none, v)) :=
    L.bind (h.later hρ he) fun _ _ _ _ hv => L.pure ⟨.none, hv⟩
  cases he with
  | the ht he =>
      refine L.bind (h (.eval hρ ht)) fun K₁ t t' le ht' => ?_
      exact L.bind (h.later (hρ.mono le) (he.weaken hρ le)) fun K₂ v v' le₂ hv =>
        L.pure ⟨.some (ht'.mono le₂), hv⟩
  | _ => exact plain

/-- An annotation on the right alone is evaluated there and does not change the argument. -/
theorem annotatedRight {ρ ρ' : Env} {e e' : Expr} (a : Expr) (ha : K.annotated)
    (bare : ∀ t c, e ≠ .the t c) (hρ : Matches K (.env ρ) (.env ρ'))
    (he : K.Code (K.pairing ρ ρ') e e') :
    L.rel K BothAnnotated (Eval.annotated ask ρ e)
      (fun i => Eval.annotated (ask' i) ρ' (.the a e')) := by
  have plain : Eval.annotated ask ρ e = Eval.later ask ρ e >>= fun v => Pure.pure (none, v) := by
    cases e with
    | the t c => exact (bare t c rfl).elim
    | _ => rfl
  rw [plain]
  exact L.rightAlone ha fun t => L.bind (h.later hρ he) fun K₁ v v' le hv =>
    L.pure ⟨.added (le.annotated ha) t, hv⟩

theorem evaluate {ρ ρ' : Env} {e e' : Expr} (hρ : Matches K (.env ρ) (.env ρ'))
    (he : K.Code (K.pairing ρ ρ') e e') :
    L.rel K Both (Eval.evaluate ask ρ e) (fun i => Eval.evaluate (ask' i) ρ' e') := by
  cases he with
  | var hx =>
      simp only [Eval.evaluate]
      rcases hρ.lookup hx with ⟨h₁, h₂, rfl⟩ | ⟨v, v', h₁, h₂, hv⟩
      · rw [h₁, h₂]
        exact L.defect _
      · rw [h₁, h₂]
        exact L.pure hv
  | quote a => exact L.pure (.quote a)
  | const c => exact L.pure (.const c)
  | unary u he => exact L.bind (h.later hρ he) fun _ _ _ _ hv => L.pure (.unary u hv)
  | binary b h₁ h₂ =>
      refine L.bind (h.later hρ h₁) fun K₁ v v' le hv => ?_
      exact L.bind (h.later (hρ.mono le) (h₂.weaken hρ le)) fun K₂ w w' le₂ hw =>
        L.pure (.binary b (hv.mono le₂) hw)
  | equal ht hl hr =>
      refine L.bind (h.later hρ ht) fun K₁ t t' le ht' => ?_
      refine L.bind (h.later (hρ.mono le) (hl.weaken hρ le)) fun K₂ l l' le₂ hl' => ?_
      exact L.bind (h.later (hρ.mono (le.trans le₂)) (hr.weaken hρ (le.trans le₂)))
        fun K₃ r r' le₃ hr' => L.pure (.equal (ht'.mono (le₂.trans le₃)) (hl'.mono le₃) hr')
  | quant q hx hd hr =>
      exact L.bind (h.later hρ hd) fun K₁ d d' le hd' =>
        L.pure (.quant q (le.binders _ _ hx) hd'
          (.code (le.binders _ _ hx) (hρ.mono le) (hr.weakenUnder hρ le)))
  | lam hx hb => exact L.pure (.lam hx (.code hx hρ hb))
  | the _ he => exact h (.eval hρ he)
  | app hf ha =>
      refine L.bind (h (.eval hρ hf)) fun K₁ f f' le hf' => ?_
      exact L.bind (h.later (hρ.mono le) (ha.weaken hρ le)) fun K₂ a a' le₂ ha' =>
        h.call (hf'.mono le₂) ha'
  | proj p ht => exact L.bind (h (.eval hρ ht)) fun _ _ _ _ ht' => h.project p ht'
  | fold f ht hb hs =>
      refine L.bind (h.annotated hρ hb) fun K₁ b b' le hb' => ?_
      refine L.bind (h (.eval (hρ.mono le) (ht.weaken hρ le))) fun K₂ t t' le₂ ht' => ?_
      refine L.bind (h.later (hρ.mono (le.trans le₂)) (hs.weaken hρ (le.trans le₂)))
        fun K₃ s s' le₃ hs' => ?_
      have le' := le₂.trans le₃
      exact h (.fold f (ht'.mono le₃) (hb'.1.mono le') (hb'.2.mono le') hs')
  | induct i ht hm hb hs =>
      refine L.bind (h (.eval hρ ht)) fun K₁ t t' le₁ ht' => ?_
      refine L.bind (h.later (hρ.mono le₁) (hm.weaken hρ le₁)) fun K₂ m m' le₂ hm' => ?_
      have le₁₂ := le₁.trans le₂
      refine L.bind (h.later (hρ.mono le₁₂) (hb.weaken hρ le₁₂)) fun K₃ b b' le₃ hb' => ?_
      have le₁₃ := le₁₂.trans le₃
      refine L.bind (h.later (hρ.mono le₁₃) (hs.weaken hρ le₁₃)) fun K₄ s s' le₄ hs' => ?_
      exact h (.induct i (ht'.mono ((le₂.trans le₃).trans le₄)) (hm'.mono (le₃.trans le₄))
        (hb'.mono le₄) hs')
  | transport k ht hm hb =>
      refine L.bind (h (.eval hρ ht)) fun K₁ t t' le₁ ht' => ?_
      refine L.bind (h.later (hρ.mono le₁) (hm.weaken hρ le₁)) fun K₂ m m' le₂ hm' => ?_
      have le₁₂ := le₁.trans le₂
      refine L.bind (h.later (hρ.mono le₁₂) (hb.weaken hρ le₁₂)) fun K₃ b b' le₃ hb' => ?_
      exact h.transport k (ht'.mono (le₂.trans le₃)) (hm'.mono le₃) hb'
  | indAbsurd ht hm =>
      refine L.bind (h (.eval hρ ht)) fun K₁ t t' le ht' => ?_
      exact L.bind (h (.eval (hρ.mono le) (hm.weaken hρ le))) fun K₂ m m' le₂ hm' =>
        h.indAbsurd (ht'.mono le₂) hm'
  | indVec hn ht hm hb hs =>
      refine L.bind (h.later hρ hn) fun K₀ n n' le₀ hn' => ?_
      refine L.bind (h (.eval (hρ.mono le₀) (ht.weaken hρ le₀))) fun K₁ t t' le₁ ht' => ?_
      have le₀₁ := le₀.trans le₁
      refine L.bind (h.later (hρ.mono le₀₁) (hm.weaken hρ le₀₁)) fun K₂ m m' le₂ hm' => ?_
      have le₁₂ := le₀₁.trans le₂
      refine L.bind (h.later (hρ.mono le₁₂) (hb.weaken hρ le₁₂)) fun K₃ b b' le₃ hb' => ?_
      have le₁₃ := le₁₂.trans le₃
      refine L.bind (h.later (hρ.mono le₁₃) (hs.weaken hρ le₁₃)) fun K₄ s s' le₄ hs' => ?_
      have le₂₄ := (le₂.trans le₃).trans le₄
      exact h (.indVec (hn'.mono (le₁.trans le₂₄)) (ht'.mono le₂₄) (hm'.mono (le₃.trans le₄))
        (hb'.mono le₄) hs')
  | trans hl hr =>
      refine L.bind (h (.eval hρ hl)) fun K₁ l l' le hl' => ?_
      exact L.bind (h (.eval (hρ.mono le) (hr.weaken hρ le))) fun K₂ r r' le₂ hr' =>
        h.trans (hl'.mono le₂) hr'
  | cong ht hf =>
      refine L.bind (h.annotated hρ hf) fun K₁ f f' le hf' => ?_
      exact L.bind (h (.eval (hρ.mono le) (ht.weaken hρ le))) fun K₂ t t' le₂ ht' =>
        h.cong ht' (hf'.1.mono le₂) (hf'.2.mono le₂)
  | todo => exact L.reject _
  | malformed m => exact L.defect _
  | foldAnnotated ha f bare ht hb hs =>
      refine L.bind (h.annotatedRight _ ha bare hρ hb) fun K₁ b b' le hb' => ?_
      refine L.bind (h (.eval (hρ.mono le) (ht.weaken hρ le))) fun K₂ t t' le₂ ht' => ?_
      refine L.bind (h.later (hρ.mono (le.trans le₂)) (hs.weaken hρ (le.trans le₂)))
        fun K₃ s s' le₃ hs' => ?_
      have le' := le₂.trans le₃
      exact h (.fold f (ht'.mono le₃) (hb'.1.mono le') (hb'.2.mono le') hs')
  | indAbsurdAnnotated ha _ ht hm =>
      refine L.bind (h (.evalAnnotated ha hρ ht)) fun K₁ t t' le ht' => ?_
      exact L.bind (h (.eval (hρ.mono le) (hm.weaken hρ le))) fun K₂ m m' le₂ hm' =>
        h.indAbsurd (ht'.mono le₂) hm'
  | congAnnotated ha bare ht hf =>
      refine L.bind (h.annotatedRight _ ha bare hρ hf) fun K₁ f f' le hf' => ?_
      exact L.bind (h (.eval (hρ.mono le) (ht.weaken hρ le))) fun K₂ t t' le₂ ht' =>
        h.cong ht' (hf'.1.mono le₂) (hf'.2.mono le₂)

theorem apply {c c' : Closure} {v v' : Value} (hc : Matches K (.closure c) (.closure c'))
    (hv : Both K v v') : L.rel K Both (Eval.apply ask v c) (fun i => Eval.apply (ask' i) v' c') := by
  cases hc with
  | code hx hρ hb => exact h (.eval (.extend hx hρ hv) (K.pairing_extend hρ _ _ _ _ ▸ hb))
  | family _ hf => exact h.applyFamily hv hf

/-- Matching requests are answered alike by one step, if forcing is, and if asking for a value is
evaluating it where the right side has more annotations. -/
theorem step (forcing : ∀ {K : Correspondence} {v v' : Value}, Both K v v' →
      L.rel K Both (Eval.force ask v) (fun i => Eval.force (ask' i) v'))
    (evaluating : K.annotated → ∀ i ρ e, ask' i (.eval ρ e) = Eval.evaluate (ask' i) ρ e)
    {r r' : Request} (hr : r.Matches K r') :
    L.rel K Both (Eval.step ask r) (fun i => Eval.step (ask' i) r') := by
  cases hr with
  | eval hρ he => exact h.evaluate hρ he
  | @evalAnnotated ρ ρ' e a e' ha hρ he =>
      have peel : (fun i => Eval.step (ask' i) (.eval ρ' (.the a e'))) =
          fun i => Eval.evaluate (ask' i) ρ' e' := funext fun i => evaluating ha i ρ' e'
      rw [peel]
      exact h.evaluate hρ he
  | force hv => exact forcing hv
  | apply hc hv => exact h.apply hc hv
  | fold f ht ho hb hs => exact h.fold f ht ho hb hs
  | induct i ht hm hb hs => exact h.induct i ht hm hb hs
  | indVec hn ht hm hb hs => exact h.indVec hn ht hm hb hs

end Asks

end Simulation

end TypeKernel
