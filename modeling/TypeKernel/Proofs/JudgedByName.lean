/-
# TypeKernel.Proofs.JudgedByName — checking follows the typing rules

Whatever checking by name accepts in a context, the typing rules accept there, with the same elaborated form and
the same type. The proof goes rule by rule: a rule of `Check` is sound if the judgments of its parts are, and
`judge` is sound by induction on the expression.
-/
import TypeKernel.Proofs.Judged

namespace TypeKernel

set_option autoImplicit false

open Machine

/-! ## What the steps of checking return -/

namespace Ensures

variable {n : Nat}

theorem run {r : Request} : Ensures (run n r : ByName Value) fun v => answer r = .ok v :=
  fun _ => answer_of_run

theorem force {v : Value} : Ensures (v.force n : ByName Value) fun w => Forces v w :=
  run

theorem apply {c : Closure} {v : Value} : Ensures (c.apply n v : ByName Value) fun w => Applies c v w :=
  run

theorem call {f v : Value} : Ensures (f.call n v : ByName Value) fun w => Calls f v w :=
  fun _ => (Eval.finitary_call _ _).of_run

theorem callBoth {f v w : Value} : Ensures (f.callBoth n v w : ByName Value) fun u => CallsBoth f v w u :=
  fun _ => (Eval.finitary_callBoth _ _ _).of_run

theorem car {v : Value} :
    Ensures (Eval.car (TypeKernel.run n) v : ByName Value) fun w => Eval.car answer v = .ok w :=
  fun _ => (Eval.finitary_car _).of_run

theorem answered {o : Option Bool} : Ensures (answered o : ByName Bool) fun b => o = some b := by
  cases o with
  | none => exact defect
  | some b => exact pure rfl

variable {Γ : Context}

theorem valueOf {e : Expr} : Ensures (Check.valueOf n Γ e : ByName Value) fun v => Evals Γ.env e v :=
  run

theorem readings {r : Reading} : Ensures (readings n Γ r : ByName Expr) fun e => Reads .ofHints Γ.names r.task e :=
  fun _ => Reads.of_readings

theorem readBackType {T : Value} :
    Ensures (readBackType n Γ T : ByName Expr) fun e => Reads .ofHints Γ.names (.type T) e :=
  readings

theorem convert {T v w : Value} :
    Ensures (convert n Γ T v w : ByName Bool) fun b => b = true → Converts Γ (.value T v) (.value T w) := by
  refine readings.bind fun e₁ h₁ => readings.bind fun e₂ h₂ => answered.imp fun b hb => ?_
  rintro rfl
  exact ⟨e₁, e₂, h₁, h₂, hb⟩

theorem requireSame {T v w : Value} :
    Ensures (Check.requireSame n Γ T v w : ByName Unit) fun _ => Converts Γ (.value T v) (.value T w) := by
  refine convert.bind fun b hb => ?_
  cases b with
  | true => exact pure (hb rfl)
  | false => exact readings.bind fun _ _ => bind_reject

/-- At the universe a type is read as such. -/
theorem reads_type {X : List Name} {A : Value} {e : Expr} (h : Reads .ofHints X (.value .univ A) e) :
    Reads .ofHints X (.type A) e := by
  cases h with
  | value hU h =>
      cases hU.unique (forces_self rfl)
      cases h with
      | univ h => exact h
      | byForm hA => cases hA

theorem requireSameType {A B : Value} :
    Ensures (Check.requireSameType n Γ A B : ByName Unit) fun _ => Converts Γ (.type A) (.type B) := by
  refine convert.bind fun b hb => ?_
  cases b with
  | true =>
      obtain ⟨a, b, ha, hb, hab⟩ := hb rfl
      exact pure ⟨a, b, reads_type ha, reads_type hb, hab⟩
  | false => exact readings.bind fun _ _ => bind_reject

theorem freshName {x : Name} :
    Ensures (freshName Γ x : ByName Name) fun y => y = Style.ofHints.pick Γ.names x :=
  fun _ => pick_of_freshName

theorem bindFresh {r : Renaming} {x : Name} {T : Value} :
    Ensures (Check.bindFresh Γ r x T : ByName _) fun p =>
      p.1 = Style.ofHints.pick Γ.names x ∧ p = (p.1, Γ.bindFree p.1 T, r.extend x p.1) :=
  freshName.bind fun _ hy => pure ⟨hy, rfl⟩

end Ensures

/-! ## The kinds of rules -/

/-- What a synthesis rule gives, the typing rules give. -/
def SynthSound (rule : Context → Renaming → ByName (Expr × Value)) (e : Expr) : Prop :=
  ∀ {Γ : Context} {r : Renaming}, Ensures (rule Γ r) fun p => Judged .kernel Γ r e (.synth p.2) p.1

/-- What a checking rule accepts, the typing rules accept. -/
def CheckSound (rule : Context → Renaming → Value → ByName Expr) (e : Expr) : Prop :=
  ∀ {Γ : Context} {r : Renaming} {A : Value}, Ensures (rule Γ r A) fun core => Judged .kernel Γ r e (.check A) core

/-- What a formation rule accepts, the typing rules accept. -/
def TypeSound (rule : Context → Renaming → ByName Expr) (e : Expr) : Prop :=
  ∀ {Γ : Context} {r : Renaming}, Ensures (rule Γ r) fun core => Judged .kernel Γ r e .isType core

/-- Judgments that the typing rules confirm. -/
structure Judgments.Sound (J : Judgments ByName) (e : Expr) : Prop where
  synth : SynthSound J.synth e
  check : CheckSound J.check e
  isType : TypeSound J.isType e

namespace Check

variable {n : Nat} {e : Expr} {rule : Context → Renaming → ByName (Expr × Value)}

theorem sound_ofSynthesis (h : SynthSound rule e) : (ofSynthesis n e rule).Sound e where
  synth := .skip fun _ => h
  check := .skip fun _ => (h.bind fun _ hj => Ensures.requireSameType.bind fun _ hc => .pure (hj.switch hc))
  isType := by
    refine .skip fun _ => (h.bind fun p hj => Ensures.force.bind fun w hf => ?_)
    split
    · exact .pure (hj.lift hf)
    · exact .bind_reject

theorem sound_ofFormation {formation : Context → Renaming → ByName Expr} (h : SynthSound rule e)
    (hf : TypeSound formation e) : (ofFormation n e rule formation).Sound e where
  synth := (sound_ofSynthesis (n := n) h).synth
  check := (sound_ofSynthesis (n := n) h).check
  isType := hf

theorem sound_ofChecking {rule : Context → Renaming → Value → ByName Expr} (h : CheckSound rule e) :
    (ofChecking e rule).Sound e where
  synth := .reject
  check := .skip fun _ => h
  isType := .reject

theorem sound_ofBoth {checking : Context → Renaming → Value → ByName Expr} (h : SynthSound rule e)
    (hc : CheckSound checking e) : (ofBoth n e rule checking).Sound e where
  synth := (sound_ofSynthesis (n := n) h).synth
  check := .skip fun _ => hc
  isType := (sound_ofSynthesis (n := n) h).isType

theorem sound_ofDefect {d : Defect} : (ofDefect d).Sound e where
  synth := .defect
  check := .defect
  isType := .defect

theorem sound_todo : (todo n).Sound .todo where
  synth := .skip fun _ => .reject
  check := .skip fun _ => .bind_reject
  isType := .reject

/-! ## Type formers -/

theorem sound_constRule {c : Const} {T : Value} (hc : c.type? = some T) :
    SynthSound (constRule c T) (.const c) :=
  .pure (.const hc)

theorem sound_quant {q : Quantifier} {x : Name} {d : Expr} {domain range : Judgments ByName}
    (hd : domain.Sound d) (he : range.Sound e) :
    (quant n q x d e domain range).Sound (.quant q x d e) := by
  refine sound_ofFormation ?_ ?_
  · refine hd.check.bind fun d' hd => Ensures.valueOf.bind fun D hD => Ensures.bindFresh.bind fun p hp => ?_
    rw [hp.2]
    exact he.check.bind fun e' he => .pure (.quant .small hd hD hp.1 he)
  · refine hd.isType.bind fun d' hd => Ensures.valueOf.bind fun D hD => Ensures.bindFresh.bind fun p hp => ?_
    rw [hp.2]
    exact he.isType.bind fun e' he => .pure (.quant .large hd hD hp.1 he)

theorem sound_list {entry : Judgments ByName} (he : entry.Sound e) : (list n e entry).Sound (.list e) :=
  sound_ofFormation (he.check.bind fun _ he => .pure (.list .small he))
    (he.isType.bind fun _ he => .pure (.list .large he))

section Parts

variable {a b : Expr} {first second : Judgments ByName} (ha : first.Sound a) (hb : second.Sound b)

include ha hb

theorem sound_vec : (vec n a b first second).Sound (.vec a b) :=
  sound_ofFormation (ha.check.bind fun _ ha => hb.check.bind fun _ hb => .pure (.vec .small ha hb))
    (ha.isType.bind fun _ ha => hb.check.bind fun _ hb => .pure (.vec .large ha hb))

theorem sound_either : (either n a b first second).Sound (.either a b) :=
  sound_ofFormation (ha.check.bind fun _ ha => hb.check.bind fun _ hb => .pure (.either .small ha hb))
    (ha.isType.bind fun _ ha => hb.isType.bind fun _ hb => .pure (.either .large ha hb))

theorem sound_equal {t : Expr} {type : Judgments ByName} (ht : type.Sound t) :
    (equal n t a b type first second).Sound (.equal t a b) := by
  refine sound_ofFormation ?_ ?_
  · refine ht.check.bind fun t' ht => Ensures.valueOf.bind fun T hT => ?_
    exact ha.check.bind fun a' ha => hb.check.bind fun b' hb => .pure (.equal .small ht hT ha hb)
  · refine ht.isType.bind fun t' ht => Ensures.valueOf.bind fun T hT => ?_
    exact ha.check.bind fun a' ha => hb.check.bind fun b' hb => .pure (.equal .large ht hT ha hb)

end Parts

/-! ## Constructors -/

/-- The rule of a constructor goes by the form of the expected type. -/
theorem sound_byForm {rule : Context → Renaming → Value → ByName Expr}
    (h : ∀ {Γ : Context} {r : Renaming} {A w : Value}, Forces A w →
      Ensures (rule Γ r w) fun core => Judged .kernel Γ r e (.check A) core) :
    (ofChecking e fun Γ r A => A.force n >>= rule Γ r).Sound e :=
  sound_ofChecking (Ensures.force.bind fun _ hf => h hf)

theorem sound_lam {x : Name} {body : Judgments ByName} (he : body.Sound e) :
    (lam n x e body).Sound (.lam x e) := by
  refine sound_byForm fun hA => ?_
  split
  · refine Ensures.bindFresh.bind fun p hp => ?_
    rw [hp.2]
    refine Ensures.apply.bind fun B hB => ?_
    exact he.check.bind fun e' he => .pure (.lam hA hp.1 hB he)
  · exact .bind_reject

theorem sound_quote {a : String} : (quote n a).Sound (.quote a) := by
  refine sound_ofSynthesis fun {Γ r} => ?_
  split
  · rename_i ha
    exact .pure (.quote ha)
  · exact .reject

theorem sound_nil : (nil n).Sound .nil := by
  refine sound_byForm fun hA => ?_
  split
  · exact .pure (.nil hA)
  · exact .bind_reject

theorem sound_vecNil : (vecNil n).Sound .vecNil := by
  refine sound_byForm fun hA => ?_
  split
  · exact Ensures.requireSame.bind fun _ hk => .pure (.vecNil hA hk)
  · exact .bind_reject

section Part

variable {a : Expr} {inner : Judgments ByName} (ha : inner.Sound a)

include ha

theorem sound_add1 : (add1 n a inner).Sound (.add1 a) :=
  sound_ofSynthesis (ha.check.bind fun _ ha => .pure (.add1 ha))

theorem sound_left : (left n a inner).Sound (.left a) := by
  refine sound_byForm fun hA => ?_
  split
  · exact ha.check.bind fun _ ha => .pure (.left hA ha)
  · exact .bind_reject

theorem sound_right : (right n a inner).Sound (.right a) := by
  refine sound_byForm fun hA => ?_
  split
  · exact ha.check.bind fun _ ha => .pure (.right hA ha)
  · exact .bind_reject

theorem sound_same : (same n a inner).Sound (.same a) := by
  refine sound_byForm fun hA => ?_
  split
  · refine ha.check.bind fun a' ha => Ensures.valueOf.bind fun v hv => ?_
    exact Ensures.requireSame.bind fun _ hs => Ensures.requireSame.bind fun _ hs' => .pure (.same hA ha hv hs hs')
  · exact .bind_reject

end Part

theorem ensures_nonemptyLength {Γ : Context} {what : String} {E k : Value} :
    Ensures (nonemptyLength n Γ what E k : ByName Value) fun m => Forces k (.add1 m) := by
  refine Ensures.force.bind fun w hk => ?_
  split
  · exact .pure hk
  · exact .bind_reject

section Parts

variable {a d : Expr} {first second : Judgments ByName} (ha : first.Sound a) (hd : second.Sound d)

include ha hd

theorem sound_cons : (cons n a d first second).Sound (.cons a d) := by
  refine sound_byForm fun hA => ?_
  split
  · refine ha.check.bind fun a' ha => Ensures.valueOf.bind fun v hv => Ensures.apply.bind fun B hB => ?_
    exact hd.check.bind fun d' hd => .pure (.cons hA ha hv hB hd)
  · exact .bind_reject

theorem sound_listCons : (listCons n a d first second).Sound (.listCons a d) := by
  refine sound_ofBoth ?_ (Ensures.force.bind fun w hA => ?_)
  · exact ha.synth.bind fun p ha => hd.check.bind fun d' hd => .pure (.listConsSynth id ha hd)
  · split
    · exact ha.check.bind fun a' ha => hd.check.bind fun d' hd => .pure (.listCons hA ha hd)
    · exact .bind_reject

theorem sound_vecCons : (vecCons n a d first second).Sound (.vecCons a d) := by
  refine sound_byForm fun hA => ?_
  split
  · refine ensures_nonemptyLength.bind fun m hk => ?_
    exact ha.check.bind fun a' ha => hd.check.bind fun d' hd => .pure (.vecCons hA hk ha hd)
  · exact .bind_reject

end Parts

/-! ## Eliminators -/

section Target

variable {el : Eliminator} {head : TypeHead} {subject : Judgments ByName} {t : Expr} (ht : subject.Sound t)
  {Γ : Context} {r : Renaming}

include ht

/-- The parts of a target's type. -/
theorem ensures_target {α : Type} {view : Value → Option α} :
    Ensures (target n el head view subject Γ r) fun p => ∃ T w, Judged .kernel Γ r t (.synth T) p.1 ∧
      Forces T w ∧ view w = some p.2 := by
  refine ht.synth.bind fun p ht => Ensures.force.bind fun w hT => ?_
  split
  · rename_i hview
    exact .pure ⟨_, w, ht, hT, hview⟩
  · exact .bind_reject

theorem ensures_number : Ensures (target n el head Value.isNat? subject Γ r) fun p =>
    ∃ T, Judged .kernel Γ r t (.synth T) p.1 ∧ Forces T .nat := by
  refine (ensures_target ht).imp fun p ⟨T, w, ht, hT, hview⟩ => ⟨T, ht, ?_⟩
  unfold Value.isNat? at hview
  split at hview
  · exact hT
  · cases hview

theorem ensures_absurdity : Ensures (target n el head Value.isAbsurd? subject Γ r) fun p =>
    ∃ T, Judged .kernel Γ r t (.synth T) p.1 ∧ Forces T .absurd := by
  refine (ensures_target ht).imp fun p ⟨T, w, ht, hT, hview⟩ => ⟨T, ht, ?_⟩
  unfold Value.isAbsurd? at hview
  split at hview
  · exact hT
  · cases hview

theorem ensures_list : Ensures (target n el head Value.listEntry? subject Γ r) fun p =>
    ∃ T, Judged .kernel Γ r t (.synth T) p.1 ∧ Forces T (.list p.2) := by
  refine (ensures_target ht).imp fun p ⟨T, w, ht, hT, hview⟩ => ⟨T, ht, ?_⟩
  unfold Value.listEntry? at hview
  split at hview
  · cases hview
    exact hT
  · cases hview

theorem ensures_vec : Ensures (target n el head Value.vecParts? subject Γ r) fun p =>
    ∃ T, Judged .kernel Γ r t (.synth T) p.1 ∧ Forces T (.vec p.2.1 p.2.2) := by
  refine (ensures_target ht).imp fun p ⟨T, w, ht, hT, hview⟩ => ⟨T, ht, ?_⟩
  unfold Value.vecParts? at hview
  split at hview
  · rw [← Option.some.inj hview]
    exact hT
  · cases hview

theorem ensures_either : Ensures (target n el head Value.eitherParts? subject Γ r) fun p =>
    ∃ T, Judged .kernel Γ r t (.synth T) p.1 ∧ Forces T (.either p.2.1 p.2.2) := by
  refine (ensures_target ht).imp fun p ⟨T, w, ht, hT, hview⟩ => ⟨T, ht, ?_⟩
  unfold Value.eitherParts? at hview
  split at hview
  · rw [← Option.some.inj hview]
    exact hT
  · cases hview

theorem ensures_equality : Ensures (equality n el subject Γ r) fun p =>
    ∃ T, Judged .kernel Γ r t (.synth T) p.1 ∧ Forces T (.equal p.2.1 p.2.2.1 p.2.2.2) := by
  refine (ensures_target ht).imp fun p ⟨T, w, ht, hT, hview⟩ => ⟨T, ht, ?_⟩
  unfold Value.equalParts? at hview
  split at hview
  · rw [← Option.some.inj hview]
    exact hT
  · cases hview

theorem ensures_pair {p : Projection} : Ensures (pair n p subject Γ r) fun q =>
    ∃ T z, Judged .kernel Γ r t (.synth T) q.1 ∧ Forces T (.sigma z q.2.1 q.2.2) := by
  refine ht.synth.bind fun p ht => Ensures.force.bind fun w hT => ?_
  split
  · exact .pure ⟨_, _, ht, hT⟩
  · exact .bind_reject

end Target

theorem sound_app {f a : Expr} {fn arg : Judgments ByName} (hf : fn.Sound f) (ha : arg.Sound a) :
    (app n f a fn arg).Sound (.app f a) := by
  refine sound_ofSynthesis (hf.synth.bind fun p hf => Ensures.force.bind fun w hF => ?_)
  split
  · refine ha.check.bind fun a' ha => Ensures.valueOf.bind fun v hv => ?_
    exact Ensures.apply.bind fun B hB => .pure (.app hf hF ha hv hB)
  · exact .bind_reject

theorem sound_proj {p : Projection} {t : Expr} {subject : Judgments ByName} (ht : subject.Sound t) :
    (proj n p t subject).Sound (.proj p t) := by
  refine sound_ofSynthesis fun {Γ r} => ?_
  cases p with
  | car => exact (ensures_pair ht).bind fun q ⟨T, z, ht, hT⟩ => .pure (.car ht hT)
  | cdr =>
      refine (ensures_pair ht).bind fun q ⟨T, z, ht, hT⟩ => Ensures.valueOf.bind fun v hv => ?_
      exact Ensures.car.bind fun a ha => Ensures.apply.bind fun B hB => .pure (.cdr ht hT hv ha hB)
  | head =>
      refine (ensures_vec ht).bind fun q ⟨T, ht, hT⟩ => ?_
      exact ensures_nonemptyLength.bind fun m hk => .pure (.head ht hT hk)
  | tail =>
      refine (ensures_vec ht).bind fun q ⟨T, ht, hT⟩ => ?_
      exact ensures_nonemptyLength.bind fun m hk => .pure (.tail ht hT hk)
  | symm => exact (ensures_equality ht).bind fun q ⟨T, ht, hT⟩ => .pure (.symm ht hT)

section Eliminators

variable {t m b s : Expr} {subject motive base step : Judgments ByName} (ht : subject.Sound t)
  (hm : motive.Sound m) (hb : base.Sound b) (hs : step.Sound s)

include hb hs in
theorem ensures_baseAndStep {S : Value → Value} {Γ : Context} {r : Renaming} :
    Ensures (baseAndStep n S base step Γ r) fun p => ∃ b', Judged .kernel Γ r b (.synth p.2.2) b' ∧
      Judged .kernel Γ r s (.check (S p.2.2)) p.2.1 ∧ Discipline.kernel.Annotated Γ p.2.2 b' p.1 := by
  refine hb.synth.bind fun q hb => hs.check.bind fun s' hs => Ensures.readBackType.bind fun nB hB => ?_
  exact .pure ⟨q.1, hb, hs, .added id hB⟩

include ht hb hs in
theorem sound_natFoldRule {f : Fold} {S : Value → Value} (hf : NatFold f S) :
    SynthSound (natFoldRule n f S subject base step) (.fold f t b s) := by
  refine (ensures_number ht).bind fun p ⟨T, ht, hT⟩ => ?_
  exact (ensures_baseAndStep hb hs).bind fun q ⟨b', hb, hs, hB⟩ => .pure (.natFold hf ht hT hb hs hB)

include ht hb hs in
theorem sound_fold {f : Fold} : (fold n f t b s subject base step).Sound (.fold f t b s) := by
  refine sound_ofSynthesis ?_
  cases f with
  | whichNat => exact sound_natFoldRule ht hb hs .which
  | iterNat => exact sound_natFoldRule ht hb hs .iter
  | recNat => exact sound_natFoldRule ht hb hs .recur
  | recList =>
      refine (ensures_list ht).bind fun p ⟨T, ht, hT⟩ => ?_
      exact (ensures_baseAndStep hb hs).bind fun q ⟨b', hb, hs, hB⟩ => .pure (.recList ht hT hb hs hB)

include ht hm hb hs in
theorem sound_induct {i : Induction} :
    (induct n i t m b s subject motive base step).Sound (.induct i t m b s) := by
  refine sound_ofSynthesis fun {Γ r} => ?_
  cases i with
  | indNat =>
      refine (ensures_number ht).bind fun p ⟨T, ht, hT⟩ => ?_
      refine hm.check.bind fun m' hm => Ensures.valueOf.bind fun M hM => Ensures.call.bind fun Z hZ => ?_
      refine hb.check.bind fun b' hb => hs.check.bind fun s' hs => Ensures.valueOf.bind fun v hv => ?_
      exact Ensures.call.bind fun B hB => .pure (.indNat ht hT hm hM hZ hb hs hv hB)
  | indList =>
      refine (ensures_list ht).bind fun p ⟨T, ht, hT⟩ => ?_
      refine hm.check.bind fun m' hm => Ensures.valueOf.bind fun M hM => Ensures.call.bind fun Z hZ => ?_
      refine hb.check.bind fun b' hb => hs.check.bind fun s' hs => Ensures.valueOf.bind fun v hv => ?_
      exact Ensures.call.bind fun B hB => .pure (.indList ht hT hm hM hZ hb hs hv hB)
  | indEither =>
      refine (ensures_either ht).bind fun p ⟨T, ht, hT⟩ => ?_
      refine hm.check.bind fun m' hm => Ensures.valueOf.bind fun M hM => ?_
      refine hb.check.bind fun b' hb => hs.check.bind fun s' hs => Ensures.valueOf.bind fun v hv => ?_
      exact Ensures.call.bind fun B hB => .pure (.indEither ht hT hm hM hb hs hv hB)

include ht hm hb hs in
theorem sound_indVec {k : Expr} {length : Judgments ByName} (hk : length.Sound k) :
    (indVec n k t m b s length subject motive base step).Sound (.indVec k t m b s) := by
  refine sound_ofSynthesis (hk.check.bind fun k' hk => Ensures.valueOf.bind fun l hl => ?_)
  refine (ensures_vec ht).bind fun p ⟨T, ht, hT⟩ => Ensures.requireSame.bind fun _ same => ?_
  refine hm.check.bind fun m' hm => Ensures.valueOf.bind fun M hM => Ensures.callBoth.bind fun Z hZ => ?_
  refine hb.check.bind fun b' hb => hs.check.bind fun s' hs => Ensures.call.bind fun f hf => ?_
  refine Ensures.valueOf.bind fun v hv => Ensures.call.bind fun B hB => ?_
  exact .pure (.indVec hk hl ht hT same hm hM hZ hb hs hv (.intro hf hB))

include ht hm in
theorem sound_indAbsurd : (indAbsurd n t m subject motive).Sound (.indAbsurd t m) := by
  refine sound_ofSynthesis ((ensures_absurdity ht).bind fun p ⟨T, ht, hT⟩ => ?_)
  exact hm.check.bind fun m' hm => Ensures.valueOf.bind fun M hM => .pure (.indAbsurd ht hT hm hM)

include ht hm hb in
theorem sound_transport {k : Transport} :
    (transport n k t m b subject motive base).Sound (.transport k t m b) := by
  refine sound_ofSynthesis fun {Γ r} => ?_
  cases k with
  | replace =>
      refine (ensures_equality ht).bind fun p ⟨T, ht, hT⟩ => ?_
      refine hm.check.bind fun m' hm => Ensures.valueOf.bind fun M hM => Ensures.call.bind fun Z hZ => ?_
      exact hb.check.bind fun b' hb => Ensures.call.bind fun B hB => .pure (.replace ht hT hm hM hZ hb hB)
  | indEqual =>
      refine (ensures_equality ht).bind fun p ⟨T, ht, hT⟩ => ?_
      refine hm.check.bind fun m' hm => Ensures.valueOf.bind fun M hM => Ensures.callBoth.bind fun Z hZ => ?_
      refine hb.check.bind fun b' hb => Ensures.call.bind fun f hf => Ensures.valueOf.bind fun v hv => ?_
      exact Ensures.call.bind fun B hB => .pure (.indEqual ht hT hm hM hZ hb hv (.intro hf hB))

end Eliminators

theorem sound_trans {a b : Expr} {left right : Judgments ByName} (ha : left.Sound a) (hb : right.Sound b) :
    (trans n a b left right).Sound (.trans a b) := by
  refine sound_ofSynthesis ((ensures_equality ha).bind fun p ⟨T, ha, hT⟩ => ?_)
  refine (ensures_equality hb).bind fun q ⟨T', hb, hT'⟩ => Ensures.requireSameType.bind fun _ hA => ?_
  exact Ensures.requireSame.bind fun _ hm => .pure (.trans ha hT hb hT' hA hm)

/-- The range of a function type, read back under a fresh name that does not occur in it. -/
theorem ensures_simpleRange {Γ : Context} {x : Name} {d a : Value} {R : Closure} :
    Ensures (simpleRange n Γ x d R : ByName Value) fun D => Discipline.kernel.simple Γ x d R a D := by
  refine Ensures.freshName.bind fun y hy => Ensures.apply.bind fun B hB => ?_
  refine Ensures.readBackType.bind fun nB hnB => Ensures.answered.bind fun occurs hoccurs => ?_
  cases occurs with
  | true => exact .bind_reject
  | false => exact Ensures.valueOf.imp fun D hD => ⟨y, B, nB, hy, hB, hnB, hoccurs, hD⟩

theorem sound_cong {t f : Expr} {subject fn : Judgments ByName} (ht : subject.Sound t) (hf : fn.Sound f) :
    (cong n t f subject fn).Sound (.cong t f) := by
  refine sound_ofSynthesis ((ensures_equality ht).bind fun p ⟨T, ht, hT⟩ => ?_)
  refine hf.synth.bind fun q hf => Ensures.force.bind fun w hF => ?_
  split
  · refine Ensures.requireSameType.bind fun _ hd => (ensures_simpleRange (a := p.2.2.1)).bind fun D hD => ?_
    refine Ensures.valueOf.bind fun g hg => Ensures.call.bind fun u hu => Ensures.call.bind fun v hv => ?_
    refine Ensures.readBackType.bind fun nF hnF => ?_
    exact .pure (.cong ht hT hf hF hd hD hg hu hv (.added id hnF))
  · exact .bind_reject

/-! ## The other forms -/

theorem sound_var {x : Name} : (var n x).Sound (.var x) := by
  refine sound_ofSynthesis fun {Γ r} => ?_
  split
  · rename_i hx
    exact .pure (.var hx rfl)
  · rename_i hx
    exact .pure (.var hx rfl)
  · exact .reject

theorem sound_the {t : Expr} {type inner : Judgments ByName} (ht : type.Sound t) (he : inner.Sound e) :
    (the n t e type inner).Sound (.the t e) := by
  refine sound_ofSynthesis (ht.isType.bind fun t' ht => Ensures.valueOf.bind fun T hT => ?_)
  exact he.check.bind fun e' he => .pure (.the ht hT he)

theorem sound_const {c : Const} : (const n c).Sound (.const c) := by
  cases c with
  | univ => exact sound_ofFormation .reject (.pure .univ)
  | nat | atom | trivial | absurd | zero | sole => exact sound_ofSynthesis (sound_constRule rfl)
  | nil => exact sound_nil
  | vecNil => exact sound_vecNil

theorem sound_unary {u : Unary} {a : Expr} {inner : Judgments ByName} (ha : inner.Sound a) :
    (unary n u a inner).Sound (.unary u a) := by
  cases u with
  | list => exact sound_list ha
  | add1 => exact sound_add1 ha
  | left => exact sound_left ha
  | right => exact sound_right ha
  | same => exact sound_same ha

theorem sound_binary {b : Binary} {e₁ e₂ : Expr} {first second : Judgments ByName} (h₁ : first.Sound e₁)
    (h₂ : second.Sound e₂) : (binary n b e₁ e₂ first second).Sound (.binary b e₁ e₂) := by
  cases b with
  | vec => exact sound_vec h₁ h₂
  | either => exact sound_either h₁ h₂
  | cons => exact sound_cons h₁ h₂
  | listCons => exact sound_listCons h₁ h₂
  | vecCons => exact sound_vecCons h₁ h₂

theorem sound_malformed {item : Malformed} : (malformed item).Sound (.malformed item) := by
  cases item <;> exact sound_ofDefect

end Check

theorem judge_sound (n : Nat) (e : Expr) : (judge n e : Judgments ByName).Sound e := by
  induction e with
  | var x => exact Check.sound_var
  | quote a => exact Check.sound_quote
  | const c => exact Check.sound_const
  | unary u _ ih => exact Check.sound_unary ih
  | binary b _ _ ih₁ ih₂ => exact Check.sound_binary ih₁ ih₂
  | equal _ _ _ iht iha ihb => exact Check.sound_equal iha ihb iht
  | quant q x _ _ ihd ihr => exact Check.sound_quant ihd ihr
  | lam x _ ih => exact Check.sound_lam ih
  | the _ _ iht ihe => exact Check.sound_the iht ihe
  | app _ _ ihf iha => exact Check.sound_app ihf iha
  | proj p _ ih => exact Check.sound_proj ih
  | fold f _ _ _ iht ihb ihs => exact Check.sound_fold iht ihb ihs
  | induct i _ _ _ _ iht ihm ihb ihs => exact Check.sound_induct iht ihm ihb ihs
  | transport k _ _ _ iht ihm ihb => exact Check.sound_transport iht ihm ihb
  | indAbsurd _ _ iht ihm => exact Check.sound_indAbsurd iht ihm
  | indVec _ _ _ _ _ ihk iht ihm ihb ihs => exact Check.sound_indVec iht ihm ihb ihs ihk
  | trans _ _ iha ihb => exact Check.sound_trans iha ihb
  | cong _ _ iht ihf => exact Check.sound_cong iht ihf
  | todo => exact Check.sound_todo
  | malformed item => exact Check.sound_malformed

end TypeKernel
