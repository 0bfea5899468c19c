/-
# TypeKernel.Proofs.Elaboration — what checking does to an expression

Whichever judgment accepts an expression, its elaborated form is built in one way: every part is
elaborated, every binder receives a fresh name, every variable is renamed, and the base of a fold, the
target of `ind-Absurd` and the function of `cong` are annotated. No rule forgets a part. `Elaborated` says this
as a relation between expressions, and `judge_elaborates` is the one place where the rules are taken apart for
it; everything that holds of all expressions that checking accepts is an induction on this relation.
-/
import TypeKernel.Check.Basic
import TypeKernel.Proofs.Returns

namespace TypeKernel

set_option autoImplicit false

open Machine

/-- `Elaborated Γ r e core`: in the context `Γ` and under the renaming `r`, the source expression `e` is
elaborated to `core`. -/
inductive Elaborated : Context → Renaming → Expr → Expr → Prop
  | var {Γ r x b} (found : Γ.lookup (r.rename x) = some b) (usable : b.isClaim = false) :
      Elaborated Γ r (.var x) (.var (r.rename x))
  | quote {Γ r} {atom : String} (h : isAtom atom = true) : Elaborated Γ r (.quote atom) (.quote atom)
  | const {Γ r} (c : Const) : Elaborated Γ r (.const c) (.const c)
  | unary {Γ r e e'} (u : Unary) (h : Elaborated Γ r e e') :
      Elaborated Γ r (.unary u e) (.unary u e')
  | binary {Γ r e₁ e₁' e₂ e₂'} (b : Binary) (h₁ : Elaborated Γ r e₁ e₁')
      (h₂ : Elaborated Γ r e₂ e₂') : Elaborated Γ r (.binary b e₁ e₂) (.binary b e₁' e₂')
  | equal {Γ r t t' a a' b b'} (ht : Elaborated Γ r t t') (ha : Elaborated Γ r a a')
      (hb : Elaborated Γ r b b') : Elaborated Γ r (.equal t a b) (.equal t' a' b')
  | quant {Γ r x y type d d' e e'} (q : Quantifier) (fresh : Γ.fresh x = .ok y)
      (hd : Elaborated Γ r d d') (he : Elaborated (Γ.bindFree y type) (r.extend x y) e e') :
      Elaborated Γ r (.quant q x d e) (.quant q y d' e')
  | lam {Γ r x y type b b'} (fresh : Γ.fresh x = .ok y)
      (hb : Elaborated (Γ.bindFree y type) (r.extend x y) b b') :
      Elaborated Γ r (.lam x b) (.lam y b')
  | the {Γ r t t' e e'} (ht : Elaborated Γ r t t') (he : Elaborated Γ r e e') :
      Elaborated Γ r (.the t e) (.the t' e')
  | app {Γ r f f' a a'} (hf : Elaborated Γ r f f') (ha : Elaborated Γ r a a') :
      Elaborated Γ r (.app f a) (.app f' a')
  | proj {Γ r t t'} (p : Projection) (ht : Elaborated Γ r t t') :
      Elaborated Γ r (.proj p t) (.proj p t')
  | fold {Γ r t t' b b' s s'} (f : Fold) (a : Expr) (ht : Elaborated Γ r t t')
      (hb : Elaborated Γ r b b') (hs : Elaborated Γ r s s') :
      Elaborated Γ r (.fold f t b s) (.fold f t' (b'.annotate a) s')
  | induct {Γ r t t' mo mo' b b' s s'} (i : Induction) (ht : Elaborated Γ r t t')
      (hm : Elaborated Γ r mo mo') (hb : Elaborated Γ r b b') (hs : Elaborated Γ r s s') :
      Elaborated Γ r (.induct i t mo b s) (.induct i t' mo' b' s')
  | transport {Γ r t t' mo mo' b b'} (k : Transport) (ht : Elaborated Γ r t t')
      (hm : Elaborated Γ r mo mo') (hb : Elaborated Γ r b b') :
      Elaborated Γ r (.transport k t mo b) (.transport k t' mo' b')
  | indAbsurd {Γ r t t' mo mo'} (ht : Elaborated Γ r t t') (hm : Elaborated Γ r mo mo') :
      Elaborated Γ r (.indAbsurd t mo) (.indAbsurd (t'.annotate .absurd) mo')
  | indVec {Γ r k k' t t' mo mo' b b' s s'} (hk : Elaborated Γ r k k')
      (ht : Elaborated Γ r t t') (hm : Elaborated Γ r mo mo') (hb : Elaborated Γ r b b')
      (hs : Elaborated Γ r s s') :
      Elaborated Γ r (.indVec k t mo b s) (.indVec k' t' mo' b' s')
  | trans {Γ r a a' b b'} (ha : Elaborated Γ r a a') (hb : Elaborated Γ r b b') :
      Elaborated Γ r (.trans a b) (.trans a' b')
  | cong {Γ r t t' f f'} (a : Expr) (ht : Elaborated Γ r t t') (hf : Elaborated Γ r f f') :
      Elaborated Γ r (.cong t f) (.cong t' (f'.annotate a))

/-- Whatever the judgments return is an elaboration of the expression. -/
structure Judgments.Elaborate {m : Type → Type} [Machine m] [Returning m] (J : Judgments m) (e : Expr) :
    Prop where
  synth : ∀ {Γ r}, Ensures (J.synth Γ r) fun p => Elaborated Γ r e p.1
  check : ∀ {Γ r A}, Ensures (J.check Γ r A) fun core => Elaborated Γ r e core
  isType : ∀ {Γ r}, Ensures (J.isType Γ r) fun core => Elaborated Γ r e core

namespace Check

variable {m : Type → Type} [Machine m] [Returning m] {n : Nat} {e : Expr}
  {rule : Context → Renaming → m (Expr × Value)}

/-! ## The kinds of rules -/

theorem elaborate_ofSynthesis (h : ∀ {Γ r}, Ensures (rule Γ r) fun p => Elaborated Γ r e p.1) :
    (ofSynthesis n e rule).Elaborate e where
  synth := .skip fun _ => h
  check := .skip fun _ => h.bind fun _ he => .skip fun _ => .pure he
  isType := by
    refine .skip fun _ => h.bind fun _ he => .skip fun _ => ?_
    split
    · exact .pure he
    · exact .bind_reject

theorem elaborate_ofFormation {formation : Context → Renaming → m Expr}
    (h : ∀ {Γ r}, Ensures (rule Γ r) fun p => Elaborated Γ r e p.1)
    (hf : ∀ {Γ r}, Ensures (formation Γ r) fun core => Elaborated Γ r e core) :
    (ofFormation n e rule formation).Elaborate e where
  synth := (elaborate_ofSynthesis (n := n) h).synth
  check := (elaborate_ofSynthesis (n := n) h).check
  isType := hf

theorem elaborate_ofChecking {rule : Context → Renaming → Value → m Expr}
    (h : ∀ {Γ r A}, Ensures (rule Γ r A) fun core => Elaborated Γ r e core) :
    (ofChecking e rule).Elaborate e where
  synth := .reject
  check := .skip fun _ => h
  isType := .reject

theorem elaborate_ofBoth {checking : Context → Renaming → Value → m Expr}
    (h : ∀ {Γ r}, Ensures (rule Γ r) fun p => Elaborated Γ r e p.1)
    (hc : ∀ {Γ r A}, Ensures (checking Γ r A) fun core => Elaborated Γ r e core) :
    (ofBoth n e rule checking).Elaborate e where
  synth := (elaborate_ofSynthesis (n := n) h).synth
  check := .skip fun _ => hc
  isType := (elaborate_ofSynthesis (n := n) h).isType

theorem elaborate_ofDefect {d : Defect} : (ofDefect d : Judgments m).Elaborate e where
  synth := .defect
  check := .defect
  isType := .defect

theorem elaborate_todo : (todo n : Judgments m).Elaborate e where
  synth := .skip fun _ => .reject
  check := .skip fun _ => .bind_reject
  isType := .reject

/-- The rule of a constructor goes by the form of the expected type. -/
theorem elaborate_byForm {rule : Context → Renaming → Value → m Expr}
    (h : ∀ {Γ r w}, Ensures (rule Γ r w) fun core => Elaborated Γ r e core) :
    (ofChecking e fun Γ r A => A.force n >>= rule Γ r).Elaborate e :=
  elaborate_ofChecking (.skip fun _ => h)

theorem ensures_bindFresh {Γ : Context} {r : Renaming} {x : Name} {T : Value} :
    Ensures (bindFresh Γ r x T : m _) fun p =>
      Γ.fresh x = .ok p.1 ∧ p = (p.1, Γ.bindFree p.1 T, r.extend x p.1) := by
  intro p returns
  obtain ⟨y, fresh, returns⟩ := returns.bind
  cases returns.pure_eq
  exact ⟨fresh.numeral, rfl⟩

/-! ## Type formers and constructors -/

theorem elaborate_const {c : Const} : (const n c : Judgments m).Elaborate (.const c) := by
  cases c with
  | univ => exact elaborate_ofFormation .reject (.pure (.const .univ))
  | nil =>
      refine elaborate_byForm fun {Γ r w} => ?_
      split
      · exact .pure (.const .nil)
      · exact .bind_reject
  | vecNil =>
      refine elaborate_byForm fun {Γ r w} => ?_
      split
      · exact .skip fun _ => .pure (.const .vecNil)
      · exact .bind_reject
  | _ => exact elaborate_ofSynthesis (.pure (.const _))

theorem elaborate_quote {atom : String} : (quote n atom : Judgments m).Elaborate (.quote atom) := by
  refine elaborate_ofSynthesis fun {Γ r} => ?_
  split
  · rename_i h
    exact .pure (.quote h)
  · exact .reject

theorem elaborate_quant {q : Quantifier} {x : Name} {d : Expr} {domain range : Judgments m}
    (hd : domain.Elaborate d) (he : range.Elaborate e) :
    (quant n q x d e domain range).Elaborate (.quant q x d e) := by
  refine elaborate_ofFormation ?_ ?_
  · refine hd.check.bind fun d' hd => .skip fun D => ensures_bindFresh.bind fun p hp => ?_
    rw [hp.2]
    exact he.check.bind fun e' he => .pure (.quant q hp.1 hd he)
  · refine hd.isType.bind fun d' hd => .skip fun D => ensures_bindFresh.bind fun p hp => ?_
    rw [hp.2]
    exact he.isType.bind fun e' he => .pure (.quant q hp.1 hd he)

theorem elaborate_lam {x : Name} {body : Judgments m} (he : body.Elaborate e) :
    (lam n x e body).Elaborate (.lam x e) := by
  refine elaborate_byForm fun {Γ r w} => ?_
  split
  · refine ensures_bindFresh.bind fun p hp => ?_
    rw [hp.2]
    exact .skip fun _ => he.check.bind fun e' he => .pure (.lam hp.1 he)
  · exact .bind_reject

theorem elaborate_unary {u : Unary} {inner : Judgments m} (he : inner.Elaborate e) :
    (unary n u e inner).Elaborate (.unary u e) := by
  cases u with
  | list =>
      exact elaborate_ofFormation (he.check.bind fun _ he => .pure (.unary .list he))
        (he.isType.bind fun _ he => .pure (.unary .list he))
  | add1 => exact elaborate_ofSynthesis (he.check.bind fun _ he => .pure (.unary .add1 he))
  | left | right =>
      refine elaborate_byForm fun {Γ r w} => ?_
      split
      · exact he.check.bind fun _ he => .pure (.unary _ he)
      · exact .bind_reject
  | same =>
      refine elaborate_byForm fun {Γ r w} => ?_
      split
      · refine he.check.bind fun _ he => ?_
        exact .skip fun _ => .skip fun _ => .skip fun _ => .pure (.unary .same he)
      · exact .bind_reject

section Parts

variable {a b : Expr} {first second : Judgments m} (ha : first.Elaborate a) (hb : second.Elaborate b)

include ha hb

theorem elaborate_binary {k : Binary} : (binary n k a b first second).Elaborate (.binary k a b) := by
  cases k with
  | vec =>
      exact elaborate_ofFormation (ha.check.bind fun _ ha => hb.check.bind fun _ hb => .pure (.binary .vec ha hb))
        (ha.isType.bind fun _ ha => hb.check.bind fun _ hb => .pure (.binary .vec ha hb))
  | either =>
      refine elaborate_ofFormation ?_ ?_
      · exact ha.check.bind fun _ ha => hb.check.bind fun _ hb => .pure (.binary .either ha hb)
      · exact ha.isType.bind fun _ ha => hb.isType.bind fun _ hb => .pure (.binary .either ha hb)
  | cons =>
      refine elaborate_byForm fun {Γ r w} => ?_
      split
      · refine ha.check.bind fun _ ha => .skip fun _ => .skip fun _ => ?_
        exact hb.check.bind fun _ hb => .pure (.binary .cons ha hb)
      · exact .bind_reject
  | listCons =>
      refine elaborate_ofBoth ?_ (.skip fun w => ?_)
      · exact ha.synth.bind fun _ ha => hb.check.bind fun _ hb => .pure (.binary .listCons ha hb)
      · split
        · exact ha.check.bind fun _ ha => hb.check.bind fun _ hb => .pure (.binary .listCons ha hb)
        · exact .bind_reject
  | vecCons =>
      refine elaborate_byForm fun {Γ r w} => ?_
      split
      · refine .skip fun _ => ?_
        exact ha.check.bind fun _ ha => hb.check.bind fun _ hb => .pure (.binary .vecCons ha hb)
      · exact .bind_reject

theorem elaborate_equal {t : Expr} {type : Judgments m} (ht : type.Elaborate t) :
    (equal n t a b type first second).Elaborate (.equal t a b) := by
  refine elaborate_ofFormation ?_ ?_
  · refine ht.check.bind fun _ ht => .skip fun _ => ?_
    exact ha.check.bind fun _ ha => hb.check.bind fun _ hb => .pure (.equal ht ha hb)
  · refine ht.isType.bind fun _ ht => .skip fun _ => ?_
    exact ha.check.bind fun _ ha => hb.check.bind fun _ hb => .pure (.equal ht ha hb)

end Parts

/-! ## Eliminators -/

section Target

variable {t : Expr} {subject : Judgments m} (ht : subject.Elaborate t) {Γ : Context} {r : Renaming}

include ht

theorem elaborate_target {α : Type} {el : Eliminator} {head : TypeHead} {view : Value → Option α} :
    Ensures (target n el head view subject Γ r) fun p => Elaborated Γ r t p.1 := by
  refine ht.synth.bind fun _ ht => .skip fun _ => ?_
  split
  · exact .pure ht
  · exact .bind_reject

theorem elaborate_pair {p : Projection} :
    Ensures (pair n p subject Γ r) fun q => Elaborated Γ r t q.1 := by
  refine ht.synth.bind fun _ ht => .skip fun _ => ?_
  split
  · exact .pure ht
  · exact .bind_reject

end Target

theorem elaborate_app {f a : Expr} {fn arg : Judgments m} (hf : fn.Elaborate f) (ha : arg.Elaborate a) :
    (app n f a fn arg).Elaborate (.app f a) := by
  refine elaborate_ofSynthesis (hf.synth.bind fun _ hf => .skip fun _ => ?_)
  split
  · exact ha.check.bind fun _ ha => .skip fun _ => .skip fun _ => .pure (.app hf ha)
  · exact .bind_reject

theorem elaborate_proj {p : Projection} {t : Expr} {subject : Judgments m} (ht : subject.Elaborate t) :
    (proj n p t subject).Elaborate (.proj p t) := by
  refine elaborate_ofSynthesis fun {Γ r} => ?_
  cases p with
  | car => exact (elaborate_pair ht).bind fun _ ht => .pure (.proj .car ht)
  | cdr =>
      refine (elaborate_pair ht).bind fun _ ht => ?_
      exact .skip fun _ => .skip fun _ => .skip fun _ => .pure (.proj .cdr ht)
  | head | tail => exact (elaborate_target ht).bind fun _ ht => .skip fun _ => .pure (.proj _ ht)
  | symm => exact (elaborate_target ht).bind fun _ ht => .pure (.proj .symm ht)

section Eliminators

variable {t mo b s : Expr} {subject motive base step : Judgments m} (ht : subject.Elaborate t)
  (hm : motive.Elaborate mo) (hb : base.Elaborate b) (hs : step.Elaborate s)

include ht hb hs in
theorem elaborate_fold {f : Fold} : (fold n f t b s subject base step).Elaborate (.fold f t b s) := by
  have parts : ∀ {S : Value → Value} {Γ r}, Ensures (baseAndStep n S base step Γ r) fun p =>
      ∃ b' a, p.1 = Expr.annotate b' a ∧ Elaborated Γ r b b' ∧ Elaborated Γ r s p.2.1 :=
    hb.synth.bind fun q hb => hs.check.bind fun _ hs => .skip fun a => .pure ⟨q.1, a, rfl, hb, hs⟩
  refine elaborate_ofSynthesis fun {Γ r} => ?_
  cases f with
  | whichNat | iterNat | recNat | recList =>
      refine (elaborate_target ht).bind fun _ ht => parts.bind fun p ⟨b', a, same, hb, hs⟩ => .pure ?_
      rw [same]
      exact .fold _ a ht hb hs

include ht hm hb hs in
theorem elaborate_induct {i : Induction} :
    (induct n i t mo b s subject motive base step).Elaborate (.induct i t mo b s) := by
  refine elaborate_ofSynthesis fun {Γ r} => ?_
  cases i with
  | indNat | indList =>
      refine (elaborate_target ht).bind fun _ ht => hm.check.bind fun _ hm => .skip fun _ => .skip fun _ => ?_
      refine hb.check.bind fun _ hb => hs.check.bind fun _ hs => .skip fun _ => .skip fun _ => ?_
      exact .pure (.induct _ ht hm hb hs)
  | indEither =>
      refine (elaborate_target ht).bind fun _ ht => hm.check.bind fun _ hm => .skip fun _ => ?_
      refine hb.check.bind fun _ hb => hs.check.bind fun _ hs => .skip fun _ => .skip fun _ => ?_
      exact .pure (.induct _ ht hm hb hs)

include ht hm hb in
theorem elaborate_transport {k : Transport} :
    (transport n k t mo b subject motive base).Elaborate (.transport k t mo b) := by
  refine elaborate_ofSynthesis fun {Γ r} => ?_
  cases k with
  | replace =>
      refine (elaborate_target ht).bind fun _ ht => hm.check.bind fun _ hm => .skip fun _ => .skip fun _ => ?_
      exact hb.check.bind fun _ hb => .skip fun _ => .pure (.transport _ ht hm hb)
  | indEqual =>
      refine (elaborate_target ht).bind fun _ ht => hm.check.bind fun _ hm => .skip fun _ => .skip fun _ => ?_
      refine hb.check.bind fun _ hb => .skip fun _ => .skip fun _ => .skip fun _ => ?_
      exact .pure (.transport _ ht hm hb)

include ht hm hb hs in
theorem elaborate_indVec {k : Expr} {length : Judgments m} (hk : length.Elaborate k) :
    (indVec n k t mo b s length subject motive base step).Elaborate (.indVec k t mo b s) := by
  refine elaborate_ofSynthesis (hk.check.bind fun _ hk => .skip fun _ => ?_)
  refine (elaborate_target ht).bind fun _ ht => .skip fun _ => hm.check.bind fun _ hm => ?_
  refine .skip fun _ => .skip fun _ => hb.check.bind fun _ hb => hs.check.bind fun _ hs => ?_
  exact .skip fun _ => .skip fun _ => .skip fun _ => .pure (.indVec hk ht hm hb hs)

include ht hm in
theorem elaborate_indAbsurd : (indAbsurd n t mo subject motive).Elaborate (.indAbsurd t mo) := by
  refine elaborate_ofSynthesis ((elaborate_target ht).bind fun _ ht => ?_)
  exact hm.check.bind fun _ hm => .skip fun _ => .pure (.indAbsurd ht hm)

end Eliminators

theorem elaborate_trans {a b : Expr} {left right : Judgments m} (ha : left.Elaborate a)
    (hb : right.Elaborate b) : (trans n a b left right).Elaborate (.trans a b) := by
  refine elaborate_ofSynthesis ((elaborate_target ha).bind fun _ ha => ?_)
  exact (elaborate_target hb).bind fun _ hb => .skip fun _ => .skip fun _ => .pure (.trans ha hb)

theorem elaborate_cong {t f : Expr} {subject fn : Judgments m} (ht : subject.Elaborate t)
    (hf : fn.Elaborate f) : (cong n t f subject fn).Elaborate (.cong t f) := by
  refine elaborate_ofSynthesis ((elaborate_target ht).bind fun _ ht => hf.synth.bind fun _ hf => .skip fun _ => ?_)
  split
  · refine .skip fun _ => .skip fun _ => .skip fun _ => .skip fun _ => .skip fun _ => .skip fun a => ?_
    exact .pure (.cong a ht hf)
  · exact .bind_reject

/-! ## Variables and annotations -/

theorem elaborate_var {x : Name} : (var n x : Judgments m).Elaborate (.var x) := by
  refine elaborate_ofSynthesis fun {Γ r} => ?_
  split
  · rename_i found
    exact .pure (.var found rfl)
  · rename_i found
    exact .pure (.var found rfl)
  · exact .reject

theorem elaborate_the {t : Expr} {type inner : Judgments m} (ht : type.Elaborate t) (he : inner.Elaborate e) :
    (the n t e type inner).Elaborate (.the t e) := by
  refine elaborate_ofSynthesis (ht.isType.bind fun _ ht => .skip fun _ => ?_)
  exact he.check.bind fun _ he => .pure (.the ht he)

end Check

theorem judge_elaborates {m : Type → Type} [Machine m] [Returning m] (n : Nat) (e : Expr) :
    (judge n e : Judgments m).Elaborate e := by
  induction e with
  | var x => exact Check.elaborate_var
  | quote atom => exact Check.elaborate_quote
  | const c => exact Check.elaborate_const
  | unary u _ ih => exact Check.elaborate_unary ih
  | binary b _ _ ih₁ ih₂ => exact Check.elaborate_binary ih₁ ih₂
  | equal _ _ _ iht iha ihb => exact Check.elaborate_equal iha ihb iht
  | quant q x _ _ ihd ihe => exact Check.elaborate_quant ihd ihe
  | lam x _ ih => exact Check.elaborate_lam ih
  | the _ _ iht ihe => exact Check.elaborate_the iht ihe
  | app _ _ ihf iha => exact Check.elaborate_app ihf iha
  | proj p _ ih => exact Check.elaborate_proj ih
  | fold f _ _ _ iht ihb ihs => exact Check.elaborate_fold iht ihb ihs
  | induct i _ _ _ _ iht ihm ihb ihs => exact Check.elaborate_induct iht ihm ihb ihs
  | transport k _ _ _ iht ihm ihb => exact Check.elaborate_transport iht ihm ihb
  | indAbsurd _ _ iht ihm => exact Check.elaborate_indAbsurd iht ihm
  | indVec _ _ _ _ _ ihk iht ihm ihb ihs => exact Check.elaborate_indVec iht ihm ihb ihs ihk
  | trans _ _ iha ihb => exact Check.elaborate_trans iha ihb
  | cong _ _ iht ihf => exact Check.elaborate_cong iht ihf
  | todo => exact Check.elaborate_todo
  | malformed item => cases item <;> exact Check.elaborate_ofDefect

end TypeKernel
