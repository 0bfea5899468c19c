/-
# TypeKernel.Proofs.Rules — what the eliminators give

The rules of the eliminators as facts about unbounded evaluation, one for each form of the target: what a
constructor reduces to, and which neutral form a stuck target gives.
-/
import TypeKernel.Proofs.Forms

namespace TypeKernel

set_option autoImplicit false

open Machine

@[simp] theorem ByName.ok_bind {α β : Type} (a : α) (f : α → ByName β) :
    Machine.toMonad.toBind.bind (Except.ok a : ByName α) f = f a := rfl

@[simp] theorem ByName.pure_eq_ok {α : Type} (a : α) :
    (Machine.toMonad.toPure.pure a : ByName α) = Except.ok a := rfl

abbrev Evals (ρ : Env) (e : Expr) (v : Value) : Prop := answer (.eval ρ e) = .ok v

abbrev Heads (v a : Value) : Prop := Eval.head answer v = .ok a

abbrev Tails (v a : Value) : Prop := Eval.tail answer v = .ok a

abbrev Symms (v a : Value) : Prop := Eval.symm answer v = .ok a

abbrev Folds (f : Fold) (t : Value) (B : Option Value) (b s r : Value) : Prop :=
  answer (.fold f t B b s) = .ok r

abbrev Inducts (i : Induction) (t m b s r : Value) : Prop :=
  answer (.induct i t m b s) = .ok r

abbrev IndVecs (k t m b s r : Value) : Prop :=
  answer (.indVec k t m b s) = .ok r

abbrev IndAbsurds (t m r : Value) : Prop := Eval.indAbsurd answer t m = .ok r

abbrev Transports (k : Transport) (t m b r : Value) : Prop :=
  Eval.transport answer k t m b = .ok r

abbrev Transes (l r v : Value) : Prop := Eval.trans answer l r = .ok v

abbrev Congs (t : Value) (F : Option Value) (f v : Value) : Prop := Eval.cong answer t F f = .ok v

abbrev CallsBoth (f a b v : Value) : Prop := Eval.callBoth answer f a b = .ok v

variable {t T E k m b s r a as e₁ e₂ v w B d : Value} {n : Neutral}

theorem answer_eval (ρ : Env) (e : Expr) : answer (.eval ρ e) = Eval.evaluate answer ρ e :=
  answer_eq _

theorem answer_fold (f : Fold) (o : Option Value) :
    answer (.fold f t o b s) = Eval.fold answer f t o b s :=
  answer_eq _

theorem answer_indNat : answer (.induct .indNat t m b s) = Eval.indNat answer t m b s := answer_eq _

theorem answer_indList : answer (.induct .indList t m b s) = Eval.indList answer t m b s :=
  answer_eq _

theorem answer_indEither : answer (.induct .indEither t m b s) = Eval.indEither answer t m b s :=
  answer_eq _

theorem answer_indVec : answer (.indVec k t m b s) = Eval.indVec answer k t m b s :=
  answer_eq _

theorem CallsBoth.intro {f g : Value} (hg : Calls f a g) (hv : Calls g b v) : CallsBoth f a b v := by
  simp only [CallsBoth, Eval.callBoth, hg, hv, ByName.ok_bind]

theorem CallsBoth.unique {f v w : Value} (h : CallsBoth f a b v) (h' : CallsBoth f a b w) : v = w :=
  Except.ok.inj (h.symm.trans h')

/-! ## Families -/

namespace Applies

variable {x : Name} {motive here entry left type length head : Value}

theorem of_family {f : Family} (h : Eval.applyFamily answer a f = .ok B) :
    Applies (.family x f) a B := by
  rw [Applies, answer_eq]
  exact h

theorem always : Applies (.family x (.always B)) a B := of_family rfl

theorem fixed (h : Calls motive v B) : Applies (.family x (.fixed motive v)) a B := of_family h

theorem fixedBoth (h : CallsBoth motive v w B) : Applies (.family x (.fixedBoth motive v w)) a B :=
  of_family h

theorem wrapped {u : Unary} (h : Calls motive (.unary u a) B) :
    Applies (.family x (.wrapped u motive)) a B := of_family h

theorem natStep (h : Calls motive a here) :
    Applies (.family x (.natStep motive)) a
      (.piFamily "ih" here (.fixed motive (.add1 a))) := by
  refine of_family ?_
  simp only [Eval.applyFamily, h, ByName.ok_bind, ByName.pure_eq_ok]

theorem listStep : Applies (.family x (.listStep entry motive)) a
    (.piFamily "es" (.list entry) (.listStepTail motive a)) := of_family rfl

theorem listStepTail (h : Calls motive a here) :
    Applies (.family x (.listStepTail motive head)) a
      (.piFamily "ih" here (.fixed motive (.listCons head a))) := by
  refine of_family ?_
  simp only [Eval.applyFamily, h, ByName.ok_bind, ByName.pure_eq_ok]

theorem vecMotive : Applies (.family x (.vecMotive entry)) a
    (.piFamily "es" (.vec entry a) (.always .univ)) := of_family rfl

theorem vecStep : Applies (.family x (.vecStep entry motive)) a
    (.piFamily "e" entry (.vecStepHead entry motive a)) := of_family rfl

theorem vecStepHead : Applies (.family x (.vecStepHead entry motive length)) a
    (.piFamily "es" (.vec entry length) (.vecStepTail motive length a)) := of_family rfl

theorem vecStepTail (h : CallsBoth motive length a here) :
    Applies (.family x (.vecStepTail motive length head)) a
      (.piFamily "ih" here (.fixedBoth motive (.add1 length) (.vecCons head a))) := by
  refine of_family ?_
  simp only [Eval.applyFamily, h, ByName.ok_bind, ByName.pure_eq_ok]

theorem equalMotive : Applies (.family x (.equalMotive type left)) a
    (.piFamily "p" (.equal type left a) (.always .univ)) := of_family rfl

theorem code {ρ : Env} {body : Expr} (h : Evals (ρ.extend x a) body v) :
    Applies (.code ρ x body) a v := by
  rw [Applies, answer_eq]
  exact h

end Applies

/-! ## Projections -/

theorem Heads.cons (h : Forces v (.vecCons a as)) : Heads v a := by
  simp only [Heads, Eval.head, h, ByName.ok_bind, ByName.pure_eq_ok]

theorem Heads.neutral (h : Forces v (.neutral T n)) (hT : Forces T (.vec E k)) :
    Heads v (.neutral E (.proj .head n)) := by
  simp only [Heads, Eval.head, h, hT, ByName.ok_bind, ByName.pure_eq_ok]

theorem Tails.cons (h : Forces v (.vecCons a as)) : Tails v as := by
  simp only [Tails, Eval.tail, h, ByName.ok_bind, ByName.pure_eq_ok]

theorem Tails.neutral (h : Forces v (.neutral T n)) (hT : Forces T (.vec E k))
    (hk : Forces k (.add1 m)) : Tails v (.neutral (.vec E m) (.proj .tail n)) := by
  simp only [Tails, Eval.tail, h, hT, hk, ByName.ok_bind, ByName.pure_eq_ok]

theorem Symms.same (h : Forces v (.same a)) : Symms v (.same a) := by
  simp only [Symms, Eval.symm, h, ByName.ok_bind, ByName.pure_eq_ok]

theorem Symms.neutral (h : Forces v (.neutral T n)) (hT : Forces T (.equal B e₁ e₂)) :
    Symms v (.neutral (.equal B e₂ e₁) (.proj .symm n)) := by
  simp only [Symms, Eval.symm, Eval.equalityOf, h, hT, ByName.ok_bind, ByName.pure_eq_ok]

/-! ## Folds -/

/-- The folds over numbers, with the type that each asks of its step. -/
inductive NatFold : Fold → (Value → Value) → Prop
  | which : NatFold .whichNat Value.whichNatStep
  | iter : NatFold .iterNat Value.iterNatStep
  | recur : NatFold .recNat Value.recNatStep

namespace Folds

variable {f : Fold} {S : Value → Value} {o : Option Value}

theorem zero (hf : NatFold f S) (ht : Forces t .zero) : Folds f t o b s b := by
  rw [Folds, answer_fold]
  cases hf with
  | which => simp only [Eval.fold, Eval.whichNat, ht, ByName.ok_bind, ByName.pure_eq_ok]
  | iter => simp only [Eval.fold, Eval.iterNat, ht, ByName.ok_bind, ByName.pure_eq_ok]
  | recur => simp only [Eval.fold, Eval.recNat, ht, ByName.ok_bind, ByName.pure_eq_ok]

theorem neutral (hf : NatFold f S) (ht : Forces t (.neutral T n)) :
    Folds f t (some B) b s (.neutral B (.fold f n (.mk B b) (.mk (S B) s))) := by
  rw [Folds, answer_fold]
  cases hf with
  | which =>
      simp only [Eval.fold, Eval.whichNat, Eval.stuckNatFold, Eval.requireType, ht,
        ByName.ok_bind, ByName.pure_eq_ok]
  | iter =>
      simp only [Eval.fold, Eval.iterNat, Eval.stuckNatFold, Eval.requireType, ht,
        ByName.ok_bind, ByName.pure_eq_ok]
  | recur =>
      simp only [Eval.fold, Eval.recNat, Eval.stuckNatFold, Eval.requireType, ht,
        ByName.ok_bind, ByName.pure_eq_ok]

theorem which_add1 (ht : Forces t (.add1 a)) (h : Calls s a r) : Folds .whichNat t o b s r := by
  rw [Folds, answer_fold]
  simp only [Eval.fold, Eval.whichNat, ht, h, ByName.ok_bind]

theorem iter_add1 (ht : Forces t (.add1 a)) (h : Folds .iterNat a o b s v) (hr : Calls s v r) :
    Folds .iterNat t o b s r := by
  rw [Folds, answer_fold]
  simp only [Eval.fold, Eval.iterNat, ht, h, hr, ByName.ok_bind]

theorem rec_add1 (ht : Forces t (.add1 a)) (hf : Calls s a w) (h : Folds .recNat a o b s v)
    (hr : Calls w v r) : Folds .recNat t o b s r := by
  rw [Folds, answer_fold]
  simp only [Eval.fold, Eval.recNat, ht, h, hf, hr, ByName.ok_bind]

theorem nil (ht : Forces t .nil) : Folds .recList t o b s b := by
  rw [Folds, answer_fold]
  simp only [Eval.fold, Eval.recList, ht, ByName.ok_bind, ByName.pure_eq_ok]

theorem cons (ht : Forces t (.listCons a as)) (hf : CallsBoth s a as w)
    (h : Folds .recList as o b s v) (hr : Calls w v r) : Folds .recList t o b s r := by
  rw [Folds, answer_fold]
  simp only [Eval.fold, Eval.recList, ht, h, hf, hr, ByName.ok_bind]

theorem neutral_list (ht : Forces t (.neutral T n)) (hT : Forces T (.list E)) :
    Folds .recList t (some B) b s
      (.neutral B (.fold .recList n (.mk B b) (.mk (Value.recListStep E B) s))) := by
  rw [Folds, answer_fold]
  simp only [Eval.fold, Eval.recList, Eval.requireType, Eval.entryType, ht, hT,
    ByName.ok_bind, ByName.pure_eq_ok]

end Folds

/-! ## Inductions -/

namespace Inducts

variable {result atBase : Value} {l : Value}

theorem zero (ht : Forces t .zero) : Inducts .indNat t m b s b := by
  rw [Inducts, answer_indNat]
  simp only [Eval.indNat, ht, ByName.ok_bind, ByName.pure_eq_ok]

theorem add1 (ht : Forces t (.add1 a)) (hf : Calls s a w) (h : Inducts .indNat a m b s v)
    (hr : Calls w v r) : Inducts .indNat t m b s r := by
  rw [Inducts, answer_indNat]
  simp only [Eval.indNat, ht, h, hf, hr, ByName.ok_bind]

theorem neutral_nat (ht : Forces t (.neutral T n)) (hr : Calls m (.neutral T n) result)
    (hz : Calls m .zero atBase) :
    Inducts .indNat t m b s (.neutral result
      (.induct .indNat n (.mk .natMotive m) (.mk atBase b) (.mk (.indNatStep m) s))) := by
  rw [Inducts, answer_indNat]
  simp only [Eval.indNat, ht, hr, hz, ByName.ok_bind, ByName.pure_eq_ok]

theorem nil (ht : Forces t .nil) : Inducts .indList t m b s b := by
  rw [Inducts, answer_indList]
  simp only [Eval.indList, ht, ByName.ok_bind, ByName.pure_eq_ok]

theorem cons (ht : Forces t (.listCons a as)) (hf : CallsBoth s a as w)
    (h : Inducts .indList as m b s v) (hr : Calls w v r) : Inducts .indList t m b s r := by
  rw [Inducts, answer_indList]
  simp only [Eval.indList, ht, h, hf, hr, ByName.ok_bind]

theorem neutral_list (ht : Forces t (.neutral T n)) (hT : Forces T (.list E))
    (hr : Calls m (.neutral T n) result) (hz : Calls m .nil atBase) :
    Inducts .indList t m b s (.neutral result
      (.induct .indList n (.mk (.listMotive E) m) (.mk atBase b) (.mk (.indListStep E m) s))) := by
  rw [Inducts, answer_indList]
  simp only [Eval.indList, Eval.entryType, ht, hT, hr, hz, ByName.ok_bind,
    ByName.pure_eq_ok]

theorem left (ht : Forces t (.left a)) (h : Calls b a r) : Inducts .indEither t m b s r := by
  rw [Inducts, answer_indEither]
  simp only [Eval.indEither, ht, h, ByName.ok_bind]

theorem right (ht : Forces t (.right a)) (h : Calls s a r) : Inducts .indEither t m b s r := by
  rw [Inducts, answer_indEither]
  simp only [Eval.indEither, ht, h, ByName.ok_bind]

theorem neutral_either (ht : Forces t (.neutral T n)) (hT : Forces T (.either l r))
    (hr : Calls m (.neutral T n) result) :
    Inducts .indEither t m b s (.neutral result
      (.induct .indEither n (.mk (.simpleMotive (.either l r)) m)
        (.mk (.eitherCase .left l m) b) (.mk (.eitherCase .right r m) s))) := by
  rw [Inducts, answer_indEither]
  simp only [Eval.indEither, ht, hT, hr, ByName.ok_bind, ByName.pure_eq_ok]

end Inducts

namespace IndVecs

variable {result atNil : Value} {f g : Value}

theorem nil (ht : Forces t .vecNil) : IndVecs k t m b s b := by
  rw [IndVecs, answer_indVec]
  simp only [Eval.indVec, ht, ByName.ok_bind, ByName.pure_eq_ok]

theorem cons (ht : Forces t (.vecCons a as)) (hk : Forces k (.add1 w)) (hf : CallsBoth s w a f)
    (hg : Calls f as g) (h : IndVecs w as m b s v) (hr : Calls g v r) : IndVecs k t m b s r := by
  rw [IndVecs, answer_indVec]
  simp only [Eval.indVec, ht, hk, hf, hg, h, hr, ByName.ok_bind]

theorem neutral (ht : Forces t (.neutral T n)) (hT : Forces T (.vec E w))
    (hr : CallsBoth m k (.neutral T n) result) (hz : CallsBoth m .zero .vecNil atNil) :
    IndVecs k t m b s (.neutral result
      (.indVec (.mk .nat k) n (.mk (.vecMotive E) m) (.mk atNil b) (.mk (.indVecStep E m) s))) := by
  rw [IndVecs, answer_indVec]
  simp only [Eval.indVec, ht, hT, hr, hz, ByName.ok_bind, ByName.pure_eq_ok]

end IndVecs

theorem IndAbsurds.neutral (ht : Forces t (.neutral T n)) :
    IndAbsurds t m (.neutral m (.indAbsurd n (.mk .univ m))) := by
  simp only [IndAbsurds, Eval.indAbsurd, ht, ByName.ok_bind, ByName.pure_eq_ok]

/-! ## Equality -/

namespace Transports

variable {result start : Value}

theorem same (q : Transport) (ht : Forces t (.same a)) : Transports q t m b b := by
  cases q with
  | replace =>
      simp only [Transports, Eval.transport, Eval.replace, ht, ByName.ok_bind, ByName.pure_eq_ok]
  | indEqual =>
      simp only [Transports, Eval.transport, Eval.indEqual, ht, ByName.ok_bind, ByName.pure_eq_ok]

theorem neutral_replace (ht : Forces t (.neutral T n)) (hT : Forces T (.equal B e₁ e₂))
    (hr : Calls m e₂ result) (hs : Calls m e₁ start) :
    Transports .replace t m b (.neutral result
      (.transport .replace n (.mk (.simpleMotive B) m) (.mk start b))) := by
  simp only [Transports, Eval.transport, Eval.replace, Eval.equalityOf, ht, hT, hr, hs,
    ByName.ok_bind, ByName.pure_eq_ok]

theorem neutral_indEqual (ht : Forces t (.neutral T n)) (hT : Forces T (.equal B e₁ e₂))
    (hr : CallsBoth m e₂ (.neutral T n) result) (hs : CallsBoth m e₁ (.same e₁) start) :
    Transports .indEqual t m b (.neutral result
      (.transport .indEqual n (.mk (.equalMotive B e₁) m) (.mk start b))) := by
  simp only [Transports, Eval.transport, Eval.indEqual, Eval.equalityOf, ht, hT, hr, hs,
    ByName.ok_bind, ByName.pure_eq_ok]

end Transports

namespace Transes

variable {l T' : Value} {n' : Neutral}

theorem same (hl : Forces l (.same a)) (hr : Forces r (.same b)) : Transes l r (.same a) := by
  simp only [Transes, Eval.trans, hl, hr, ByName.ok_bind, ByName.pure_eq_ok]

theorem same_neutral (hl : Forces l (.same a)) (hr : Forces r (.neutral T n))
    (hT : Forces T (.equal B e₁ e₂)) :
    Transes l r (.neutral (.equal B a e₂)
      (.trans (.mk (.equal B a a) (.same a)) (.mk (.equal B e₁ e₂) (.neutral T n)))) := by
  simp only [Transes, Eval.trans, Eval.equalityOf, hl, hr, hT, ByName.ok_bind, ByName.pure_eq_ok]

theorem neutral_same (hl : Forces l (.neutral T n)) (hr : Forces r (.same a))
    (hT : Forces T (.equal B e₁ e₂)) :
    Transes l r (.neutral (.equal B e₁ a)
      (.trans (.mk (.equal B e₁ e₂) (.neutral T n)) (.mk (.equal B a a) (.same a)))) := by
  simp only [Transes, Eval.trans, Eval.equalityOf, hl, hr, hT, ByName.ok_bind, ByName.pure_eq_ok]

theorem neutral {B' e₁' e₂' : Value} (hl : Forces l (.neutral T n)) (hr : Forces r (.neutral T' n'))
    (hT : Forces T (.equal B e₁ e₂)) (hT' : Forces T' (.equal B' e₁' e₂')) :
    Transes l r (.neutral (.equal B e₁ e₂')
      (.trans (.mk (.equal B e₁ e₂) (.neutral T n))
        (.mk (.equal B' e₁' e₂') (.neutral T' n')))) := by
  simp only [Transes, Eval.trans, Eval.equalityOf, hl, hr, hT, hT', ByName.ok_bind,
    ByName.pure_eq_ok]

end Transes

namespace Congs

variable {f F : Value} {x : Name} {c : Closure}

theorem same {o : Option Value} (ht : Forces t (.same a)) (h : Calls f a v) :
    Congs t o f (.same v) := by
  simp only [Congs, Eval.cong, ht, h, ByName.ok_bind, ByName.pure_eq_ok]

theorem neutral (ht : Forces t (.neutral T n)) (hT : Forces T (.equal B e₁ e₂))
    (hF : Forces F (.pi x d c)) (hr : Applies c e₁ r) (h₁ : Calls f e₁ v) (h₂ : Calls f e₂ w) :
    Congs t (some F) f (.neutral (.equal r v w) (.cong n (.mk (.pi x d c) f))) := by
  simp only [Congs, Eval.cong, Eval.equalityOf, Eval.requireType, ht, hT, hF, hr, h₁, h₂,
    ByName.ok_bind, ByName.pure_eq_ok]

end Congs

/-! ## Expressions -/

/-- `v` is an expression in an environment, put off if it is not cheap. -/
abbrev Laters (ρ : Env) (e : Expr) (v : Value) : Prop := Eval.later answer ρ e = .ok v

theorem forces_delayed {ρ : Env} {e : Expr} {c : Nat} (h : Evals ρ e v) :
    Coincides (.delayed c ρ e) v := by
  rw [Coincides, answer_eq]
  change Eval.force answer (.delayed c ρ e) = _
  rw [Eval.force_delayed, h]
  rfl

theorem Laters.of_evals {ρ : Env} {e : Expr} (h : Evals ρ e v) :
    ∃ l, Laters ρ e l ∧ Coincides v l := by
  cases e with
  | var | quote | const => exact ⟨v, h, .refl v⟩
  | _ => exact ⟨_, rfl, (forces_delayed h).symm⟩

namespace Evals

variable {ρ : Env} {x : Name} {f g u : Value} {e e' ea eb ed ef ek el em er es et : Expr}

theorem var (h : ρ.get? x = some v) : Evals ρ (.var x) v := by
  rw [Evals, answer_eval]
  simp only [Eval.evaluate, h, ByName.pure_eq_ok]

theorem quote (c : String) : Evals ρ (.quote c) (.quote c) := by
  rw [Evals, answer_eval]
  rfl

theorem const (c : Const) : Evals ρ (.const c) (.const c) := by
  rw [Evals, answer_eval]
  rfl

theorem unary (c : Unary) (h : Laters ρ e v) : Evals ρ (.unary c e) (.unary c v) := by
  rw [Evals, answer_eval]
  simp only [Eval.evaluate, h, ByName.ok_bind, ByName.pure_eq_ok]

theorem binary (c : Binary) (h : Laters ρ e v) (h' : Laters ρ e' w) :
    Evals ρ (.binary c e e') (.binary c v w) := by
  rw [Evals, answer_eval]
  simp only [Eval.evaluate, h, h', ByName.ok_bind, ByName.pure_eq_ok]

theorem equal (ht : Laters ρ et t) (hl : Laters ρ el v) (hr : Laters ρ er w) :
    Evals ρ (.equal et el er) (.equal t v w) := by
  rw [Evals, answer_eval]
  simp only [Eval.evaluate, ht, hl, hr, ByName.ok_bind, ByName.pure_eq_ok]

theorem quant (q : Quantifier) (x : Name) (er : Expr) (hd : Laters ρ ed d) :
    Evals ρ (.quant q x ed er) (.quant q x d (.code ρ x er)) := by
  rw [Evals, answer_eval]
  simp only [Eval.evaluate, hd, ByName.ok_bind, ByName.pure_eq_ok]

theorem lam (x : Name) (e : Expr) : Evals ρ (.lam x e) (.lam x (.code ρ x e)) := by
  rw [Evals, answer_eval]
  rfl

theorem the (et : Expr) (h : Evals ρ e v) : Evals ρ (.the et e) v := by
  rw [Evals, answer_eval]
  exact h

theorem app (hf : Evals ρ ef f) (ha : Laters ρ ea a) (h : Calls f a v) :
    Evals ρ (.app ef ea) v := by
  rw [Evals, answer_eval]
  simp only [Eval.evaluate, hf, ha, h, ByName.ok_bind]

theorem proj {p : Projection} (ht : Evals ρ et t) (h : Eval.project answer p t = .ok v) :
    Evals ρ (.proj p et) v := by
  rw [Evals, answer_eval]
  simp only [Eval.evaluate, ht, h, ByName.ok_bind]

theorem fold {q : Fold} (hB : Evals ρ e B) (hb : Laters ρ eb b) (ht : Evals ρ et t)
    (hs : Laters ρ es s) (h : Folds q t (some B) b s v) :
    Evals ρ (.fold q et (.the e eb) es) v := by
  rw [Evals, answer_eval]
  simp only [Eval.evaluate, Eval.annotated, hB, hb, ht, hs, h, ByName.ok_bind,
    ByName.pure_eq_ok]

theorem induct {i : Induction} (ht : Evals ρ et t) (hm : Laters ρ em m) (hb : Laters ρ eb b)
    (hs : Laters ρ es s) (h : Inducts i t m b s v) : Evals ρ (.induct i et em eb es) v := by
  rw [Evals, answer_eval]
  simp only [Eval.evaluate, ht, hm, hb, hs, h, ByName.ok_bind]

theorem transport {q : Transport} (ht : Evals ρ et t) (hm : Laters ρ em m) (hb : Laters ρ eb b)
    (h : Transports q t m b v) : Evals ρ (.transport q et em eb) v := by
  rw [Evals, answer_eval]
  simp only [Eval.evaluate, ht, hm, hb, h, ByName.ok_bind]

theorem indAbsurd (ht : Evals ρ et t) (hm : Evals ρ em m) (h : IndAbsurds t m v) :
    Evals ρ (.indAbsurd et em) v := by
  rw [Evals, answer_eval]
  simp only [Eval.evaluate, ht, hm, h, ByName.ok_bind]

theorem indVec (hk : Laters ρ ek k) (ht : Evals ρ et t) (hm : Laters ρ em m) (hb : Laters ρ eb b)
    (hs : Laters ρ es s) (h : IndVecs k t m b s v) : Evals ρ (.indVec ek et em eb es) v := by
  rw [Evals, answer_eval]
  simp only [Eval.evaluate, hk, ht, hm, hb, hs, h, ByName.ok_bind]

theorem trans (hl : Evals ρ el f) (hr : Evals ρ er g) (h : Transes f g v) :
    Evals ρ (.trans el er) v := by
  rw [Evals, answer_eval]
  simp only [Eval.evaluate, hl, hr, h, ByName.ok_bind]

theorem cong (hF : Evals ρ e B) (hf : Laters ρ ef f) (ht : Evals ρ et t)
    (h : Congs t (some B) f v) : Evals ρ (.cong et (.the e ef)) v := by
  rw [Evals, answer_eval]
  simp only [Eval.evaluate, Eval.annotated, hF, hf, ht, h, ByName.ok_bind,
    ByName.pure_eq_ok]

end Evals

end TypeKernel
