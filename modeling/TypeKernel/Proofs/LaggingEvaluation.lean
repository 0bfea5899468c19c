/-
# TypeKernel.Proofs.LaggingEvaluation — evaluation keeps a lag

Let a request be answered on the left, and let the same request be put on the right with values that lag
behind. Then whatever the right side answers lags behind the answer on the left, and it does answer, unless
it may lack annotations (`Brings`). The left side decides how far this is followed: the induction is on the
number of steps that it takes.

The rules of the eliminators look at forced values only, and forcing makes up for the lag (`Formed`). Where code
on the left has an expression for a variable, it is evaluated at once, and the right side merely finds an
entry. That entry lagged behind the expression postponed, and so it lags behind its value
(`Keeps.awaken`).
-/
import TypeKernel.Proofs.Lags

namespace TypeKernel

set_option autoImplicit false

open Machine

/-! ## Computations that are followed -/

/-- If the left computation returns, whatever the right ones return is related to it, and they do return. -/
def Brings {α β : Type} (slack : Slack) (R : α → β → Prop) (x : ByName α) (y : Nat → ByName β) : Prop :=
  ∀ a, x = .ok a → (∀ i b, y i = .ok b → R a b) ∧ (slack.loose ∨ Reaches slack.strict (R a) y)

namespace Brings

variable {α β γ δ : Type} {slack : Slack} {R : α → β → Prop} {S : γ → δ → Prop} {x : ByName α}
  {y : Nat → ByName β}

theorem of_ok {b : β} (h : ∀ a, x = .ok a → R a b) : Brings slack R x fun _ => .ok b := by
  intro a ha
  refine ⟨fun _ b' hb => ?_, .inr (.pure (h a ha))⟩
  cases hb
  exact h a ha

theorem pure {a : α} {b : β} (h : R a b) : Brings slack R (.ok a) fun _ => .ok b :=
  .of_ok fun _ ha => by
    cases ha
    exact h

theorem leftFails {reason : Stop} : Brings slack R (.error reason) y :=
  nofun

theorem rightFails (hl : slack.loose) {reason : Stop} : Brings slack R x fun _ => .error reason :=
  fun _ _ => ⟨nofun, .inl hl⟩

/-- What follows may depend on where its input is from. -/
theorem bindOf {f : α → ByName γ} {g : Nat → β → ByName δ} (h : Brings slack R x y)
    (hfg : ∀ a b, x = .ok a → R a b → Brings slack S (f a) fun i => g i b) :
    Brings slack S (x >>= f) fun i => y i >>= g i := by
  intro c hc
  obtain ⟨a, ha, hc⟩ := Returns.bind (m := ByName) hc
  obtain ⟨related, ends⟩ := h a ha
  refine ⟨fun i d hd => ?_, ?_⟩
  · obtain ⟨b, hb, hd⟩ := Returns.bind (m := ByName) hd
    exact (hfg a b ha (related i b hb) c hc).1 i d hd
  · rcases ends with hl | ends
    · exact .inl hl
    · by_cases hl : slack.loose
      · exact .inl hl
      · exact .inr (ends.bind fun b hb => (hfg a b ha hb c hc).2.resolve_left hl)

theorem bind {f : α → ByName γ} {g : Nat → β → ByName δ} (h : Brings slack R x y)
    (hfg : ∀ a b, R a b → Brings slack S (f a) fun i => g i b) :
    Brings slack S (x >>= f) fun i => y i >>= g i :=
  h.bindOf fun a b _ => hfg a b

theorem succ {y' : Nat → ByName β} (h : Brings slack R x y) (start : ∀ b, y' 0 ≠ .ok b)
    (hy : ∀ i, y' (i + 1) = y i) : Brings slack R x y' := by
  intro a ha
  obtain ⟨related, ends⟩ := h a ha
  refine ⟨fun i b hb => ?_, ends.imp_right fun ends => ends.succ hy⟩
  cases i with
  | zero => exact (start b hb).elim
  | succ i => exact related i b (hy i ▸ hb)

theorem leftAlone {f : α → ByName γ} {z : Nat → ByName δ} (h : ∀ a, Brings slack S (f a) z) :
    Brings slack S (x >>= f) z := by
  intro c hc
  obtain ⟨a, _, hc⟩ := Returns.bind (m := ByName) hc
  exact h a c hc

theorem rightFirst {z : Nat → ByName γ} {g : Nat → γ → ByName β}
    (ends : slack.loose ∨ Reaches slack.strict (fun _ => True) z)
    (h : ∀ i c, z i = .ok c → Brings slack R x fun j => g j c) :
    Brings slack R x fun i => z i >>= g i := by
  intro a ha
  refine ⟨fun i b hb => ?_, ?_⟩
  · obtain ⟨c, hc, hb⟩ := Returns.bind (m := ByName) hb
    exact (h i c hc a ha).1 i b hb
  · rcases ends with hl | ⟨c, -, N, ends⟩ | ⟨lax, d, N, fails⟩
    · exact .inl hl
    · refine (h N c (ends N (Nat.le_refl N)) a ha).2.imp_right fun reaches => ?_
      exact Reaches.bind (P := (· = c)) (.inl ⟨c, rfl, N, ends⟩) fun _ heq => heq ▸ reaches
    · exact .inr (Reaches.bind (P := fun _ => False) (.inr ⟨lax, d, N, fails⟩) nofun)

/-- Annotations around an expression are passed over. -/
theorem clad {R : α → Value → Prop} {ρ : Env} {e e' : Expr}
    (h : Brings slack R x fun i => run i (.eval ρ e)) (hc : Expr.Clad e e') :
    Brings slack R x fun i => run i (.eval ρ e') := by
  induction hc with
  | bare => exact h
  | the t _ ih => exact ih.succ nofun fun _ => rfl

/-- An expression that is postponed lags behind what its value lags behind. -/
theorem late {V : Pairing} {x : ByName Value} {ρ : Env} {e : Expr}
    (h : Brings slack (Trails slack V) x fun i => run i (.eval ρ e)) {v : Value} (hv : x = .ok v) (c : Nat) :
    Trails slack V v (.delayed c ρ e) := by
  obtain ⟨values, ends⟩ := h v hv
  exact .late values (ends.imp_right fun ends => ends.imp fun _ _ => trivial)

end Brings

/-- An annotation may be missing on the right. -/
inductive TrailsOrNone (slack : Slack) (V : Pairing) : Option Value → Option Value → Prop
  | none : TrailsOrNone slack V none none
  | some {v v'} (h : Trails slack V v v') : TrailsOrNone slack V (some v) (some v')
  | missing (hl : slack.loose) (v : Value) : TrailsOrNone slack V (some v) none

/-- An argument with the value of its annotation, if it has one. -/
def TrailsAnnotated (slack : Slack) (V : Pairing) (p q : Option Value × Value) : Prop :=
  TrailsOrNone slack V p.1 q.1 ∧ Trails slack V p.2 q.2

/-- Triples of values that lag behind. -/
def TrailsAll (slack : Slack) (V : Pairing) (p q : Value × Value × Value) : Prop :=
  Trails slack V p.1 q.1 ∧ Trails slack V p.2.1 q.2.1 ∧ Trails slack V p.2.2 q.2.2

/-- Requests about values that lag behind. -/
inductive Request.Lags (slack : Slack) (V : Pairing) : Request → Request → Prop
  | eval {σ ρ ρ' e e'} (meets : Meets slack V σ ρ ρ') (he : Expands slack.strict σ e e') :
      Request.Lags slack V (.eval ρ e) (.eval ρ' e')
  | apply {c c' v v'} (hc : TypeKernel.Lags slack V (.closure c) (.closure c')) (hv : Trails slack V v v') :
      Request.Lags slack V (.apply c v) (.apply c' v')
  | fold {t t' o o' b b' s s'} (f : Fold) (ht : Trails slack V t t') (ho : TrailsOrNone slack V o o')
      (hb : Trails slack V b b') (hs : Trails slack V s s') :
      Request.Lags slack V (.fold f t o b s) (.fold f t' o' b' s')
  | induct {t t' m m' b b' s s'} (i : Induction) (ht : Trails slack V t t') (hm : Trails slack V m m')
      (hb : Trails slack V b b') (hs : Trails slack V s s') :
      Request.Lags slack V (.induct i t m b s) (.induct i t' m' b' s')
  | indVec {n n' t t' m m' b b' s s'} (hn : Trails slack V n n') (ht : Trails slack V t t')
      (hm : Trails slack V m m') (hb : Trails slack V b b') (hs : Trails slack V s s') :
      Request.Lags slack V (.indVec n t m b s) (.indVec n' t' m' b' s')

/-- What is answered on the left in `n` steps is followed on the right. -/
structure Keeps (slack : Slack) (V : Pairing) (n : Nat) : Prop where
  answers : ∀ {r r' : Request}, r.Lags slack V r' →
    Brings slack (Trails slack V) (run n r) fun i => run i r'
  forces : ∀ {v v' : Value}, Trails slack V v v' →
    Brings slack (Formed slack V) (run n (.force v)) fun i => run i (.force v')

theorem Lags.piFamily {slack : Slack} {V : Pairing} (x : Name) {d d' : Value} {f f' : Family}
    (hd : Trails slack V d d') (hf : Lags slack V (.family f) (.family f')) :
    Trails slack V (.piFamily x d f) (.piFamily x d' f') :=
  .quant .pi (fun _ => rfl) hd (.family hf)

/-! ## Eliminators -/

namespace Keeps

variable {slack : Slack} {V : Pairing} {n : Nat} (h : Keeps slack V n)

include h

theorem call {fn fn' arg arg' : Value} (hf : Trails slack V fn fn') (ha : Trails slack V arg arg') :
    Brings slack (Trails slack V) (Eval.call (run n) fn arg) fun i => Eval.call (run i) fn' arg' := by
  refine .bind (h.forces hf) fun v v' hv => ?_
  cases hv with
  | lam _ hb => exact h.answers (.apply hb ha)
  | neutral ht he =>
      refine .bind (h.forces ht) fun t t' ht' => ?_
      cases ht' with
      | quant q _ hd hr =>
          cases q with
          | pi =>
              refine .bind (h.answers (.apply hr ha)) fun r r' hr' => ?_
              exact .pure (.neutral hr' (.app he (.typed hd ha)))
          | sigma => exact .leftFails
      | _ => exact .leftFails
  | _ => exact .leftFails

theorem callBoth {fn fn' a a' b b' : Value} (hf : Trails slack V fn fn') (ha : Trails slack V a a')
    (hb : Trails slack V b b') :
    Brings slack (Trails slack V) (Eval.callBoth (run n) fn a b) fun i =>
      Eval.callBoth (run i) fn' a' b' :=
  .bind (h.call hf ha) fun _ _ hr => h.call hr hb

theorem applyFamily {arg arg' : Value} {f f' : Family} (ha : Trails slack V arg arg')
    (hf : Lags slack V (.family f) (.family f')) :
    Brings slack (Trails slack V) (Eval.applyFamily (run n) arg f) fun i =>
      Eval.applyFamily (run i) arg' f' := by
  cases hf with
  | always ht => exact .pure ht
  | fixed hm hv => exact h.call hm hv
  | fixedBoth hm hv hw => exact h.callBoth hm hv hw
  | wrapped u hm => exact h.call hm (.unary u ha)
  | natStep hm =>
      refine .bind (h.call hm ha) fun t t' ht => ?_
      exact .pure (.piFamily _ ht (.fixed hm (.unary .add1 ha)))
  | listStep he hm => exact .pure (.piFamily _ (.unary .list he) (.listStepTail hm ha))
  | listStepTail hm hv =>
      refine .bind (h.call hm ha) fun t t' ht => ?_
      exact .pure (.piFamily _ ht (.fixed hm (.binary .listCons hv ha)))
  | vecMotive he => exact .pure (.piFamily _ (.binary .vec he ha) (.always (.const .univ)))
  | vecStep he hm => exact .pure (.piFamily _ he (.vecStepHead he hm ha))
  | vecStepHead he hm hn => exact .pure (.piFamily _ (.binary .vec he hn) (.vecStepTail hm hn ha))
  | vecStepTail hm hn hv =>
      refine .bind (h.callBoth hm hn ha) fun t t' ht => ?_
      exact .pure (.piFamily _ ht (.fixedBoth hm (.unary .add1 hn) (.binary .vecCons hv ha)))
  | equalMotive ht hl => exact .pure (.piFamily _ (.equal ht hl ha) (.always (.const .univ)))

omit h in
theorem requireType (eliminator : Eliminator) {o o' : Option Value} (ho : TrailsOrNone slack V o o') :
    Brings slack (Trails slack V) (Eval.requireType eliminator o) fun _ =>
      Eval.requireType eliminator o' := by
  cases ho with
  | none => exact .leftFails
  | some hv => exact .pure hv
  | missing hl v => exact .rightFails hl

theorem entryType (eliminator : Eliminator) {t t' : Value} {e e' : Neutral} (ht : Trails slack V t t') :
    Brings slack (Trails slack V) (Eval.entryType (run n) eliminator t e) fun i =>
      Eval.entryType (run i) eliminator t' e' := by
  refine .bind (h.forces ht) fun v v' hv => ?_
  cases hv with
  | unary u hv =>
      cases u with
      | list => exact .pure hv
      | _ => exact .leftFails
  | _ => exact .leftFails

theorem equalityOf (eliminator : Eliminator) {t t' : Value} {e e' : Neutral} (ht : Trails slack V t t') :
    Brings slack (TrailsAll slack V) (Eval.equalityOf (run n) eliminator t e) fun i =>
      Eval.equalityOf (run i) eliminator t' e' := by
  refine .bind (h.forces ht) fun v v' hv => ?_
  cases hv with
  | equal ht hl hr => exact .pure ⟨ht, hl, hr⟩
  | _ => exact .leftFails

theorem project (p : Projection) {t t' : Value} (ht : Trails slack V t t') :
    Brings slack (Trails slack V) (Eval.project (run n) p t) fun i => Eval.project (run i) p t' := by
  cases p with
  | car =>
      refine .bind (h.forces ht) fun v v' hv => ?_
      cases hv with
      | binary b ha hd =>
          cases b with
          | cons => exact .pure ha
          | _ => exact .leftFails
      | neutral ht he =>
          refine .bind (h.forces ht) fun t t' ht' => ?_
          cases ht' with
          | quant q _ hd _ =>
              cases q with
              | pi => exact .leftFails
              | sigma => exact .pure (.neutral hd (.proj .car he))
          | _ => exact .leftFails
      | _ => exact .leftFails
  | cdr =>
      refine .bind (h.forces ht) fun v v' hv => ?_
      cases hv with
      | binary b ha hd =>
          cases b with
          | cons => exact .pure hd
          | _ => exact .leftFails
      | neutral ht he =>
          refine .bind (h.forces ht) fun t t' ht' => ?_
          cases ht' with
          | quant q _ hd hr =>
              cases q with
              | pi => exact .leftFails
              | sigma =>
                  refine .bind (h.answers (.apply hr (.neutral hd (.proj .car he)))) fun r r' hr' => ?_
                  exact .pure (.neutral hr' (.proj .cdr he))
          | _ => exact .leftFails
      | _ => exact .leftFails
  | head =>
      refine .bind (h.forces ht) fun v v' hv => ?_
      cases hv with
      | binary b he hes =>
          cases b with
          | vecCons => exact .pure he
          | _ => exact .leftFails
      | neutral ht he =>
          refine .bind (h.forces ht) fun t t' ht' => ?_
          cases ht' with
          | binary b hentry _ =>
              cases b with
              | vec => exact .pure (.neutral hentry (.proj .head he))
              | _ => exact .leftFails
          | _ => exact .leftFails
      | _ => exact .leftFails
  | tail =>
      refine .bind (h.forces ht) fun v v' hv => ?_
      cases hv with
      | binary b he hes =>
          cases b with
          | vecCons => exact .pure hes
          | _ => exact .leftFails
      | neutral ht he =>
          refine .bind (h.forces ht) fun t t' ht' => ?_
          cases ht' with
          | binary b hentry hn =>
              cases b with
              | vec =>
                  refine .bind (h.forces hn) fun k k' hk => ?_
                  cases hk with
                  | unary u hk =>
                      cases u with
                      | add1 => exact .pure (.neutral (.binary .vec hentry hk) (.proj .tail he))
                      | _ => exact .leftFails
                  | _ => exact .leftFails
              | _ => exact .leftFails
          | _ => exact .leftFails
      | _ => exact .leftFails
  | symm =>
      refine .bind (h.forces ht) fun v v' hv => ?_
      cases hv with
      | unary u hv =>
          cases u with
          | same => exact .pure (.unary .same hv)
          | _ => exact .leftFails
      | neutral ht he =>
          refine .bind (h.equalityOf _ ht) fun p q hp => ?_
          exact .pure (.neutral (.equal hp.1 hp.2.2 hp.2.1) (.proj .symm he))
      | _ => exact .leftFails

omit h in
theorem natFoldStep {stepType : Value → Value} {v v' : Value} (hv : Trails slack V v v')
    (hs : stepType = Value.whichNatStep ∨ stepType = Value.iterNatStep ∨
      stepType = Value.recNatStep) : Trails slack V (stepType v) (stepType v') := by
  rcases hs with rfl | rfl | rfl
  · exact .piFamily _ (.const .nat) (.always hv)
  · exact .piFamily _ hv (.always hv)
  · exact .piFamily _ (.const .nat) (.always (.piFamily _ hv (.always hv)))

omit h in
theorem stuckNatFold (f : Fold) {stepType : Value → Value} {e e' : Neutral} {o o' : Option Value}
    {b b' s s' : Value}
    (hstep : stepType = Value.whichNatStep ∨ stepType = Value.iterNatStep ∨
      stepType = Value.recNatStep)
    (he : Lags slack V (.neutral e) (.neutral e')) (ho : TrailsOrNone slack V o o')
    (hb : Trails slack V b b') (hs : Trails slack V s s') :
    Brings slack (Trails slack V) (Eval.stuckNatFold f stepType e o b s) fun _ =>
      Eval.stuckNatFold f stepType e' o' b' s' := by
  refine .bind (requireType _ ho) fun t t' ht => ?_
  exact .pure (.neutral ht (.fold f he (.typed ht hb) (.typed (natFoldStep ht hstep) hs)))

theorem fold (f : Fold) {t t' : Value} {o o' : Option Value} {b b' s s' : Value}
    (ht : Trails slack V t t') (ho : TrailsOrNone slack V o o') (hb : Trails slack V b b')
    (hs : Trails slack V s s') :
    Brings slack (Trails slack V) (Eval.fold (run n) f t o b s) fun i =>
      Eval.fold (run i) f t' o' b' s' := by
  cases f with
  | whichNat =>
      refine .bind (h.forces ht) fun v v' hv => ?_
      cases hv with
      | const c =>
          cases c with
          | zero => exact .pure hb
          | _ => exact .leftFails
      | unary u hv =>
          cases u with
          | add1 => exact h.call hs hv
          | _ => exact .leftFails
      | neutral ht he => exact stuckNatFold _ (.inl rfl) he ho hb hs
      | _ => exact .leftFails
  | iterNat =>
      refine .bind (h.forces ht) fun v v' hv => ?_
      cases hv with
      | const c =>
          cases c with
          | zero => exact .pure hb
          | _ => exact .leftFails
      | unary u hv =>
          cases u with
          | add1 => exact .bind (h.answers (.fold .iterNat hv ho hb hs)) fun r r' hr => h.call hs hr
          | _ => exact .leftFails
      | neutral ht he => exact stuckNatFold _ (.inr (.inl rfl)) he ho hb hs
      | _ => exact .leftFails
  | recNat =>
      refine .bind (h.forces ht) fun v v' hv => ?_
      cases hv with
      | const c =>
          cases c with
          | zero => exact .pure hb
          | _ => exact .leftFails
      | unary u hv =>
          cases u with
          | add1 =>
              refine .bind (h.call hs hv) fun fn fn' hfn => ?_
              exact .bind (h.answers (.fold .recNat hv ho hb hs)) fun r r' hr => h.call hfn hr
          | _ => exact .leftFails
      | neutral ht he => exact stuckNatFold _ (.inr (.inr rfl)) he ho hb hs
      | _ => exact .leftFails
  | recList =>
      refine .bind (h.forces ht) fun v v' hv => ?_
      cases hv with
      | const c =>
          cases c with
          | nil => exact .pure hb
          | _ => exact .leftFails
      | binary c he hes =>
          cases c with
          | listCons =>
              refine .bind (h.callBoth hs he hes) fun fn fn' hfn => ?_
              exact .bind (h.answers (.fold .recList hes ho hb hs)) fun r r' hr => h.call hfn hr
          | _ => exact .leftFails
      | neutral ht he =>
          refine .bind (requireType _ ho) fun t t' ht' => ?_
          refine .bind (h.entryType _ ht) fun entry entry' hentry => ?_
          have step : Trails slack V (Value.recListStep entry t) (Value.recListStep entry' t') :=
            .piFamily _ hentry (.always (.piFamily _ (.unary .list hentry)
              (.always (.piFamily _ ht' (.always ht')))))
          exact .pure (.neutral ht' (.fold .recList he (.typed ht' hb) (.typed step hs)))
      | _ => exact .leftFails

theorem induct (i : Induction) {t t' mo mo' b b' s s' : Value} (ht : Trails slack V t t')
    (hm : Trails slack V mo mo') (hb : Trails slack V b b') (hs : Trails slack V s s') :
    Brings slack (Trails slack V) (Eval.induct (run n) i t mo b s) fun j =>
      Eval.induct (run j) i t' mo' b' s' := by
  cases i with
  | indNat =>
      refine .bind (h.forces ht) fun v v' hv => ?_
      cases hv with
      | const c =>
          cases c with
          | zero => exact .pure hb
          | _ => exact .leftFails
      | unary u hv =>
          cases u with
          | add1 =>
              refine .bind (h.call hs hv) fun fn fn' hfn => ?_
              exact .bind (h.answers (.induct .indNat hv hm hb hs)) fun r r' hr => h.call hfn hr
          | _ => exact .leftFails
      | neutral ht he =>
          refine .bind (h.call hm (.neutral ht he)) fun r r' hr => ?_
          refine .bind (h.call hm (.const .zero)) fun z z' hz => ?_
          exact .pure (.neutral hr (.induct .indNat he
            (.typed (.piFamily _ (.const .nat) (.always (.const .univ))) hm) (.typed hz hb)
            (.typed (.piFamily _ (.const .nat) (.natStep hm)) hs)))
      | _ => exact .leftFails
  | indList =>
      refine .bind (h.forces ht) fun v v' hv => ?_
      cases hv with
      | const c =>
          cases c with
          | nil => exact .pure hb
          | _ => exact .leftFails
      | binary c he hes =>
          cases c with
          | listCons =>
              refine .bind (h.callBoth hs he hes) fun fn fn' hfn => ?_
              exact .bind (h.answers (.induct .indList hes hm hb hs)) fun r r' hr => h.call hfn hr
          | _ => exact .leftFails
      | neutral ht he =>
          refine .bind (h.entryType _ ht) fun entry entry' hentry => ?_
          refine .bind (h.call hm (.neutral ht he)) fun r r' hr => ?_
          refine .bind (h.call hm (.const .nil)) fun z z' hz => ?_
          exact .pure (.neutral hr (.induct .indList he
            (.typed (.piFamily _ (.unary .list hentry) (.always (.const .univ))) hm) (.typed hz hb)
            (.typed (.piFamily _ hentry (.listStep hentry hm)) hs)))
      | _ => exact .leftFails
  | indEither =>
      refine .bind (h.forces ht) fun v v' hv => ?_
      cases hv with
      | unary u hv =>
          cases u with
          | left => exact h.call hb hv
          | right => exact h.call hs hv
          | _ => exact .leftFails
      | neutral ht he =>
          refine .bind (h.forces ht) fun t t' ht' => ?_
          cases ht' with
          | binary c hl hr =>
              cases c with
              | either =>
                  refine .bind (h.call hm (.neutral ht he)) fun r r' hr' => ?_
                  exact .pure (.neutral hr' (.induct .indEither he
                    (.typed (.piFamily _ (.binary .either hl hr) (.always (.const .univ))) hm)
                    (.typed (.piFamily _ hl (.wrapped .left hm)) hb)
                    (.typed (.piFamily _ hr (.wrapped .right hm)) hs)))
              | _ => exact .leftFails
          | _ => exact .leftFails
      | _ => exact .leftFails

theorem indVec {k k' t t' mo mo' b b' s s' : Value} (hk : Trails slack V k k')
    (ht : Trails slack V t t') (hm : Trails slack V mo mo') (hb : Trails slack V b b')
    (hs : Trails slack V s s') :
    Brings slack (Trails slack V) (Eval.indVec (run n) k t mo b s) fun i =>
      Eval.indVec (run i) k' t' mo' b' s' := by
  refine .bind (h.forces ht) fun v v' hv => ?_
  cases hv with
  | const c =>
      cases c with
      | vecNil => exact .pure hb
      | _ => exact .leftFails
  | binary c he hes =>
      cases c with
      | vecCons =>
          refine .bind (h.forces hk) fun l l' hl => ?_
          cases hl with
          | unary u hl =>
              cases u with
              | add1 =>
                  refine .bind (h.callBoth hs hl he) fun f f' hf => ?_
                  refine .bind (h.call hf hes) fun f f' hf => ?_
                  exact .bind (h.answers (.indVec hl hes hm hb hs)) fun r r' hr => h.call hf hr
              | _ => exact .leftFails
          | _ => exact .leftFails
      | _ => exact .leftFails
  | neutral ht he =>
      refine .bind (h.forces ht) fun t t' ht' => ?_
      cases ht' with
      | binary c hentry _ =>
          cases c with
          | vec =>
              refine .bind (h.callBoth hm hk (.neutral ht he)) fun r r' hr => ?_
              refine .bind (h.callBoth hm (.const .zero) (.const .vecNil)) fun z z' hz => ?_
              exact .pure (.neutral hr (.indVec (.typed (.const .nat) hk) he
                (.typed (.piFamily _ (.const .nat) (.vecMotive hentry)) hm) (.typed hz hb)
                (.typed (.piFamily _ (.const .nat) (.vecStep hentry hm)) hs)))
          | _ => exact .leftFails
      | _ => exact .leftFails
  | _ => exact .leftFails

theorem indAbsurd {t t' mo mo' : Value} (ht : Trails slack V t t') (hm : Trails slack V mo mo') :
    Brings slack (Trails slack V) (Eval.indAbsurd (run n) t mo) fun i =>
      Eval.indAbsurd (run i) t' mo' := by
  refine .bind (h.forces ht) fun v v' hv => ?_
  cases hv with
  | neutral _ he => exact .pure (.neutral hm (.indAbsurd he (.typed (.const .univ) hm)))
  | _ => exact .leftFails

theorem transport (k : Transport) {t t' mo mo' b b' : Value} (ht : Trails slack V t t')
    (hm : Trails slack V mo mo') (hb : Trails slack V b b') :
    Brings slack (Trails slack V) (Eval.transport (run n) k t mo b) fun i =>
      Eval.transport (run i) k t' mo' b' := by
  cases k with
  | replace =>
      refine .bind (h.forces ht) fun v v' hv => ?_
      cases hv with
      | unary u hv =>
          cases u with
          | same => exact .pure hb
          | _ => exact .leftFails
      | neutral ht he =>
          refine .bind (h.equalityOf _ ht) fun p q hp => ?_
          refine .bind (h.call hm hp.2.2) fun r r' hr => ?_
          refine .bind (h.call hm hp.2.1) fun z z' hz => ?_
          exact .pure (.neutral hr (.transport .replace he
            (.typed (.piFamily _ hp.1 (.always (.const .univ))) hm) (.typed hz hb)))
      | _ => exact .leftFails
  | indEqual =>
      refine .bind (h.forces ht) fun v v' hv => ?_
      cases hv with
      | unary u hv =>
          cases u with
          | same => exact .pure hb
          | _ => exact .leftFails
      | neutral ht he =>
          refine .bind (h.equalityOf _ ht) fun p q hp => ?_
          refine .bind (h.callBoth hm hp.2.2 (.neutral ht he)) fun r r' hr => ?_
          refine .bind (h.callBoth hm hp.2.1 (.unary .same hp.2.1)) fun z z' hz => ?_
          exact .pure (.neutral hr (.transport .indEqual he
            (.typed (.piFamily _ hp.1 (.equalMotive hp.1 hp.2.1)) hm) (.typed hz hb)))
      | _ => exact .leftFails

theorem trans {l l' r r' : Value} (hl : Trails slack V l l') (hr : Trails slack V r r') :
    Brings slack (Trails slack V) (Eval.trans (run n) l r) fun i => Eval.trans (run i) l' r' := by
  refine .bind (h.forces hl) fun v v' hv => ?_
  refine .bind (h.forces hr) fun w w' hw => ?_
  cases hv with
  | unary u hv =>
      cases u with
      | same =>
          cases hw with
          | unary u hw =>
              cases u with
              | same => exact .pure (.unary .same hv)
              | _ => exact .leftFails
          | neutral ht he =>
              refine .bind (h.equalityOf _ ht) fun p q hp => ?_
              exact .pure (.neutral (.equal hp.1 hv hp.2.2)
                (.trans (.typed (.equal hp.1 hv hv) (.unary .same hv))
                  (.typed (.equal hp.1 hp.2.1 hp.2.2) (.neutral ht he))))
          | _ => exact .leftFails
      | _ => cases hw <;> exact .leftFails
  | neutral ht he =>
      cases hw with
      | unary u hw =>
          cases u with
          | same =>
              refine .bind (h.equalityOf _ ht) fun p q hp => ?_
              exact .pure (.neutral (.equal hp.1 hp.2.1 hw)
                (.trans (.typed (.equal hp.1 hp.2.1 hp.2.2) (.neutral ht he))
                  (.typed (.equal hp.1 hw hw) (.unary .same hw))))
          | _ => exact .leftFails
      | neutral ht' he' =>
          refine .bind (h.equalityOf _ ht) fun p q hp => ?_
          refine .bind (h.equalityOf _ ht') fun p' q' hp' => ?_
          exact .pure (.neutral (.equal hp.1 hp.2.1 hp'.2.2)
            (.trans (.typed (.equal hp.1 hp.2.1 hp.2.2) (.neutral ht he))
              (.typed (.equal hp'.1 hp'.2.1 hp'.2.2) (.neutral ht' he'))))
      | _ => exact .leftFails
  | _ => cases hw <;> exact .leftFails

theorem cong {t t' : Value} {o o' : Option Value} {f f' : Value} (ht : Trails slack V t t')
    (ho : TrailsOrNone slack V o o') (hf : Trails slack V f f') :
    Brings slack (Trails slack V) (Eval.cong (run n) t o f) fun i => Eval.cong (run i) t' o' f' := by
  refine .bind (h.forces ht) fun v v' hv => ?_
  cases hv with
  | unary u hv =>
      cases u with
      | same => exact .bind (h.call hf hv) fun r r' hr => .pure (.unary .same hr)
      | _ => exact .leftFails
  | neutral ht he =>
      refine .bind (h.equalityOf _ ht) fun p q hp => ?_
      refine .bind (requireType _ ho) fun t t' ht' => ?_
      refine .bind (h.forces ht') fun t t' ht' => ?_
      cases ht' with
      | quant q hx hd hr =>
          cases q with
          | pi =>
              refine .bind (h.answers (.apply hr hp.2.1)) fun a a' ha => ?_
              refine .bind (h.call hf hp.2.1) fun l l' hl => ?_
              refine .bind (h.call hf hp.2.2) fun r r' hr' => ?_
              exact .pure (.neutral (.equal ha hl hr') (.cong he (.typed (.quant .pi hx hd hr) hf)))
          | sigma => exact .leftFails
      | _ => exact .leftFails
  | _ => exact .leftFails

end Keeps

/-! ## Evaluation -/

theorem Eval.later?_of_later {n : Nat} {ρ : Env} {e : Expr} {v : Value}
    (h : Eval.later (run n) ρ e = (.ok v : ByName Value)) : ρ.later? e = some v := by
  cases e with
  | var x =>
      cases n with
      | zero => cases h
      | succ n =>
          change Eval.evaluate (run n) ρ (.var x) = _ at h
          simp only [Eval.evaluate] at h
          show ρ.get? x = some v
          cases hx : ρ.get? x with
          | none =>
              rw [hx] at h
              cases h
          | some w =>
              rw [hx] at h
              cases h
              rfl
  | quote a | const c =>
      cases n with
      | zero => cases h
      | succ n => cases h; rfl
  | _ => cases h; rfl

theorem Eval.later?_of_evaluate {n : Nat} {ρ : Env} {e : Expr} {v : Value}
    (h : Eval.evaluate (run n) ρ e = (.ok v : ByName Value)) :
    ρ.later? e = some v ∨ ρ.later? e = some (.delayed 0 ρ e) := by
  cases e with
  | var x => exact .inl (Eval.later?_of_later (n := n + 1) h)
  | quote a | const c => cases h; exact .inl rfl
  | _ => exact .inr rfl

theorem Eval.later_of_later? {ρ : Env} {e : Expr} {v : Value} (h : ρ.later? e = some v) (n : Nat) :
    Eval.later (run (n + 1)) ρ e = (.ok v : ByName Value) := by
  cases e with
  | var x =>
      change Eval.evaluate (run n) ρ (.var x) = _
      have h : ρ.get? x = some v := h
      simp only [Eval.evaluate, h]
      rfl
  | _ => cases h; rfl

theorem Eval.later_reaches {ρ : Env} {e : Expr} {v : Value} (h : ρ.later? e = some v) {strict : Prop} :
    Reaches strict (· = v) fun i => Eval.later (run i) ρ e := by
  refine .inl ⟨v, rfl, 1, fun i hi => ?_⟩
  obtain ⟨j, rfl⟩ := Nat.exists_eq_add_of_le' hi
  exact Eval.later_of_later? h j

namespace Meets

variable {slack : Slack} {V : Pairing} {σ : Placing} {ρ ρ' : Env}

theorem later? (meets : Meets slack V σ ρ ρ') {e e' : Expr} (he : Expands slack.strict σ e e') {v : Value}
    (hv : ρ.later? e = some v) : ∃ v', ρ'.later? e' = some v' ∧ Trails slack V v v' := by
  have both := meets.delayed he 0 0
  cases he with
  | var hx =>
      obtain ⟨v', hv'⟩ := Option.isSome_iff_exists.1 (meets.bound _ _ hx (hv ▸ rfl))
      exact ⟨v', hv', meets.entries _ _ v v' hx hv hv'⟩
  | quote a => cases hv; exact ⟨_, rfl, .quote a⟩
  | const c => cases hv; exact ⟨_, rfl, .const c⟩
  | _ => cases hv; exact ⟨_, rfl, both⟩

/-- What is postponed on the left is postponed or there on the right. -/
theorem later (meets : Meets slack V σ ρ ρ') {e e' : Expr} (he : Expands slack.strict σ e e') (n : Nat) :
    Brings slack (Trails slack V) (Eval.later (run n) ρ e) fun i => Eval.later (run i) ρ' e' := by
  intro v hv
  obtain ⟨v', hv', related⟩ := meets.later? he (Eval.later?_of_later hv)
  refine ⟨fun i w hw => ?_, .inr ((Eval.later_reaches hv').imp fun _ same => same ▸ related)⟩
  cases hv'.symm.trans (Eval.later?_of_later hw)
  exact related

end Meets

namespace Keeps

variable {slack : Slack} {V : Pairing} {n : Nat} (h : Keeps slack V n) {σ : Placing} {ρ ρ' : Env}

include h

theorem annotated (meets : Meets slack V σ ρ ρ') {e e' : Expr} (he : Expands slack.strict σ e e') :
    Brings slack (TrailsAnnotated slack V) (Eval.annotated (run n) ρ e) fun i =>
      Eval.annotated (run i) ρ' e' := by
  have plain : Brings slack (TrailsAnnotated slack V)
      (Eval.later (run n) ρ e >>= fun v => Pure.pure (none, v)) fun i =>
        Eval.later (run i) ρ' e' >>= fun v => Pure.pure (none, v) :=
    .bind (meets.later he n) fun _ _ hv => .pure ⟨.none, hv⟩
  cases he with
  | the ht he =>
      refine .bind (h.answers (.eval meets ht)) fun t t' ht' => ?_
      exact .bind (meets.later he n) fun v v' hv => .pure ⟨.some ht', hv⟩
  | @var _ _ x hx =>
      cases e with
      | the t c =>
          -- The annotation of what stands for the variable is lost on the right.
          obtain ⟨hl, hc⟩ := meets.bares t c x hx
          refine .leftAlone fun t => ?_
          exact .bind (meets.later (.var hc) n) fun v v' hv => .pure ⟨.missing hl t, hv⟩
      | _ => exact plain
  | _ => exact plain

/-- Evaluation keeps a lag, if it does so where the left expression stands for a variable and is not cheap. -/
theorem evaluateWith (meets : Meets slack V σ ρ ρ') {e e' : Expr} (he : Expands slack.strict σ e e')
    (placed : ∀ x w v, σ e x → ρ.later? e = some (.delayed 0 ρ e) → ρ'.get? x = some w →
      Eval.evaluate (run n) ρ e = (.ok v : ByName Value) → Trails slack V v w) :
    Brings slack (Trails slack V) (Eval.evaluate (run n) ρ e) fun i =>
      Eval.evaluate (run i) ρ' e' := by
  have eval : ∀ {e e'}, Expands slack.strict σ e e' →
      Brings slack (Trails slack V) (run n (.eval ρ e)) fun i => run i (.eval ρ' e') :=
    fun he => h.answers (.eval meets he)
  have later : ∀ {e e'}, Expands slack.strict σ e e' → Brings slack (Trails slack V) (Eval.later (run n) ρ e)
      fun i => Eval.later (run i) ρ' e' := fun he => meets.later he n
  cases he with
  | @var _ _ x hx =>
      intro v hv
      have there : (ρ.later? e).isSome := by
        rcases Eval.later?_of_evaluate hv with here | postponed
        · exact here ▸ rfl
        · exact postponed ▸ rfl
      obtain ⟨w, hw⟩ := Option.isSome_iff_exists.1 (meets.bound e x hx there)
      have related : Trails slack V v w := by
        rcases Eval.later?_of_evaluate hv with here | postponed
        · exact meets.entries e x v w hx here hw
        · exact placed x w v hx postponed hw hv
      have found : ∀ i, Eval.evaluate (run i) ρ' (.var x) = (.ok w : ByName Value) := fun i => by
        simp only [Eval.evaluate, hw]
        rfl
      simp only [found]
      exact Brings.pure related v rfl
  | quote a => exact .pure (.quote a)
  | const c => exact .pure (.const c)
  | unary u he => exact .bind (later he) fun _ _ hv => .pure (.unary u hv)
  | binary b h₁ h₂ =>
      refine .bind (later h₁) fun v v' hv => ?_
      exact .bind (later h₂) fun w w' hw => .pure (.binary b hv hw)
  | equal ht hl hr =>
      refine .bind (later ht) fun t t' ht' => ?_
      refine .bind (later hl) fun l l' hl' => ?_
      exact .bind (later hr) fun r r' hr' => .pure (.equal ht' hl' hr')
  | quant q hy hd hr => exact .bind (later hd) fun d d' hd' => .pure (.quant q hy hd' (meets.code hr))
  | lam hy hb => exact .pure (.lam hy (meets.code hb))
  | the _ he => exact eval he
  | app hf ha =>
      refine .bind (eval hf) fun f f' hf' => ?_
      exact .bind (later ha) fun a a' ha' => h.call hf' ha'
  | proj p ht => exact .bind (eval ht) fun _ _ ht' => h.project p ht'
  | fold f ht hb hs =>
      refine .bind (h.annotated meets hb) fun b b' hb' => ?_
      refine .bind (eval ht) fun t t' ht' => ?_
      refine .bind (later hs) fun s s' hs' => ?_
      exact h.answers (.fold f ht' hb'.1 hb'.2 hs')
  | induct i ht hm hb hs =>
      refine .bind (eval ht) fun t t' ht' => ?_
      refine .bind (later hm) fun m m' hm' => ?_
      refine .bind (later hb) fun b b' hb' => ?_
      refine .bind (later hs) fun s s' hs' => ?_
      exact h.answers (.induct i ht' hm' hb' hs')
  | transport k ht hm hb =>
      refine .bind (eval ht) fun t t' ht' => ?_
      refine .bind (later hm) fun m m' hm' => ?_
      exact .bind (later hb) fun b b' hb' => h.transport k ht' hm' hb'
  | indAbsurd ht hm =>
      refine .bind (eval ht) fun t t' ht' => ?_
      exact .bind (eval hm) fun m m' hm' => h.indAbsurd ht' hm'
  | indVec hk ht hm hb hs =>
      refine .bind (later hk) fun k k' hk' => ?_
      refine .bind (eval ht) fun t t' ht' => ?_
      refine .bind (later hm) fun m m' hm' => ?_
      refine .bind (later hb) fun b b' hb' => ?_
      refine .bind (later hs) fun s s' hs' => ?_
      exact h.answers (.indVec hk' ht' hm' hb' hs')
  | trans hl hr =>
      refine .bind (eval hl) fun l l' hl' => ?_
      exact .bind (eval hr) fun r r' hr' => h.trans hl' hr'
  | cong ht hf =>
      refine .bind (h.annotated meets hf) fun f f' hf' => ?_
      exact .bind (eval ht) fun t t' ht' => h.cong ht' hf'.1 hf'.2
  | todo => exact .leftFails
  | malformed m => exact .leftFails

theorem awaken {c : Nat} {e : Expr} {w : Value} (hw : Trails slack V (.delayed c ρ e) w) {v : Value}
    (hv : Eval.evaluate (run n) ρ e = (.ok v : ByName Value)) : Trails slack V v w := by
  generalize hu : Value.delayed c ρ e = u at hw
  induction hw using Trails.induct generalizing c e v with
  | formed hw => cases hw <;> cases hu
  | delayed meets ih he clad =>
      cases hu
      have evaluates := h.evaluateWith meets he fun x w v hσ postponed hw hv =>
        ih _ x _ w hσ postponed hw hv rfl
      have runs : Brings slack (Trails slack V) (Eval.evaluate (run n) ρ _) fun i =>
          run i (.eval _ _) := evaluates.succ nofun fun _ => rfl
      exact (runs.clad clad).late hv _
  | late values ends ih => exact .late (fun i w hw => ih i w hw hv hu) ends

theorem evaluate (meets : Meets slack V σ ρ ρ') {e e' : Expr} (he : Expands slack.strict σ e e') :
    Brings slack (Trails slack V) (Eval.evaluate (run n) ρ e) fun i =>
      Eval.evaluate (run i) ρ' e' :=
  h.evaluateWith meets he fun x w _ hσ postponed hw hv =>
    h.awaken (meets.entries e x _ w hσ postponed hw) hv

theorem apply {c c' : Closure} {v v' : Value} (hc : Lags slack V (.closure c) (.closure c'))
    (hv : Trails slack V v v') :
    Brings slack (Trails slack V) (Eval.apply (run n) v c) fun i => Eval.apply (run i) v' c' := by
  cases hc with
  | code σ bares entries bound hb =>
      have meets : Meets slack V σ _ _ := ⟨bares, entries, bound⟩
      exact h.answers (.eval (meets.extend _ _ hv) hb)
  | family hf => exact h.applyFamily hv hf

theorem force {v v' : Value} (hv : Trails slack V v v') :
    Brings slack (Formed slack V) (Eval.force (run n) v) fun i => run i (.force v') := by
  induction hv using Trails.induct with
  | formed hv =>
      have here : Brings slack (Formed slack V) (.ok _) fun _ => .ok _ := .pure hv
      refine .succ ?_ nofun fun _ => rfl
      cases hv <;> exact here
  | delayed meets ih he clad =>
      refine .succ ?_ nofun fun i => Eval.force_delayed (run i) _ _ _
      rw [Eval.force_delayed]
      exact .bind ((h.answers (.eval meets he)).clad clad) fun v v' hv => h.forces hv
  | late values ends ih =>
      refine .succ ?_ nofun fun i => Eval.force_delayed (run i) _ _ _
      exact .rightFirst ends ih

theorem step {r r' : Request} (hr : r.Lags slack V r') :
    Brings slack (Trails slack V) (Eval.step (run n) r) fun i => Eval.step (run i) r' := by
  cases hr with
  | eval meets he => exact h.evaluate meets he
  | apply hc hv => exact h.apply hc hv
  | fold f ht ho hb hs => exact h.fold f ht ho hb hs
  | induct i ht hm hb hs => exact h.induct i ht hm hb hs
  | indVec hk ht hm hb hs => exact h.indVec hk ht hm hb hs

end Keeps

theorem keeps (slack : Slack) (V : Pairing) (n : Nat) : Keeps slack V n := by
  induction n with
  | zero => exact ⟨fun _ => .leftFails, fun _ => .leftFails⟩
  | succ n ih => exact ⟨fun hr => (ih.step hr).succ nofun fun _ => rfl, fun hv => ih.force hv⟩

theorem Lags.forced {slack : Slack} {V : Pairing} {n : Nat} {v w u : Value} (h : Trails slack V v w)
    (hu : run n (.force v) = (.ok u : ByName Value)) : Trails slack V u w := by
  induction n generalizing v with
  | zero => cases hu
  | succ n ih =>
      cases v with
      | delayed c ρ e =>
          change Eval.force (run n) (.delayed c ρ e) = _ at hu
          rw [Eval.force_delayed] at hu
          obtain ⟨v, hv, hu⟩ := Returns.bind (m := ByName) hu
          cases n with
          | zero => cases hv
          | succ n => exact ih ((keeps slack V n).awaken h hv) hu
      | _ =>
          cases hu
          exact h

end TypeKernel
