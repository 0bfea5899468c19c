/-
# TypeKernel.Proofs.LaggingReadBack — reading back what lags behind

Read-back looks at forced values only, and forcing makes up for a lag. So what lags behind a value reads back
as the value does, up to the names of binders (`reads_along`). The right side chooses names of its own, and
it ends with a numeral that is too long if none is left.
-/
import TypeKernel.Proofs.LaggingEvaluation

namespace TypeKernel

set_option autoImplicit false

open Machine

/-- Readings of what lags behind. -/
inductive Reading.Lags (slack : Slack) (V : Pairing) : Reading → Reading → Prop
  | value {A A' v v'} (hA : Trails slack V A A') (hv : Trails slack V v v') :
      Reading.Lags slack V (.value A v) (.value A' v')
  | type {v v'} (hv : Trails slack V v v') : Reading.Lags slack V (.type v) (.type v')
  | neutral {e e'} (he : TypeKernel.Lags slack V (.neutral e) (.neutral e')) :
      Reading.Lags slack V (.neutral e) (.neutral e')

theorem Typed.reading_lags {slack : Slack} {V : Pairing} {t t' : Typed}
    (h : Lags slack V (.typed t) (.typed t')) : t.reading.Lags slack V t'.reading := by
  cases h with
  | typed hA hv => exact .value hA hv

/-- Expressions written in two contexts whose names need not agree. -/
abbrev Transcribed (strict : Prop) (V : Pairing) (Γ Γ' : Context) : Expr → Expr → Prop :=
  Alike (Chosen strict Γ.names Γ'.names) V

/-- What is read on the left with readings nested at most `n` deep is read on the right. -/
def ReadsAlong (slack : Slack) (n : Nat) : Prop :=
  ∀ {V : Pairing} {Γ Γ' : Context} {r r' : Reading}, V.Fits slack.strict Γ.names Γ'.names →
    r.Lags slack V r' → Brings slack (Transcribed slack.strict V Γ Γ') (readings n Γ r) fun i => readings i Γ' r'

theorem Resembles.of_transcribed {strict : Prop} {V : Pairing} {Γ Γ' : Context} {y y' : Name} {d d' : Value}
    {e e' : Expr} (h : Transcribed strict V (Γ.bindFree y d) (Γ'.bindFree y' d') e e') :
    Transcribed strict V Γ Γ' e e' :=
  h.mono id (fun _ _ hy => hy.of_cons) fun _ _ hx => hx

/-- Each side chooses a name of its own. Strictly, they choose the same. -/
theorem Brings.freshName (slack : Slack) {Γ Γ' : Context} {x x' : Name}
    (same : slack.strict → Γ.names = Γ'.names ∧ x = x') :
    Brings slack (Chosen slack.strict Γ.names Γ'.names) (freshName Γ x) fun _ =>
      TypeKernel.freshName Γ' x' := by
  intro y hy
  have hy : freshAmong Γ.names x = .ok y := Returns.numeral (m := ByName) hy
  have there : slack.strict → freshAmong Γ'.names x' = .ok y := fun strict => by
    rw [← (same strict).1, ← (same strict).2, hy]
  cases hy' : freshAmong Γ'.names x' with
  | error d =>
      have fails : (TypeKernel.freshName Γ' x' : ByName Name) = .error (.failed (.defect (.numeral d))) := by
        show numeral (freshAmong Γ'.names x') = _
        rw [hy']
        rfl
      exact ⟨fun _ _ hb => (nomatch fails.symm.trans hb),
        .inr (.inr ⟨fun strict => (nomatch hy'.symm.trans (there strict)), d, 0, fun _ _ => fails⟩)⟩
  | ok y' =>
      have found : (TypeKernel.freshName Γ' x' : ByName Name) = .ok y' := by
        show numeral (freshAmong Γ'.names x') = _
        rw [hy']
        rfl
      rw [found]
      refine Brings.pure ⟨freshAmong_notMem hy, freshAmong_notMem hy', fun strict => ?_⟩ y rfl
      cases hy'.symm.trans (there strict)
      rfl

theorem Lags.ofVar {slack : Slack} {V : Pairing} {X X' : List Name} {y y' : Name} {d d' : Value}
    (fits : V.Fits slack.strict X X') (hy : Chosen slack.strict X X' y y') (hd : Trails slack V d d') :
    Trails slack (V.under y y') (.ofVar y d) (.ofVar y' d') :=
  .neutral (hd.mono fun _ _ hx => fits.le_under hy hx) (.var (.inl ⟨rfl, rfl⟩))

/-- Strictly, functions suggest the same name for the parameter. -/
theorem Formed.hint {slack : Slack} {V : Pairing} {f f' : Value} (h : Formed slack V f f')
    (strict : slack.strict) {x x' : Name} (hx : x = x') : ReadBack.hint x f = ReadBack.hint x' f' := by
  cases h with
  | lam hy _ => exact hy strict
  | _ => exact hx

namespace ReadBack

variable {slack : Slack} {n : Nat} {V : Pairing} {Γ Γ' : Context} (h : ReadsAlong slack n)
  (fits : V.Fits slack.strict Γ.names Γ'.names)

include h fits

theorem along_readAnnotated {t t' : Typed} (ht : Lags slack V (.typed t) (.typed t')) :
    Brings slack (Transcribed slack.strict V Γ Γ') (readAnnotated (readings n) Γ t) fun i =>
      readAnnotated (readings i) Γ' t' := by
  cases ht with
  | typed hA hv =>
      refine .bind (h fits (.type hA)) fun t t' ht => ?_
      exact .bind (h fits (.value hA hv)) fun e e' he => .pure (.the ht he)

theorem along_readCanonical {A A' v v' : Value} (hA : Formed slack V A A') (hv : Formed slack V v v') :
    Brings slack (Transcribed slack.strict V Γ Γ') (readCanonical (run n) (readings n) Γ A v) fun i =>
      readCanonical (run i) (readings i) Γ' A' v' := by
  cases hA with
  | const c =>
      cases c with
      | nat =>
          cases hv with
          | const c =>
              cases c with
              | zero => exact .pure (.const .zero)
              | _ => exact .leftFails
          | unary u hv =>
              cases u with
              | add1 => exact .bind (h fits (.value (.const .nat) hv)) fun _ _ he => .pure (.unary .add1 he)
              | _ => exact .leftFails
          | _ => exact .leftFails
      | atom =>
          cases hv with
          | quote a => exact .pure (.quote a)
          | _ => exact .leftFails
      | _ => cases hv <;> exact .leftFails
  | unary u hE =>
      cases u with
      | list =>
          cases hv with
          | const c =>
              cases c with
              | nil => exact .pure (.const .nil)
              | _ => exact .leftFails
          | binary b hv hvs =>
              cases b with
              | listCons =>
                  refine .bind (h fits (.value hE hv)) fun e e' he => ?_
                  exact .bind (h fits (.value (.unary .list hE) hvs)) fun _ _ hes =>
                    .pure (.binary .listCons he hes)
              | _ => exact .leftFails
          | _ => exact .leftFails
      | _ => cases hv <;> exact .leftFails
  | binary b hl hr =>
      cases b with
      | vec =>
          cases hv with
          | const c =>
              cases c with
              | vecNil => exact .pure (.const .vecNil)
              | _ => exact .leftFails
          | binary b hv hvs =>
              cases b with
              | vecCons =>
                  refine .bind ((keeps slack V n).forces hr) fun k k' hk => ?_
                  cases hk with
                  | unary u hk =>
                      cases u with
                      | add1 =>
                          refine .bind (h fits (.value hl hv)) fun e e' he => ?_
                          exact .bind (h fits (.value (.binary .vec hl hk) hvs)) fun _ _ hes =>
                            .pure (.binary .vecCons he hes)
                      | _ => exact .leftFails
                  | _ => exact .leftFails
              | _ => exact .leftFails
          | _ => exact .leftFails
      | either =>
          cases hv with
          | unary u hv =>
              cases u with
              | left => exact .bind (h fits (.value hl hv)) fun _ _ he => .pure (.unary .left he)
              | right => exact .bind (h fits (.value hr hv)) fun _ _ he => .pure (.unary .right he)
              | _ => exact .leftFails
          | _ => exact .leftFails
      | _ => cases hv <;> exact .leftFails
  | equal hT _ _ =>
      cases hv with
      | unary u hv =>
          cases u with
          | same => exact .bind (h fits (.value hT hv)) fun _ _ he => .pure (.unary .same he)
          | _ => exact .leftFails
      | _ => exact .leftFails
  | _ => cases hv <;> exact .leftFails

/-- At a type whose elements are compared by their form, the value's form decides. -/
theorem along_readByForm {A A' v v' : Value} (hA : Formed slack V A A') (hv : Trails slack V v v') :
    Brings slack (Transcribed slack.strict V Γ Γ')
      (run n (.force v) >>= fun v => match v with
        | .neutral _ stuck => readings n Γ (.neutral stuck)
        | v => readCanonical (run n) (readings n) Γ A v) fun i =>
      run i (.force v') >>= fun v => match v with
        | .neutral _ stuck => readings i Γ' (.neutral stuck)
        | v => readCanonical (run i) (readings i) Γ' A' v := by
  refine .bind ((keeps slack V n).forces hv) fun w w' hw => ?_
  have canonical := along_readCanonical h fits hA hw
  cases hw with
  | neutral _ he => exact h fits (.neutral he)
  | _ => exact canonical

/-- A function is read through its body, at a new name for the parameter. -/
theorem along_function {d d' : Value} {r r' : Closure} {y y' : Name} {f : ByName Value}
    {f' : Nat → ByName Value} (hd : Trails slack V d d') (hr : Lags slack V (.closure r) (.closure r'))
    (hy : Chosen slack.strict Γ.names Γ'.names y y') (hf : Brings slack (Trails slack (V.under y y')) f f') :
    Brings slack (Transcribed slack.strict V Γ Γ')
      (do
        let result ← run n (.apply r (.ofVar y d))
        let body ← f
        let e ← readings n (Γ.bindFree y d) (.value result body)
        return .lam y e) fun i => do
      let result ← run i (.apply r' (.ofVar y' d'))
      let body ← f' i
      let e ← readings i (Γ'.bindFree y' d') (.value result body)
      return .lam y' e := by
  have below : ∀ x x', V x x' → V.under y y' x x' := fun _ _ hx => fits.le_under hy hx
  have range := (keeps slack (V.under y y') n).answers (.apply (hr.mono below) (.ofVar fits hy hd))
  refine .bind range fun B B' hB => .bind hf fun b b' hb => ?_
  refine .bind (h (fits.under hy) (.value hB hb)) fun e e' he => ?_
  exact .pure (.lam hy (Resembles.of_transcribed he))

theorem along_pair {d d' : Value} {r r' : Closure} {a b : ByName Value} {a' b' : Nat → ByName Value}
    (hd : Trails slack V d d') (hr : Lags slack V (.closure r) (.closure r'))
    (ha : Brings slack (Trails slack V) a a') (hb : Brings slack (Trails slack V) b b') :
    Brings slack (Transcribed slack.strict V Γ Γ')
      (do
        let a ← a
        let b ← b
        let left ← readings n Γ (.value d a)
        let rest ← run n (.apply r a)
        let right ← readings n Γ (.value rest b)
        return .cons left right) fun i => do
      let a ← a' i
      let b ← b' i
      let left ← readings i Γ' (.value d' a)
      let rest ← run i (.apply r' a)
      let right ← readings i Γ' (.value rest b)
      return .cons left right := by
  refine .bind ha fun a a' ha => .bind hb fun b b' hb => ?_
  refine .bind (h fits (.value hd ha)) fun l l' hl => ?_
  refine .bind ((keeps slack V n).answers (.apply hr ha)) fun B B' hB => ?_
  exact .bind (h fits (.value hB hb)) fun _ _ hd => .pure (.binary .cons hl hd)

theorem along_readElement {A A' v v' : Value} (hA : Formed slack V A A') (hv : Trails slack V v v') :
    Brings slack (Transcribed slack.strict V Γ Γ') (readElement (run n) (readings n) Γ v A) fun i =>
      readElement (run i) (readings i) Γ' v' A' := by
  have kept := keeps slack V n
  have byForm := along_readByForm h fits hA hv
  cases hA with
  | const c =>
      cases c with
      | univ => exact h fits (.type hv)
      | trivial => exact .pure (.const .sole)
      | absurd =>
          refine .bind (kept.forces hv) fun w w' hw => ?_
          cases hw with
          | neutral _ he =>
              exact .bind (h fits (.neutral he)) fun _ _ he => .pure (.the (.const .absurd) he)
          | _ => exact .leftFails
      | _ => exact byForm
  | quant q hx hd hr =>
      cases q with
      | pi =>
          refine .bind (kept.forces hv) fun f f' hf => ?_
          refine .bind (.freshName slack fun strict => ⟨fits.same strict, hf.hint strict (hx strict)⟩)
            fun y y' hy => ?_
          have hf := hf.trails.mono fun _ _ hx => fits.le_under hy hx
          exact along_function h fits hd hr hy
            ((keeps slack (V.under y y') n).call hf (.ofVar fits hy hd))
      | sigma => exact along_pair h fits hd hr (kept.project .car hv) (kept.project .cdr hv)
  | _ => exact byForm

theorem along_readFormer {v v' : Value} (hv : Formed slack V v v') :
    Brings slack (Transcribed slack.strict V Γ Γ') (readFormer (run n) (readings n) Γ v) fun i =>
      readFormer (run i) (readings i) Γ' v' := by
  cases hv with
  | const c =>
      cases c with
      | univ => exact .pure (.const .univ)
      | nat => exact .pure (.const .nat)
      | atom => exact .pure (.const .atom)
      | trivial => exact .pure (.const .trivial)
      | absurd => exact .pure (.const .absurd)
      | _ => exact .leftFails
  | unary u hE =>
      cases u with
      | list => exact .bind (h fits (.type hE)) fun _ _ he => .pure (.unary .list he)
      | _ => exact .leftFails
  | binary b hl hr =>
      cases b with
      | vec =>
          refine .bind (h fits (.type hl)) fun _ _ he => ?_
          exact .bind (h fits (.value (.const .nat) hr)) fun _ _ hk => .pure (.binary .vec he hk)
      | either =>
          refine .bind (h fits (.type hl)) fun _ _ hl => ?_
          exact .bind (h fits (.type hr)) fun _ _ hr => .pure (.binary .either hl hr)
      | _ => exact .leftFails
  | equal hT hl hr =>
      refine .bind (h fits (.type hT)) fun _ _ ht => ?_
      refine .bind (h fits (.value hT hl)) fun _ _ hl => ?_
      exact .bind (h fits (.value hT hr)) fun _ _ hr => .pure (.equal ht hl hr)
  | quant q hx hd hr =>
      refine .bind (.freshName slack fun strict => ⟨fits.same strict, hx strict⟩) fun y y' hy => ?_
      refine .bind (h fits (.type hd)) fun e e' he => ?_
      have below : ∀ x x', V x x' → V.under y y' x x' := fun _ _ hx => fits.le_under hy hx
      refine .bind ((keeps slack (V.under y y') n).answers (.apply (hr.mono below)
        (.ofVar fits hy hd))) fun B B' hB => ?_
      refine .bind (h (fits.under hy) (.type hB)) fun _ _ hr => ?_
      exact .pure (.quant q hy he (Resembles.of_transcribed hr))
  | neutral _ he => exact h fits (.neutral he)
  | _ => exact .leftFails

theorem along_readNeutral {e e' : Neutral} (he : Lags slack V (.neutral e) (.neutral e')) :
    Brings slack (Transcribed slack.strict V Γ Γ') (readNeutral (readings n) Γ e) fun i =>
      readNeutral (readings i) Γ' e' := by
  have typed : ∀ {t t' : Typed}, Lags slack V (.typed t) (.typed t') →
      Brings slack (Transcribed slack.strict V Γ Γ') (readings n Γ t.reading) fun i => readings i Γ' t'.reading :=
    fun ht => h fits (Typed.reading_lags ht)
  cases he with
  | var hx => exact .pure (.var hx)
  | app hf ha =>
      refine .bind (h fits (.neutral hf)) fun _ _ hf => ?_
      exact .bind (typed ha) fun _ _ ha => .pure (.app hf ha)
  | proj p ht => exact .bind (h fits (.neutral ht)) fun _ _ ht => .pure (.proj p ht)
  | fold f ht hb hs =>
      refine .bind (h fits (.neutral ht)) fun _ _ ht => ?_
      refine .bind (along_readAnnotated h fits hb) fun _ _ hb => ?_
      exact .bind (typed hs) fun _ _ hs => .pure (.fold f ht hb hs)
  | induct i ht hm hb hs =>
      refine .bind (h fits (.neutral ht)) fun _ _ ht => ?_
      refine .bind (typed hm) fun _ _ hm => ?_
      refine .bind (typed hb) fun _ _ hb => ?_
      exact .bind (typed hs) fun _ _ hs => .pure (.induct i ht hm hb hs)
  | transport k ht hm hb =>
      refine .bind (h fits (.neutral ht)) fun _ _ ht => ?_
      refine .bind (typed hm) fun _ _ hm => ?_
      exact .bind (typed hb) fun _ _ hb => .pure (.transport k ht hm hb)
  | indAbsurd ht hm =>
      cases hm with
      | typed _ hm =>
          refine .bind (h fits (.neutral ht)) fun _ _ ht => ?_
          exact .bind (h fits (.type hm)) fun _ _ hm =>
            .pure (.indAbsurd (.the (.const .absurd) ht) hm)
  | indVec hk ht hm hb hs =>
      refine .bind (typed hk) fun _ _ hk => ?_
      refine .bind (h fits (.neutral ht)) fun _ _ ht => ?_
      refine .bind (typed hm) fun _ _ hm => ?_
      refine .bind (typed hb) fun _ _ hb => ?_
      exact .bind (typed hs) fun _ _ hs => .pure (.indVec hk ht hm hb hs)
  | trans hl hr =>
      refine .bind (typed hl) fun _ _ hl => ?_
      exact .bind (typed hr) fun _ _ hr => .pure (.trans hl hr)
  | cong ht hf =>
      refine .bind (h fits (.neutral ht)) fun _ _ ht => ?_
      exact .bind (along_readAnnotated h fits hf) fun _ _ hf => .pure (.cong ht hf)

theorem along_step {r r' : Reading} (hr : r.Lags slack V r') :
    Brings slack (Transcribed slack.strict V Γ Γ') (step (run n) (readings n) Γ r) fun i =>
      step (run i) (readings i) Γ' r' := by
  cases hr with
  | value hA hv =>
      exact .bind ((keeps slack V n).forces hA) fun A A' hA => along_readElement h fits hA hv
  | type hv => exact .bind ((keeps slack V n).forces hv) fun A A' hA => along_readFormer h fits hA
  | neutral he => exact along_readNeutral h fits he

end ReadBack

theorem reads_along (slack : Slack) (n : Nat) : ReadsAlong slack n := by
  induction n with
  | zero => exact fun _ _ => .leftFails
  | succ n ih => exact fun fits hr => (ReadBack.along_step ih fits hr).succ nofun fun _ => rfl

end TypeKernel
