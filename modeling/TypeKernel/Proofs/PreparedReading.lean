/-
# TypeKernel.Proofs.PreparedReading — reading back prepared values

The normal form of a prepared value is elaborated (`Reads.elaborated`): read-back takes the annotations that
evaluation needs from the types that neutral forms record. Reading back evaluates nothing but prepared
values, so it never fails for the lack of elaboration (`readings_spared`).
-/
import TypeKernel.Proofs.NormalForms
import TypeKernel.Proofs.Prepared

namespace TypeKernel

set_option autoImplicit false

open Machine

section Answers

variable {N : Name → Prop} {v w : Value}

theorem Value.Prepared.force (h : v.Prepared N) (hw : Forces v w) : w.Prepared N :=
  ((answer_prepared N).force h : Spared _ _).of_ok hw

theorem Prepared.apply {c : Closure} (hc : Prepared N (.closure c)) (hv : v.Prepared N)
    (hw : Applies c v w) : w.Prepared N :=
  ((answer_prepared N).apply hc hv : Spared _ _).of_ok hw

theorem Value.Prepared.call {f : Value} (hf : f.Prepared N) (hv : v.Prepared N) (hw : Calls f v w) :
    w.Prepared N :=
  ((answer_prepared N).call hf hv : Spared _ _).of_ok hw

theorem Value.Prepared.callBoth {f u : Value} (hf : f.Prepared N) (hv : v.Prepared N)
    (hu : u.Prepared N) (hw : CallsBoth f v u w) : w.Prepared N :=
  ((answer_prepared N).callBoth hf hv hu : Spared _ _).of_ok hw

theorem Value.Prepared.car (h : v.Prepared N) (hw : Eval.car answer v = .ok w) : w.Prepared N :=
  ((answer_prepared N).car h : Spared _ _).of_ok hw

theorem Value.Prepared.cdr (h : v.Prepared N) (hw : Eval.cdr answer v = .ok w) : w.Prepared N :=
  ((answer_prepared N).cdr h : Spared _ _).of_ok hw

theorem Prepared.eval {ρ : Env} (hρ : Prepared N (.env ρ)) {e : Expr} (he : e.Elaborated ρ.Binds)
    (hv : Evals ρ e v) : v.Prepared N :=
  ((answer_prepared N).eval ⟨hρ, he⟩ : Spared _ _).of_ok hv

end Answers

/-! ## Normal forms -/

/-- The values of a task are prepared. -/
def Task.Prepared (N : Name → Prop) : Task → Prop
  | .value A v | .element A v | .canonical A v => A.Prepared N ∧ v.Prepared N
  | .type v | .former v => v.Prepared N
  | .neutral e => TypeKernel.Prepared N (.neutral e)

theorem Reads.elaborated {σ : Style} (hi : σ.impossible = none) {X : List Name} {t : Task} {n : Expr}
    (h : Reads σ X t n) : ∀ {N : Name → Prop}, t.Prepared N → n.Elaborated N := by
  have element : ∀ n, σ.element n = n := fun n => by simp [Style.element, hi]
  have annotate : ∀ t e, σ.annotate t e = .the t e := fun t e => by
    simp [Style.annotate, element]
  have wider : ∀ {N : Name → Prop} {p : Piece} (y : Name), Prepared N p →
      Prepared (fun z => z = y ∨ N z) p := fun y h => h.mono fun _ => .inr
  induction h with
  | value hA _ ih =>
      rintro N ⟨pA, pv⟩
      exact ih ⟨Value.Prepared.force pA hA, pv⟩
  | univ _ ih =>
      rintro N ⟨_, pv⟩
      exact ih pv
  | @lam _ _ _ _ _ _ y _ _ _ hf _ hB hb _ ih =>
      rintro N ⟨pA, pv⟩
      cases pA with
      | quant _ pd pr =>
          have py := Prepared.ofVar (wider y pd) (.inl rfl)
          refine ih ⟨(wider y pr).apply py hB, ?_⟩
          exact Value.Prepared.call (wider y (Value.Prepared.force pv hf)) py hb
  | cons ha hb _ hB _ ihl ihn =>
      rintro N ⟨pA, pv⟩
      cases pA with
      | quant _ pd pr =>
          have pa := Value.Prepared.car pv ha
          exact ⟨ihl ⟨pd, pa⟩, ihn ⟨pr.apply pa hB, Value.Prepared.cdr pv hb⟩⟩
  | sole | zero | nil | vecNil | const _ => exact fun _ => trivial
  | absurd hv _ ih =>
      rintro N ⟨_, pv⟩
      cases Value.Prepared.force pv hv with
      | neutral _ pe =>
          rw [element]
          exact ⟨trivial, ih pe⟩
  | byForm _ hv _ ih =>
      rintro N ⟨pA, pv⟩
      exact ih ⟨pA, Value.Prepared.force pv hv⟩
  | stuck _ ih =>
      rintro N ⟨_, pv⟩
      cases pv with | neutral _ pe => exact ih pe
  | quote a =>
      rintro N ⟨_, pv⟩
      cases pv with | quote ha => exact ha
  | add1 _ ih =>
      rintro N ⟨pA, pv⟩
      cases pv with | unary _ pv => exact ih ⟨pA, pv⟩
  | listCons _ _ ih ihs =>
      rintro N ⟨pA, pv⟩
      cases pv with
      | binary _ pv pvs =>
          cases pA with | unary _ pE => exact ⟨ih ⟨pE, pv⟩, ihs ⟨.unary .list pE, pvs⟩⟩
  | vecCons hk _ _ ih ihs =>
      rintro N ⟨pA, pv⟩
      cases pv with
      | binary _ pv pvs =>
          cases pA with
          | binary _ pE pk =>
              cases Value.Prepared.force pk hk with
              | unary _ pk => exact ⟨ih ⟨pE, pv⟩, ihs ⟨.binary .vec pE pk, pvs⟩⟩
  | left _ ih =>
      rintro N ⟨pA, pv⟩
      cases pA with | binary _ pl _ => cases pv with | unary _ pv => exact ih ⟨pl, pv⟩
  | right _ ih =>
      rintro N ⟨pA, pv⟩
      cases pA with | binary _ _ pr => cases pv with | unary _ pv => exact ih ⟨pr, pv⟩
  | same _ ih =>
      rintro N ⟨pA, pv⟩
      cases pA with | equal pT _ _ => cases pv with | unary _ pv => exact ih ⟨pT, pv⟩
  | type hA _ ih => exact fun pA => ih (Value.Prepared.force pA hA)
  | @quant _ _ _ _ _ y _ _ _ _ _ hB _ ihd ihr =>
      intro N pA
      cases pA with
      | quant _ pd pr =>
          exact ⟨ihd pd, ihr ((wider y pr).apply (.ofVar (wider y pd) (.inl rfl)) hB)⟩
  | list _ ih =>
      intro N pA
      cases pA with | unary _ pE => exact ih pE
  | vec _ _ ih ihk =>
      intro N pA
      cases pA with | binary _ pE pk => exact ⟨ih pE, ihk ⟨.const .nat, pk⟩⟩
  | either _ _ ihl ihr =>
      intro N pA
      cases pA with | binary _ pl pr => exact ⟨ihl pl, ihr pr⟩
  | equal _ _ _ iht ihl ihr =>
      intro N pA
      cases pA with | equal pT pl pr => exact ⟨iht pT, ihl ⟨pT, pl⟩, ihr ⟨pT, pr⟩⟩
  | stuckType _ ih =>
      intro N pA
      cases pA with | neutral _ pe => exact ih pe
  | var x =>
      intro N pe
      cases pe with | var hx => exact hx
  | app _ _ ihf iha =>
      intro N pe
      cases pe with | app pf pa => cases pa with | typed pd pa => exact ⟨ihf pf, iha ⟨pd, pa⟩⟩
  | proj p _ ih =>
      intro N pe
      cases pe with | proj _ pt => exact ih pt
  | fold f _ _ _ _ iht ihB ihb ihs =>
      intro N pe
      cases pe with
      | fold _ pt pb ps =>
          cases pb with
          | typed pB pb =>
              cases ps with
              | typed pS ps =>
                  rw [annotate]
                  exact ⟨rfl, iht pt, ⟨ihB pB, ihb ⟨pB, pb⟩⟩, ihs ⟨pS, ps⟩⟩
  | induct i _ _ _ _ iht ihm ihb ihs =>
      intro N pe
      cases pe with
      | induct _ pt pm pb ps =>
          cases pm with
          | typed pM pm =>
              cases pb with
              | typed pB pb =>
                  cases ps with
                  | typed pS ps => exact ⟨iht pt, ihm ⟨pM, pm⟩, ihb ⟨pB, pb⟩, ihs ⟨pS, ps⟩⟩
  | transport k _ _ _ iht ihm ihb =>
      intro N pe
      cases pe with
      | transport _ pt pm pb =>
          cases pm with
          | typed pM pm =>
              cases pb with | typed pB pb => exact ⟨iht pt, ihm ⟨pM, pm⟩, ihb ⟨pB, pb⟩⟩
  | indAbsurd _ _ iht ihm =>
      intro N pe
      cases pe with
      | indAbsurd pt pm =>
          cases pm with
          | typed _ pm =>
              rw [element]
              exact ⟨⟨trivial, iht pt⟩, ihm pm⟩
  | indVec _ _ _ _ _ ihk iht ihm ihb ihs =>
      intro N pe
      cases pe with
      | indVec pk pt pm pb ps =>
          cases pk with
          | typed pN pk =>
              cases pm with
              | typed pM pm =>
                  cases pb with
                  | typed pB pb =>
                      cases ps with
                      | typed pS ps =>
                          exact ⟨ihk ⟨pN, pk⟩, iht pt, ihm ⟨pM, pm⟩, ihb ⟨pB, pb⟩, ihs ⟨pS, ps⟩⟩
  | trans _ _ ihl ihr =>
      intro N pe
      cases pe with
      | trans pl pr =>
          cases pl with
          | typed pL pl => cases pr with | typed pR pr => exact ⟨ihl ⟨pL, pl⟩, ihr ⟨pR, pr⟩⟩
  | cong _ _ _ iht ihF ihf =>
      intro N pe
      cases pe with
      | cong pt pf =>
          cases pf with
          | typed pF pf =>
              rw [annotate]
              exact ⟨rfl, iht pt, ihF pF, ihf ⟨pF, pf⟩⟩

/-! ## Reading back fails for other reasons -/

/-- The values that are to be read are prepared. -/
def Reading.Prepared (N : Name → Prop) : Reading → Prop
  | .value A v => A.Prepared N ∧ v.Prepared N
  | .type v => v.Prepared N
  | .neutral e => TypeKernel.Prepared N (.neutral e)

/-- Reading back prepared values does not fail for the lack of elaboration. The names of binders that it chooses
do not matter for that, so any name is allowed. -/
theorem readings_spared (n : Nat) {N : Name → Prop} {Γ : Context} {r : Reading} (h : r.Prepared N) :
    Spared (fun _ => True) (readings n Γ r : ByName Expr) := by
  have wider : ∀ {p : Piece}, Prepared N p → Prepared (fun _ => True) p := fun h => h.mono fun _ _ => trivial
  have pieces : r.pieces.Forall (Prepared fun _ => True) := by
    cases r with
    | value A v => exact ⟨wider h.1, wider h.2⟩
    | type v => exact wider h
    | neutral e => exact wider h
  exact Spared.imp ((Prepared.guard _).readings (fun _ => .var trivial) (run_prepared _) n pieces)
    fun _ _ => trivial

/-- Prepared values read back as elaborated expressions, or reading back fails for other reasons. -/
theorem readings_elaborated (n : Nat) {N : Name → Prop} (Γ : Context) {r : Reading}
    (h : r.Prepared N) : Spared (Expr.Elaborated N) (readings n Γ r : ByName Expr) := by
  have spared := readings_spared n (Γ := Γ) h
  cases hr : (readings n Γ r : ByName Expr) with
  | ok e =>
      refine .ok ((Reads.of_readings hr).elaborated rfl ?_)
      cases r <;> exact h
  | error reason =>
      rw [hr] at spared
      cases spared with
      | failed he => exact .failed he
      | exhausted => exact .exhausted

end TypeKernel
