/-
# TypeKernel.Proofs.NormalForms — read-back within bounds

An expression is in normal form if no eliminator in it meets a constructor: functions that are applied, and
targets of eliminators, are variables or eliminators themselves (`Expr.isStuck`). Annotations stand only where
evaluation needs them, or where an element of `Absurd` is marked.

Read-back keeps within bounds, as evaluation does, and if the bounds ask for proper chains of proofs, it gives
normal forms (`Guard.readings`). A chain is the one stuck form whose parts are read back as values, not as
neutral forms. What they look like must be known from the values: a stuck proof reads back as something stuck,
and a trivial one as a trivial one (`Reading.Forms`).
-/
import TypeKernel.Proofs.Bounds

namespace TypeKernel

set_option autoImplicit false

open Machine

/-! ## Normal forms -/

namespace Expr

/-- A variable or an eliminator. -/
def isStuck : Expr → Bool
  | .var _ | .app _ _ | .proj _ _ | .fold _ _ _ _ | .induct _ _ _ _ _ | .transport _ _ _ _ | .indAbsurd _ _
  | .indVec _ _ _ _ _ | .trans _ _ | .cong _ _ => true
  | _ => false

/-- A trivial proof of equality. -/
def isTrivialProof : Expr → Bool
  | .same _ => true
  | _ => false

/-- No part of the expression can be reduced. The base of a fold and the function of `cong` are annotated, and
all other annotations mark a stuck element of `Absurd`. -/
def isNormal : Expr → Bool
  | .var _ | .quote _ | .const _ => true
  | .unary _ e => e.isNormal
  | .binary _ e₁ e₂ => e₁.isNormal && e₂.isNormal
  | .equal t l r => t.isNormal && l.isNormal && r.isNormal
  | .quant _ _ d r => d.isNormal && r.isNormal
  | .lam _ b => b.isNormal
  | .the .absurd e => e.isStuck && e.isNormal
  | .app f a => f.isStuck && f.isNormal && a.isNormal
  | .proj _ t => t.isStuck && t.isNormal
  | .fold _ t (.the T b) s => t.isStuck && t.isNormal && T.isNormal && b.isNormal && s.isNormal
  | .induct _ t m b s => t.isStuck && t.isNormal && m.isNormal && b.isNormal && s.isNormal
  | .transport _ t m b => t.isStuck && t.isNormal && m.isNormal && b.isNormal
  | .indAbsurd (.the .absurd t) m => t.isStuck && t.isNormal && m.isNormal
  | .indVec k t m b s => k.isNormal && t.isStuck && t.isNormal && m.isNormal && b.isNormal && s.isNormal
  | .trans l r =>
      ((l.isStuck && r.isStuck) || (l.isStuck && r.isTrivialProof) || (l.isTrivialProof && r.isStuck)) &&
        l.isNormal && r.isNormal
  | .cong t (.the F f) => t.isStuck && t.isNormal && F.isNormal && f.isNormal
  | _ => false

end Expr

/-! ## What a reading gives -/

namespace Reading

/-- A reading of something stuck. -/
def isStuck : Reading → Bool
  | .value T v => (Typed.mk T v).isStuckProof
  | .type _ => false
  | .neutral _ => true

/-- A reading of a trivial proof. -/
def isTrivialProof : Reading → Bool
  | .value T v => (Typed.mk T v).isTrivialProof
  | _ => false

/-- The expression is in normal form, and is stuck or trivial if what is read is. -/
structure Forms (r : Reading) (e : Expr) : Prop where
  normal : e.isNormal = true
  stuck : r.isStuck = true → e.isStuck = true
  same : r.isTrivialProof = true → e.isTrivialProof = true

namespace Forms

variable {T T' v w : Value} {e : Expr}

/-- Nothing is asked of the form, unless a proof of equality is read. -/
theorem of_type (h : e.isNormal = true) (hT : ∀ t l r, T ≠ .equal t l r) : (Reading.value T v).Forms e := by
  refine ⟨h, fun stuck => ?_, fun same => ?_⟩
  · cases T with
    | equal t l r => exact (hT t l r rfl).elim
    | _ => cases stuck
  · cases T with
    | equal t l r => exact (hT t l r rfl).elim
    | _ => cases same

/-- A proof that is stuck or trivial is not delayed, and neither is its type. -/
theorem unforced (h : (Reading.value T' w).Forms e) (hT : T.isDelayed = false → T' = T)
    (hv : v.isDelayed = false → w = v) : (Reading.value T v).Forms e := by
  refine ⟨h.normal, fun stuck => ?_, fun same => ?_⟩
  · cases T with
    | equal =>
        cases hT rfl
        cases v with
        | neutral =>
            cases hv rfl
            exact h.stuck stuck
        | _ => cases stuck
    | _ => cases stuck
  · cases T with
    | equal =>
        cases hT rfl
        cases v with
        | unary =>
            cases hv rfl
            exact h.same same
        | _ => cases same
    | _ => cases same

end Forms

end Reading

/-! ## Read-back -/

namespace Guard

variable {m : Type → Type} [Machine m] {I : Invariant} (G : Guard m I)

/-- Readings of what is within bounds keep within bounds, and give normal forms if chains are proper. -/
def Reads (read : Context → Reading → m Expr) : Prop :=
  ∀ ⦃Γ : Context⦄ ⦃r : Reading⦄, r.pieces.Forall I.Admits →
    G.keeps (read Γ r) fun e => I.proper → r.Forms e

theorem freshName (Γ : Context) (hint : Name) : G.keeps (freshName Γ hint) fun _ => True := by
  unfold TypeKernel.freshName
  cases Γ.fresh hint with
  | ok y => exact G.pure trivial
  | error e => exact G.stop False.elim

namespace Reads

variable {G} {ask : Request → m Value} {read : Context → Reading → m Expr} (hask : G.Asks ask)
  (h : G.Reads read) (vars : ∀ y, I.Admits (.neutral (.var y))) {Γ : Context}

include h

theorem value {T v : Value} (hT : I.Allows T) (hv : I.Allows v) :
    G.keeps (read Γ (.value T v)) fun e => I.proper → e.isNormal = true :=
  G.imp (h (r := .value T v) ⟨hT, hv⟩) fun _ he proper => (he proper).normal

theorem type {v : Value} (hv : I.Allows v) :
    G.keeps (read Γ (.type v)) fun e => I.proper → e.isNormal = true :=
  G.imp (h (r := .type v) hv) fun _ he proper => (he proper).normal

theorem neutral {e : Neutral} (he : I.Admits (.neutral e)) :
    G.keeps (read Γ (.neutral e)) fun n => I.proper → n.isStuck = true ∧ n.isNormal = true :=
  G.imp (h (r := .neutral e) he) fun _ hn proper => ⟨(hn proper).stuck rfl, (hn proper).normal⟩

theorem typed {t : Typed} (ht : I.Admits (.typed t)) :
    G.keeps (read Γ t.reading) fun e => I.proper → t.reading.Forms e := by
  cases t with
  | mk T v => exact h (r := .value T v) (ht.parts rfl)

theorem annotated {t : Typed} (ht : I.Admits (.typed t)) :
    G.keeps (ReadBack.readAnnotated read Γ t) fun e =>
      ∃ T b, e = .the T b ∧ (I.proper → T.isNormal = true ∧ b.isNormal = true) := by
  cases t with
  | mk T v =>
      obtain ⟨hT, hv⟩ := ht.parts rfl
      refine G.bind (h.type hT) fun t ht => ?_
      refine G.bind (h.value hT hv) fun e he => ?_
      exact G.pure ⟨t, e, rfl, fun proper => ⟨ht proper, he proper⟩⟩

include hask

theorem canonical {T v : Value} (hT : I.Allows T) (hv : I.Allows v) :
    G.keeps (ReadBack.readCanonical ask read Γ T v) fun e =>
      I.proper → e.isNormal = true ∧ ((Reading.value T v).isTrivialProof = true → e.isTrivialProof = true) := by
  unfold ReadBack.readCanonical
  split
  · exact G.pure fun _ => ⟨rfl, nofun⟩
  · refine G.bind (h.value (.const _) (hv.parts rfl)) fun e he => ?_
    exact G.pure fun proper => ⟨he proper, nofun⟩
  · exact G.pure fun _ => ⟨rfl, nofun⟩
  · exact G.pure fun _ => ⟨rfl, nofun⟩
  · obtain ⟨ha, has⟩ := hv.parts rfl
    refine G.bind (h.value (hT.parts rfl) ha) fun e he => ?_
    refine G.bind (h.value hT has) fun es hes => ?_
    exact G.pure fun proper => ⟨by simp [Expr.isNormal, he proper, hes proper], nofun⟩
  · exact G.pure fun _ => ⟨rfl, nofun⟩
  · obtain ⟨hE, hk⟩ := hT.parts rfl
    obtain ⟨ha, has⟩ := hv.parts rfl
    refine G.bind (hask.force hk) fun k hk => ?_
    split
    · refine G.bind (h.value hE ha) fun e he => ?_
      refine G.bind (h.value (.of rfl ⟨hE, hk.parts rfl⟩) has) fun es hes => ?_
      exact G.pure fun proper => ⟨by simp [Expr.isNormal, he proper, hes proper], nofun⟩
    · exact G.stop False.elim
  · refine G.bind (h.value (hT.parts rfl).1 (hv.parts rfl)) fun e he => ?_
    exact G.pure fun proper => ⟨he proper, nofun⟩
  · refine G.bind (h.value (hT.parts rfl).2 (hv.parts rfl)) fun e he => ?_
    exact G.pure fun proper => ⟨he proper, nofun⟩
  · refine G.bind (h.value (hT.parts rfl).1 (hv.parts rfl)) fun e he => ?_
    exact G.pure fun proper => ⟨he proper, fun _ => rfl⟩
  · exact G.stop False.elim

/-- At most types the form of the value decides. -/
theorem byForm {T v : Value} (hT : I.Allows T) (hv : I.Allows v) :
    G.keeps (ask (.force v) >>= fun v => match v with
        | .neutral _ e => read Γ (.neutral e)
        | v => ReadBack.readCanonical ask read Γ T v) fun e => I.proper → (Reading.value T v).Forms e := by
  refine G.bind (hask (r := .force v) hv) fun w ⟨hw, form⟩ => ?_
  have unforced : ∀ {e}, (Reading.value T w).Forms e → (Reading.value T v).Forms e :=
    fun forms => forms.unforced (fun _ => rfl) (form v rfl)
  split
  · refine G.imp (h.neutral (hw.parts rfl).2) fun e he proper => unforced ⟨(he proper).2, fun _ => (he proper).1, ?_⟩
    cases T <;> exact nofun
  · rename_i other
    refine G.imp (h.canonical hask hT hw) fun e he proper => unforced ⟨(he proper).1, ?_, (he proper).2⟩
    intro stuck
    cases T with
    | equal =>
        cases w with
        | neutral T e => exact (other T e rfl).elim
        | _ => cases stuck
    | _ => cases stuck

include vars in
theorem element {T v : Value} (hT : I.Allows T) (hv : I.Allows v) :
    G.keeps (ReadBack.readElement ask read Γ v T) fun e => I.proper → (Reading.value T v).Forms e := by
  unfold ReadBack.readElement
  split
  · exact G.imp (h.type hv) fun e he proper => .of_type (he proper) nofun
  · obtain ⟨hd, hr⟩ := hT.parts rfl
    refine G.bind (hask.force hv) fun f hf => ?_
    refine G.bind (G.freshName _ _) fun y _ => ?_
    refine G.bind (hask.apply hr (.ofVar (vars y) hd)) fun R hR => ?_
    refine G.bind (hask.call hf (.ofVar (vars y) hd)) fun b hb => ?_
    refine G.bind (h.value hR hb) fun e he => ?_
    exact G.pure fun proper => .of_type (he proper) nofun
  · obtain ⟨hd, hr⟩ := hT.parts rfl
    refine G.bind (hask.car hv) fun a ha => ?_
    refine G.bind (hask.cdr hv) fun b hb => ?_
    refine G.bind (h.value hd ha) fun e he => ?_
    refine G.bind (hask.apply hr ha) fun R hR => ?_
    refine G.bind (h.value hR hb) fun f hf => ?_
    exact G.pure fun proper => .of_type (by simp [Expr.isNormal, he proper, hf proper]) nofun
  · exact G.pure fun _ => .of_type rfl nofun
  · refine G.bind (hask.force hv) fun w hw => ?_
    split
    · refine G.bind (h.neutral (hw.parts rfl).2) fun e he => ?_
      exact G.pure fun proper => .of_type (by simp [Expr.isNormal, he proper]) nofun
    · exact G.stop False.elim
  · exact h.byForm hask hT hv

include vars in
theorem readValue {T v : Value} (hT : I.Allows T) (hv : I.Allows v) :
    G.keeps (ReadBack.readValue ask read Γ T v) fun e => I.proper → (Reading.value T v).Forms e := by
  refine G.bind (hask (r := .force T) hT) fun A ⟨hA, form⟩ => ?_
  exact G.imp (h.element hask vars hA hv) fun e he proper => (he proper).unforced (form T rfl) fun _ => rfl

include vars in
theorem former {v : Value} (hv : I.Allows v) :
    G.keeps (ReadBack.readFormer ask read Γ v) fun e => I.proper → e.isNormal = true := by
  unfold ReadBack.readFormer
  split
  · exact G.pure fun _ => rfl
  · exact G.pure fun _ => rfl
  · exact G.pure fun _ => rfl
  · exact G.pure fun _ => rfl
  · exact G.pure fun _ => rfl
  · obtain ⟨hd, hr⟩ := hv.parts rfl
    refine G.bind (G.freshName _ _) fun y _ => ?_
    refine G.bind (h.type hd) fun d hnd => ?_
    refine G.bind (hask.apply hr (.ofVar (vars y) hd)) fun R hR => ?_
    refine G.bind (h.type hR) fun r hnr => ?_
    exact G.pure fun proper => by simp [Expr.isNormal, hnd proper, hnr proper]
  · exact G.bind (h.type (hv.parts rfl)) fun e he => G.pure he
  · obtain ⟨hE, hk⟩ := hv.parts rfl
    refine G.bind (h.type hE) fun e he => ?_
    refine G.bind (h.value (.const _) hk) fun k hnk => ?_
    exact G.pure fun proper => by simp [Expr.isNormal, he proper, hnk proper]
  · obtain ⟨hl, hr⟩ := hv.parts rfl
    refine G.bind (h.type hl) fun l hnl => ?_
    refine G.bind (h.type hr) fun r hnr => ?_
    exact G.pure fun proper => by simp [Expr.isNormal, hnl proper, hnr proper]
  · obtain ⟨hT, hl, hr⟩ := hv.parts rfl
    refine G.bind (h.type hT) fun t hnt => ?_
    refine G.bind (h.value hT hl) fun l hnl => ?_
    refine G.bind (h.value hT hr) fun r hnr => ?_
    exact G.pure fun proper => by simp [Expr.isNormal, hnt proper, hnl proper, hnr proper]
  · exact G.imp (h.neutral (hv.parts rfl).2) fun e he proper => (he proper).2
  · exact G.stop False.elim

omit hask in
/-- A chain of proofs is read back as two values, of which one is stuck. -/
theorem chain {l r : Typed} (hlr : I.Admits (.neutral (.trans l r))) :
    G.keeps (ReadBack.readNeutral read Γ (.trans l r)) fun e =>
      I.proper → e.isStuck = true ∧ e.isNormal = true := by
  obtain ⟨hl, hr⟩ := hlr.parts rfl
  refine G.bind (h.typed hl) fun a ha => ?_
  refine G.bind (h.typed hr) fun b hb => ?_
  refine G.pure fun proper => ⟨rfl, ?_⟩
  obtain ⟨normalLeft, stuckLeft, sameLeft⟩ := ha proper
  obtain ⟨normalRight, stuckRight, sameRight⟩ := hb proper
  have chained := I.chained proper hlr
  cases l with
  | mk L u =>
      cases r with
      | mk R w =>
          simp only [Typed.reading, Reading.isStuck, Reading.isTrivialProof] at stuckLeft sameLeft stuckRight sameRight
          simp only [Piece.isChained, Bool.or_eq_true, Bool.and_eq_true] at chained
          simp only [Expr.isNormal, Bool.or_eq_true, Bool.and_eq_true]
          refine ⟨⟨?_, normalLeft⟩, normalRight⟩
          exact chained.imp (.imp (.imp stuckLeft stuckRight) (.imp stuckLeft sameRight))
            (.imp sameLeft stuckRight)

omit hask in
theorem readNeutral {e : Neutral} (he : I.Admits (.neutral e)) :
    G.keeps (ReadBack.readNeutral read Γ e) fun n => I.proper → n.isStuck = true ∧ n.isNormal = true := by
  cases e with
  | var x => exact G.pure fun _ => ⟨rfl, rfl⟩
  | app f a =>
      obtain ⟨hf, ha⟩ := he.parts rfl
      refine G.bind (h.neutral hf) fun f hnf => ?_
      refine G.bind (h.typed ha) fun a hna => ?_
      exact G.pure fun proper => ⟨rfl, by simp [Expr.isNormal, hnf proper, (hna proper).normal]⟩
  | proj p t =>
      refine G.bind (h.neutral (he.parts rfl)) fun t hnt => ?_
      exact G.pure fun proper => ⟨rfl, by simp [Expr.isNormal, hnt proper]⟩
  | fold f t b s =>
      obtain ⟨ht, hb, hs⟩ := he.parts rfl
      refine G.bind (h.neutral ht) fun t hnt => ?_
      refine G.bind (h.annotated hb) ?_
      rintro _ ⟨T, b, rfl, hnb⟩
      refine G.bind (h.typed hs) fun s hns => ?_
      exact G.pure fun proper => ⟨rfl, by simp [Expr.isNormal, hnt proper, hnb proper, (hns proper).normal]⟩
  | induct i t m b s =>
      obtain ⟨ht, hm, hb, hs⟩ := he.parts rfl
      refine G.bind (h.neutral ht) fun t hnt => ?_
      refine G.bind (h.typed hm) fun m hnm => ?_
      refine G.bind (h.typed hb) fun b hnb => ?_
      refine G.bind (h.typed hs) fun s hns => ?_
      exact G.pure fun proper => ⟨rfl, by
        simp [Expr.isNormal, hnt proper, (hnm proper).normal, (hnb proper).normal, (hns proper).normal]⟩
  | transport k t m b =>
      obtain ⟨ht, hm, hb⟩ := he.parts rfl
      refine G.bind (h.neutral ht) fun t hnt => ?_
      refine G.bind (h.typed hm) fun m hnm => ?_
      refine G.bind (h.typed hb) fun b hnb => ?_
      exact G.pure fun proper => ⟨rfl, by
        simp [Expr.isNormal, hnt proper, (hnm proper).normal, (hnb proper).normal]⟩
  | indAbsurd t m =>
      cases m with
      | mk M m =>
          obtain ⟨ht, hm⟩ := he.parts rfl
          refine G.bind (h.neutral ht) fun t hnt => ?_
          refine G.bind (h.type (hm.parts rfl).2) fun m hnm => ?_
          exact G.pure fun proper => ⟨rfl, by simp [Expr.isNormal, hnt proper, hnm proper]⟩
  | indVec k t m b s =>
      obtain ⟨hk, ht, hm, hb, hs⟩ := he.parts rfl
      refine G.bind (h.typed hk) fun k hnk => ?_
      refine G.bind (h.neutral ht) fun t hnt => ?_
      refine G.bind (h.typed hm) fun m hnm => ?_
      refine G.bind (h.typed hb) fun b hnb => ?_
      refine G.bind (h.typed hs) fun s hns => ?_
      exact G.pure fun proper => ⟨rfl, by
        simp [Expr.isNormal, (hnk proper).normal, hnt proper, (hnm proper).normal, (hnb proper).normal,
          (hns proper).normal]⟩
  | trans l r => exact h.chain he
  | cong t f =>
      obtain ⟨ht, hf⟩ := he.parts rfl
      refine G.bind (h.neutral ht) fun t hnt => ?_
      refine G.bind (h.annotated hf) ?_
      rintro _ ⟨F, f, rfl, hnf⟩
      exact G.pure fun proper => ⟨rfl, by simp [Expr.isNormal, hnt proper, hnf proper]⟩

include vars in
theorem step : G.Reads (ReadBack.step ask read) := by
  intro Γ r hr
  cases r with
  | value T v => exact h.readValue hask vars hr.1 hr.2
  | type v =>
      refine G.bind (hask.force hr) fun T hT => ?_
      exact G.imp (h.former hask vars hT) fun e he proper => ⟨he proper, nofun, nofun⟩
  | neutral e => exact G.imp (h.readNeutral hr) fun n hn proper => ⟨(hn proper).2, fun _ => (hn proper).1, nofun⟩

end Reads

/-- Read-back keeps within bounds as evaluation does, and gives normal forms if chains are proper. -/
theorem readings (vars : ∀ y, I.Admits (.neutral (.var y))) (asks : ∀ n, G.Asks (run n)) (n : Nat) : G.Reads (TypeKernel.readings n) := by
  induction n with
  | zero => exact fun _ _ _ => G.stop False.elim
  | succ n ih => exact ih.step (asks n) vars

end Guard

end TypeKernel
