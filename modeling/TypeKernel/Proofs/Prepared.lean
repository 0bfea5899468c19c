/-
# TypeKernel.Proofs.Prepared — evaluation of elaborated code

Evaluation relies on what elaboration does: every variable has a value, no hole and nothing unknown is left,
and the arguments whose types a stuck eliminator must record are annotated. `Expr.Elaborated N` says this of
an expression with free variables in `N`. A value is prepared (`Prepared`) if all the code in it is
elaborated, wherever it is kept: in closures, in delayed values, in the environments of both.

Evaluating elaborated code in a prepared environment gives a prepared value, and so does everything that can
be done with prepared values. It may run out of steps, and it may fail where values do not fit each other, but
never for the lack of what elaboration provides (`Spared`). To be prepared is an invariant of evaluation
(`Prepared.invariant`), so this follows for all its rules together (`run_prepared`).
-/
import TypeKernel.Atom
import TypeKernel.Proofs.Invariants
import TypeKernel.Proofs.Rules

namespace TypeKernel

set_option autoImplicit false

open Machine

/-! ## Elaborated code -/

/-- Elaborated form: without holes and unknown forms, with atoms that are atoms, and with annotations on the
bases of folds and the functions of congruences. The free variables are in `N`. -/
def Expr.Elaborated (N : Name → Prop) : Expr → Prop
  | .var x => N x
  | .quote a => isAtom a = true
  | .const _ => True
  | .todo | .malformed _ => False
  | .unary _ e => e.Elaborated N
  | .binary _ e₁ e₂ => e₁.Elaborated N ∧ e₂.Elaborated N
  | .equal t l r => t.Elaborated N ∧ l.Elaborated N ∧ r.Elaborated N
  | .quant _ y d r => d.Elaborated N ∧ r.Elaborated fun z => z = y ∨ N z
  | .lam y b => b.Elaborated fun z => z = y ∨ N z
  | .the t e => t.Elaborated N ∧ e.Elaborated N
  | .app f a => f.Elaborated N ∧ a.Elaborated N
  | .proj _ t => t.Elaborated N
  | .fold _ t b s => b.isAnnotated = true ∧ t.Elaborated N ∧ b.Elaborated N ∧ s.Elaborated N
  | .induct _ t m b s => t.Elaborated N ∧ m.Elaborated N ∧ b.Elaborated N ∧ s.Elaborated N
  | .transport _ t m b => t.Elaborated N ∧ m.Elaborated N ∧ b.Elaborated N
  | .indAbsurd t m => t.Elaborated N ∧ m.Elaborated N
  | .indVec k t m b s =>
      k.Elaborated N ∧ t.Elaborated N ∧ m.Elaborated N ∧ b.Elaborated N ∧ s.Elaborated N
  | .trans l r => l.Elaborated N ∧ r.Elaborated N
  | .cong t f => f.isAnnotated = true ∧ t.Elaborated N ∧ f.Elaborated N

theorem Expr.Elaborated.mono {e : Expr} : ∀ {N N' : Name → Prop},
    e.Elaborated N → (∀ x, N x → N' x) → e.Elaborated N' := by
  have under : ∀ {N N' : Name → Prop} (y : Name), (∀ x, N x → N' x) →
      ∀ x, x = y ∨ N x → x = y ∨ N' x := fun _ h x hx => hx.imp id (h x)
  induction e with
  | var x => exact fun h hN => hN x h
  | quote _ => exact fun h _ => h
  | const _ => exact fun _ _ => trivial
  | todo | malformed _ => exact fun h _ => h.elim
  | unary _ _ ih | proj _ _ ih => exact fun h hN => ih h hN
  | binary _ _ _ ih₁ ih₂ | the _ _ ih₁ ih₂ | app _ _ ih₁ ih₂ | indAbsurd _ _ ih₁ ih₂
  | trans _ _ ih₁ ih₂ => exact fun h hN => ⟨ih₁ h.1 hN, ih₂ h.2 hN⟩
  | equal _ _ _ ih₁ ih₂ ih₃ | transport _ _ _ _ ih₁ ih₂ ih₃ =>
      exact fun h hN => ⟨ih₁ h.1 hN, ih₂ h.2.1 hN, ih₃ h.2.2 hN⟩
  | fold _ _ _ _ iht ihb ihs =>
      exact fun h hN => ⟨h.1, iht h.2.1 hN, ihb h.2.2.1 hN, ihs h.2.2.2 hN⟩
  | cong _ _ iht ihf => exact fun h hN => ⟨h.1, iht h.2.1 hN, ihf h.2.2 hN⟩
  | induct _ _ _ _ _ ih₁ ih₂ ih₃ ih₄ =>
      exact fun h hN => ⟨ih₁ h.1 hN, ih₂ h.2.1 hN, ih₃ h.2.2.1 hN, ih₄ h.2.2.2 hN⟩
  | indVec _ _ _ _ _ ih₁ ih₂ ih₃ ih₄ ih₅ =>
      exact fun h hN =>
        ⟨ih₁ h.1 hN, ih₂ h.2.1 hN, ih₃ h.2.2.1 hN, ih₄ h.2.2.2.1 hN, ih₅ h.2.2.2.2 hN⟩
  | quant _ y _ _ ihd ihr => exact fun h hN => ⟨ihd h.1 hN, ihr h.2 (under y hN)⟩
  | lam y _ ih => exact fun h hN => ih h (under y hN)

theorem Env.binds_extend {ρ : Env} {x y : Name} {v : Value} (h : y = x ∨ ρ.Binds y) :
    (ρ.extend x v).Binds y := by
  by_cases hy : y = x
  · subst hy
    exact ⟨v, ρ.get?_extend_self y v⟩
  · obtain ⟨w, hw⟩ := h.resolve_left hy
    exact ⟨w, (ρ.get?_extend_of_ne v (Ne.symm hy)).trans hw⟩

/-- All code in the piece is elaborated, and its free variables are in `N`. -/
inductive Prepared (N : Name → Prop) : Piece → Prop
  | const (c : Const) : Prepared N (.value (.const c))
  | quote {a} (ha : isAtom a = true) : Prepared N (.value (.quote a))
  | unary {v} (u : Unary) (h : Prepared N (.value v)) : Prepared N (.value (.unary u v))
  | binary {v w} (b : Binary) (hv : Prepared N (.value v)) (hw : Prepared N (.value w)) :
      Prepared N (.value (.binary b v w))
  | equal {t l r} (ht : Prepared N (.value t)) (hl : Prepared N (.value l))
      (hr : Prepared N (.value r)) : Prepared N (.value (.equal t l r))
  | quant {x d r} (q : Quantifier) (hd : Prepared N (.value d)) (hr : Prepared N (.closure r)) :
      Prepared N (.value (.quant q x d r))
  | lam {x b} (hb : Prepared N (.closure b)) : Prepared N (.value (.lam x b))
  | neutral {t e} (ht : Prepared N (.value t)) (he : Prepared N (.neutral e)) :
      Prepared N (.value (.neutral t e))
  | delayed {c ρ e} (hρ : Prepared N (.env ρ)) (he : e.Elaborated ρ.Binds) :
      Prepared N (.value (.delayed c ρ e))
  | var {x} (hx : N x) : Prepared N (.neutral (.var x))
  | app {f a} (hf : Prepared N (.neutral f)) (ha : Prepared N (.typed a)) :
      Prepared N (.neutral (.app f a))
  | proj {t} (p : Projection) (ht : Prepared N (.neutral t)) : Prepared N (.neutral (.proj p t))
  | fold {t b s} (f : Fold) (ht : Prepared N (.neutral t)) (hb : Prepared N (.typed b))
      (hs : Prepared N (.typed s)) : Prepared N (.neutral (.fold f t b s))
  | induct {t m b s} (i : Induction) (ht : Prepared N (.neutral t)) (hm : Prepared N (.typed m))
      (hb : Prepared N (.typed b)) (hs : Prepared N (.typed s)) :
      Prepared N (.neutral (.induct i t m b s))
  | transport {t m b} (k : Transport) (ht : Prepared N (.neutral t)) (hm : Prepared N (.typed m))
      (hb : Prepared N (.typed b)) : Prepared N (.neutral (.transport k t m b))
  | indAbsurd {t m} (ht : Prepared N (.neutral t)) (hm : Prepared N (.typed m)) :
      Prepared N (.neutral (.indAbsurd t m))
  | indVec {k t m b s} (hk : Prepared N (.typed k)) (ht : Prepared N (.neutral t))
      (hm : Prepared N (.typed m)) (hb : Prepared N (.typed b)) (hs : Prepared N (.typed s)) :
      Prepared N (.neutral (.indVec k t m b s))
  | trans {l r} (hl : Prepared N (.typed l)) (hr : Prepared N (.typed r)) :
      Prepared N (.neutral (.trans l r))
  | cong {t f} (ht : Prepared N (.neutral t)) (hf : Prepared N (.typed f)) :
      Prepared N (.neutral (.cong t f))
  | typed {t v} (ht : Prepared N (.value t)) (hv : Prepared N (.value v)) :
      Prepared N (.typed (.mk t v))
  | code {ρ x b} (hρ : Prepared N (.env ρ)) (hb : b.Elaborated fun z => z = x ∨ ρ.Binds z) :
      Prepared N (.closure (.code ρ x b))
  | family {x f} (hf : Prepared N (.family f)) : Prepared N (.closure (.family x f))
  | always {t} (ht : Prepared N (.value t)) : Prepared N (.family (.always t))
  | fixed {m v} (hm : Prepared N (.value m)) (hv : Prepared N (.value v)) :
      Prepared N (.family (.fixed m v))
  | fixedBoth {m v w} (hm : Prepared N (.value m)) (hv : Prepared N (.value v))
      (hw : Prepared N (.value w)) : Prepared N (.family (.fixedBoth m v w))
  | wrapped {m} (u : Unary) (hm : Prepared N (.value m)) : Prepared N (.family (.wrapped u m))
  | natStep {m} (hm : Prepared N (.value m)) : Prepared N (.family (.natStep m))
  | listStep {e m} (he : Prepared N (.value e)) (hm : Prepared N (.value m)) :
      Prepared N (.family (.listStep e m))
  | listStepTail {m v} (hm : Prepared N (.value m)) (hv : Prepared N (.value v)) :
      Prepared N (.family (.listStepTail m v))
  | vecMotive {e} (he : Prepared N (.value e)) : Prepared N (.family (.vecMotive e))
  | vecStep {e m} (he : Prepared N (.value e)) (hm : Prepared N (.value m)) :
      Prepared N (.family (.vecStep e m))
  | vecStepHead {e m k} (he : Prepared N (.value e)) (hm : Prepared N (.value m))
      (hk : Prepared N (.value k)) : Prepared N (.family (.vecStepHead e m k))
  | vecStepTail {m k v} (hm : Prepared N (.value m)) (hk : Prepared N (.value k))
      (hv : Prepared N (.value v)) : Prepared N (.family (.vecStepTail m k v))
  | equalMotive {t l} (ht : Prepared N (.value t)) (hl : Prepared N (.value l)) :
      Prepared N (.family (.equalMotive t l))
  | empty : Prepared N (.env .empty)
  | extend {ρ x v} (hρ : Prepared N (.env ρ)) (hv : Prepared N (.value v)) :
      Prepared N (.env (.extend ρ x v))

abbrev Value.Prepared (N : Name → Prop) (v : Value) : Prop :=
  TypeKernel.Prepared N (.value v)

namespace Prepared

variable {N N' : Name → Prop}

theorem mono {p : Piece} (h : Prepared N p) (hN : ∀ x, N x → N' x) : Prepared N' p := by
  induction h with
  | var hx => exact .var (hN _ hx)
  | delayed _ he ih => exact .delayed ih he
  | code _ hb ih => exact .code ih hb
  | quote ha => exact .quote ha
  | _ => constructor <;> assumption

theorem parts {p : Piece} (h : Prepared N p) : ∀ q ∈ p.parts, Prepared N q := by
  cases h <;> simp [Piece.parts, *]

theorem of {p : Piece} (built : p.isBuilt = true) (h : p.parts.Forall (Prepared N)) : Prepared N p := by
  cases p with
  | value v | neutral v | typed v | closure v | family v | env v =>
      cases v <;> first | (cases built; done) | (simp [Piece.parts] at h; constructor <;> simp_all)

theorem piFamily {d : Value} {f : Family} (x : Name) (hd : Prepared N (.value d))
    (hf : Prepared N (.family f)) : Prepared N (.value (.piFamily x d f)) :=
  .quant .pi hd (.family hf)

theorem ofVar {d : Value} {y : Name} (hd : Prepared N (.value d)) (hy : N y) :
    Prepared N (.value (.ofVar y d)) :=
  .neutral hd (.var hy)

theorem get? {ρ : Env} (h : Prepared N (.env ρ)) {x : Name} {v : Value} (hv : ρ.get? x = some v) :
    Prepared N (.value v) := by
  generalize hp : Piece.env ρ = p at h
  induction h generalizing ρ with
  | empty =>
      cases hp
      cases hv
  | @extend ρ y w _ hw ih _ =>
      cases hp
      by_cases hy : y = x
      · subst hy
        rw [Env.get?_extend_self] at hv
        cases hv
        exact hw
      · rw [Env.get?_extend_of_ne _ _ hy] at hv
        exact ih hv rfl
  | _ => cases hp

end Prepared

/-! ## Outcomes -/

/-- A result that satisfies `P`, or a failure that is not for the lack of elaboration. -/
inductive Spared {α : Type} (P : α → Prop) : ByName α → Prop
  | ok {a} (h : P a) : Spared P (.ok a)
  | failed {e} (h : ¬ e.Unelaborated) : Spared P (.error (.failed e))
  | exhausted : Spared P (.error .exhausted)

namespace Spared

variable {α β : Type} {P : α → Prop} {Q : β → Prop}

theorem bind {x : ByName α} {f : α → ByName β} (h : Spared P x) (hf : ∀ a, P a → Spared Q (f a)) :
    Spared Q (x >>= f) := by
  cases h with
  | ok h => exact hf _ h
  | failed h => exact .failed h
  | exhausted => exact .exhausted

theorem imp {R : α → Prop} {x : ByName α} (h : Spared P x) (hR : ∀ a, P a → R a) : Spared R x := by
  cases h with
  | ok h => exact .ok (hR _ h)
  | failed h => exact .failed h
  | exhausted => exact .exhausted

theorem of_ok {x : ByName α} {a : α} (h : Spared P x) (hx : x = .ok a) : P a := by
  subst hx
  cases h with
  | ok h => exact h

end Spared

/-! ## Evaluation -/

/-- The code in prepared values is evaluated in prepared environments, and it lacks nothing. -/
def Prepared.invariant (N : Name → Prop) : Invariant where
  Admits := Prepared N
  Fits ρ e := Prepared N (.env ρ) ∧ e.Elaborated ρ.Binds
  lacks := False
  proper := False
  of := of
  parts h _ := List.forall_iff_forall_mem.2 h.parts
  chained := False.elim
  code h := .code h.1 h.2
  enter hc hv := by
    cases hc with
    | code hρ hb => exact ⟨.extend hρ hv, hb.mono fun _ => Env.binds_extend⟩
  entry h hv := h.1.get? hv
  quote h := .quote h.2
  operands {ρ e} h := by
    obtain ⟨hρ, he⟩ := h
    cases e <;> simp_all [Expr.operands, Expr.Elaborated]
  ready {ρ e} h := by
    obtain ⟨-, he⟩ := h
    cases e <;> simp_all [Expr.Ready, Expr.Elaborated]

/-- Computations by name that do not fail for the lack of elaboration. -/
def Prepared.guard (N : Name → Prop) : Guard ByName (invariant N) where
  keeps x Q := Spared Q x
  pure := .ok
  bind := .bind
  imp := .imp
  stop {_ _ reason} h := by
    cases reason with
    | failed e => exact .failed h
    | exhausted => exact .exhausted
  suspend h := .ok (.delayed h.1 h.2)

/-- Whatever is asked about prepared values is answered with a prepared value, or it runs out of steps, or
it fails for other reasons than the lack of elaboration. -/
theorem run_prepared (N : Name → Prop) (n : Nat) : (Prepared.guard N).Asks (run n) := by
  induction n with
  | zero => exact fun _ _ => .exhausted
  | succ n ih =>
      refine ih.step fun {c ρ e} hv => ?_
      cases hv with
      | delayed hρ he =>
          rw [Eval.force_delayed]
          exact (Prepared.guard N).bind (ih.eval ⟨hρ, he⟩) fun _ hw => ih.force hw

theorem answer_prepared (N : Name → Prop) : (Prepared.guard N).Asks answer := by
  intro r hr
  obtain ⟨n, hn⟩ := settled r
  rcases hn n (Nat.le_refl n) with he | he
  · rw [he]
    exact .exhausted
  · rw [he]
    exact run_prepared N n hr

end TypeKernel
