/-
# TypeKernel.Proofs.Invariants — properties of values that evaluation keeps

Each rule of evaluation asks for things, takes values apart and builds others from their parts. So a property of
values that holds of what is built from parts exactly if it holds of the parts is kept by all rules alike. What
differs from one property to the other is what it says of code. `Invariant` has both, and a `Guard` is a way to
run computations that keeps an invariant; the rules are gone through once, for all guards
(`Guard.Asks.step`).

An invariant may include that code is ready to be evaluated: that its variables have values, that no hole is
left, and that what a stuck eliminator must record the type of is annotated. Then evaluation does not fail for
the lack of any of these (`Error.Unelaborated`).
-/
import TypeKernel.Proofs.Forms
import TypeKernel.Proofs.History

namespace TypeKernel

set_option autoImplicit false

open Machine

/-! ## Pieces and code -/

namespace Typed

/-- A proof of equality that is stuck. -/
def isStuckProof : Typed → Bool
  | .mk (.equal _ _ _) (.neutral _ _) => true
  | _ => false

/-- A proof of equality that is trivial. -/
def isTrivialProof : Typed → Bool
  | .mk (.equal _ _ _) (.same _) => true
  | _ => false

end Typed

namespace Piece

/-- Whether a piece is an environment, or refers to one. -/
def isCapturing : Piece → Bool
  | .value (.delayed _ _ _) | .closure (.code _ _ _) | .env _ => true
  | _ => false

/-- A chain of two proofs has a stuck one, and the other is stuck or trivial. -/
def isChained : Piece → Bool
  | .neutral (.trans l r) =>
      (l.isStuckProof && r.isStuckProof) || (l.isStuckProof && r.isTrivialProof) ||
        (l.isTrivialProof && r.isStuckProof)
  | _ => true

/-- Whether a piece is what evaluation builds from other pieces alone: it captures no environment, and is neither
an atom nor a variable, which come from code. -/
def isBuilt : Piece → Bool
  | .value (.quote _) | .neutral (.var _) => false
  | p => !p.isCapturing && p.isChained

end Piece

namespace Expr

/-- Whether an expression shows its type. -/
def isAnnotated : Expr → Bool
  | .the _ _ => true
  | _ => false

/-- The expressions that are evaluated or put off with an expression, in the same environment. The scope of a
`Π` or `Σ` is put off as a function. -/
def operands : Expr → List Expr
  | .var _ | .quote _ | .const _ | .lam _ _ | .todo | .malformed _ => []
  | .unary _ e | .proj _ e => [e]
  | .binary _ a b | .the a b | .app a b | .indAbsurd a b | .trans a b | .cong a b => [a, b]
  | .equal a b c | .fold _ a b c | .transport _ a b c => [a, b, c]
  | .quant _ x d r => [d, .lam x r]
  | .induct _ a b c d => [a, b, c, d]
  | .indVec a b c d e => [a, b, c, d, e]

end Expr

/-- The name has a value. -/
def Env.Binds (ρ : Env) (x : Name) : Prop :=
  ∃ v, ρ.get? x = some v

/-- Nothing is lacking on the surface of an expression: a variable has a value, the base of a fold and the
function of a congruence are annotated, and there is a rule. -/
def Expr.Ready (ρ : Env) : Expr → Prop
  | .var x => ρ.Binds x
  | .fold _ _ b _ => b.isAnnotated = true
  | .cong _ f => f.isAnnotated = true
  | .todo | .malformed _ => False
  | _ => True

/-- Errors that elaborated code does not cause. -/
def Error.Unelaborated : Error → Prop
  | .rejection (.incomplete _) => True
  | .defect (.noEvaluationRule _) | .defect (.unboundLookup _) | .defect (.untypedBase _) => True
  | _ => False

def Stop.Unelaborated : Stop → Prop
  | .failed e => e.Unelaborated
  | .exhausted => False

/-! ## Invariants -/

/-- A property of pieces that evaluation keeps. -/
structure Invariant where
  /-- The piece has the property. -/
  Admits : Piece → Prop
  /-- The expression may be evaluated in the environment. -/
  Fits : Env → Expr → Prop
  /-- Whether code may lack what elaboration provides. -/
  lacks : Prop
  /-- Whether chains of proofs are as evaluation builds them. -/
  proper : Prop
  of : ∀ {p}, p.isBuilt = true → p.parts.Forall Admits → Admits p
  parts : ∀ {p}, Admits p → p.isCapturing = false → p.parts.Forall Admits
  chained : ∀ {p}, proper → Admits p → p.isChained = true
  code : ∀ {ρ x b}, Fits ρ (.lam x b) → Admits (.closure (.code ρ x b))
  enter : ∀ {ρ x b v}, Admits (.closure (.code ρ x b)) → Admits (.value v) → Fits (ρ.extend x v) b
  entry : ∀ {ρ x v}, Fits ρ (.var x) → ρ.get? x = some v → Admits (.value v)
  quote : ∀ {ρ a}, Fits ρ (.quote a) → Admits (.value (.quote a))
  operands : ∀ {ρ e}, Fits ρ e → e.operands.Forall (Fits ρ)
  ready : ∀ {ρ e}, Fits ρ e → e.Ready ρ ∨ lacks

namespace Invariant

variable {I : Invariant} {d : Value} {f : Family}

/-- The value has the property. -/
abbrev Allows (I : Invariant) (v : Value) : Prop :=
  I.Admits (.value v)

namespace Admits

theorem of {p : Piece} (built : p.isBuilt = true) (h : p.parts.Forall I.Admits) : I.Admits p :=
  I.of built h

theorem parts {p : Piece} (h : I.Admits p) (hp : p.isCapturing = false) : p.parts.Forall I.Admits :=
  I.parts h hp

theorem const (k : Const) : I.Allows (.const k) :=
  of rfl trivial

theorem piFamily (x : Name) (hd : I.Allows d) (hf : I.Admits (.family f)) : I.Allows (.piFamily x d f) :=
  of rfl ⟨hd, of rfl hf⟩

theorem always (hd : I.Allows d) : I.Admits (.family (.always d)) :=
  of rfl hd

theorem ofVar {y : Name} (hy : I.Admits (.neutral (.var y))) (hd : I.Allows d) : I.Allows (.ofVar y d) :=
  of rfl ⟨hd, hy⟩

end Admits

/-- A type that has the property, or none, where it may be lacking. -/
def Types (I : Invariant) (T : Option Value) : Prop :=
  (∀ T' ∈ T, I.Allows T') ∧ (T = none → I.lacks)

/-- What a request is about has the property. -/
def Permits (I : Invariant) : Request → Prop
  | .eval ρ e => I.Fits ρ e
  | .force v => I.Allows v
  | .apply c v => I.Admits (.closure c) ∧ I.Allows v
  | .fold _ t T b s => I.Allows t ∧ I.Types T ∧ I.Allows b ∧ I.Allows s
  | .induct _ t m b s => I.Allows t ∧ I.Allows m ∧ I.Allows b ∧ I.Allows s
  | .indVec k t m b s => I.Allows k ∧ I.Allows t ∧ I.Allows m ∧ I.Allows b ∧ I.Allows s

/-- An answer with the property. What is not delayed is its own form. -/
def Answered (I : Invariant) (r : Request) (v : Value) : Prop :=
  I.Allows v ∧ ∀ w, r = .force w → w.isDelayed = false → v = w

end Invariant

/-! ## Computations -/

/-- A way to run computations that keeps an invariant: `keeps x Q` says that `x` does, and that what it returns
satisfies `Q`. -/
structure Guard (m : Type → Type) [Machine m] (I : Invariant) where
  keeps : {α : Type} → m α → (α → Prop) → Prop
  pure : ∀ {α : Type} {Q : α → Prop} {a : α}, Q a → keeps (pure a) Q
  bind : ∀ {α β : Type} {P : α → Prop} {Q : β → Prop} {x : m α} {f : α → m β},
    keeps x P → (∀ a, P a → keeps (f a) Q) → keeps (x >>= f) Q
  imp : ∀ {α : Type} {P Q : α → Prop} {x : m α}, keeps x P → (∀ a, P a → Q a) → keeps x Q
  stop : ∀ {α : Type} {Q : α → Prop} {reason : Stop}, (reason.Unelaborated → I.lacks) →
    keeps (stop reason) Q
  suspend : ∀ {ρ : Env} {e : Expr}, I.Fits ρ e → keeps (suspend ρ e) I.Allows

namespace Guard

variable {m : Type → Type} [Machine m] {I : Invariant} (G : Guard m I)

/-- Requests with the property have answers with the property. -/
def Asks (ask : Request → m Value) : Prop :=
  ∀ ⦃r : Request⦄, I.Permits r → G.keeps (ask r) (I.Answered r)

theorem irreducible {α : Type} {Q : α → Prop} (eliminator : Eliminator) (v : Value) :
    G.keeps (irreducible eliminator v) Q :=
  G.stop False.elim

namespace Asks

variable {G} {ask : Request → m Value} (h : G.Asks ask)

include h

theorem answer {r : Request} (hr : I.Permits r) : G.keeps (ask r) I.Allows :=
  G.imp (h hr) fun _ hv => hv.1

theorem force {v : Value} (hv : I.Allows v) : G.keeps (ask (.force v)) I.Allows :=
  h.answer (r := .force v) hv

theorem apply {c : Closure} {v : Value} (hc : I.Admits (.closure c)) (hv : I.Allows v) :
    G.keeps (ask (.apply c v)) I.Allows :=
  h.answer (r := .apply c v) ⟨hc, hv⟩

theorem call {f a : Value} (hf : I.Allows f) (ha : I.Allows a) : G.keeps (Eval.call ask f a) I.Allows := by
  refine G.bind (h.force hf) fun v hv => ?_
  split
  · exact h.apply (hv.parts rfl) ha
  · obtain ⟨hT, he⟩ := hv.parts rfl
    refine G.bind (h.force hT) fun T hT => ?_
    split
    · obtain ⟨hd, hr⟩ := hT.parts rfl
      refine G.bind (h.apply hr ha) fun R hR => ?_
      exact G.pure (.of rfl ⟨hR, .of rfl ⟨he, .of rfl ⟨hd, ha⟩⟩⟩)
    · exact G.irreducible _ _
  · exact G.irreducible _ _

theorem callBoth {f a b : Value} (hf : I.Allows f) (ha : I.Allows a) (hb : I.Allows b) :
    G.keeps (Eval.callBoth ask f a b) I.Allows :=
  G.bind (h.call hf ha) fun _ hv => h.call hv hb

theorem applyFamily {a : Value} {f : Family} (ha : I.Allows a) (hf : I.Admits (.family f)) :
    G.keeps (Eval.applyFamily ask a f) I.Allows := by
  cases f with
  | always T => exact G.pure (hf.parts rfl)
  | fixed motive v =>
      obtain ⟨hm, hv⟩ := hf.parts rfl
      exact h.call hm hv
  | fixedBoth motive v w =>
      obtain ⟨hm, hv, hw⟩ := hf.parts rfl
      exact h.callBoth hm hv hw
  | wrapped u motive => exact h.call (hf.parts rfl) (.of rfl ha)
  | natStep motive =>
      have hm : I.Allows motive := hf.parts rfl
      refine G.bind (h.call hm ha) fun R hR => ?_
      exact G.pure (.piFamily _ hR (.of rfl ⟨hm, .of rfl ha⟩))
  | listStep entry motive =>
      obtain ⟨hE, hm⟩ := hf.parts rfl
      exact G.pure (.piFamily _ (.of rfl hE) (.of rfl ⟨hm, ha⟩))
  | listStepTail motive v =>
      obtain ⟨hm, hv⟩ := hf.parts rfl
      refine G.bind (h.call hm ha) fun R hR => ?_
      exact G.pure (.piFamily _ hR (.of rfl ⟨hm, .of rfl ⟨hv, ha⟩⟩))
  | vecMotive entry =>
      exact G.pure (.piFamily _ (.of rfl ⟨hf.parts rfl, ha⟩) (.always (.const _)))
  | vecStep entry motive =>
      obtain ⟨hE, hm⟩ := hf.parts rfl
      exact G.pure (.piFamily _ hE (.of rfl ⟨hE, hm, ha⟩))
  | vecStepHead entry motive k =>
      obtain ⟨hE, hm, hk⟩ := hf.parts rfl
      exact G.pure (.piFamily _ (.of rfl ⟨hE, hk⟩) (.of rfl ⟨hm, hk, ha⟩))
  | vecStepTail motive k v =>
      obtain ⟨hm, hk, hv⟩ := hf.parts rfl
      refine G.bind (h.callBoth hm hk ha) fun R hR => ?_
      exact G.pure (.piFamily _ hR (.of rfl ⟨hm, .of rfl hk, .of rfl ⟨hv, ha⟩⟩))
  | equalMotive T l =>
      obtain ⟨hT, hl⟩ := hf.parts rfl
      exact G.pure (.piFamily _ (.of rfl ⟨hT, hl, ha⟩) (.always (.const _)))

theorem entryType (eliminator : Eliminator) {T : Value} (e : Neutral) (hT : I.Allows T) :
    G.keeps (Eval.entryType ask eliminator T e) I.Allows := by
  refine G.bind (h.force hT) fun v hv => ?_
  split
  · exact G.pure (hv.parts rfl)
  · exact G.irreducible _ _

theorem equalityOf (eliminator : Eliminator) {T : Value} (e : Neutral) (hT : I.Allows T) :
    G.keeps (Eval.equalityOf ask eliminator T e) fun p =>
      I.Allows p.1 ∧ I.Allows p.2.1 ∧ I.Allows p.2.2 := by
  refine G.bind (h.force hT) fun v hv => ?_
  split
  · exact G.pure (hv.parts rfl)
  · exact G.irreducible _ _

omit h in
theorem requireType (eliminator : Eliminator) {T : Option Value} (hT : I.Types T) :
    G.keeps (Eval.requireType eliminator T) I.Allows := by
  cases T with
  | none => exact G.stop fun _ => hT.2 rfl
  | some T => exact G.pure (hT.1 T rfl)

/-! ### Projections -/

theorem car {t : Value} (ht : I.Allows t) : G.keeps (Eval.car ask t) I.Allows := by
  refine G.bind (h.force ht) fun v hv => ?_
  split
  · exact G.pure (hv.parts rfl).1
  · obtain ⟨hT, he⟩ := hv.parts rfl
    refine G.bind (h.force hT) fun T hT => ?_
    split
    · obtain ⟨hd, -⟩ := hT.parts rfl
      exact G.pure (.of rfl ⟨hd, .of rfl he⟩)
    · exact G.irreducible _ _
  · exact G.irreducible _ _

theorem cdr {t : Value} (ht : I.Allows t) : G.keeps (Eval.cdr ask t) I.Allows := by
  refine G.bind (h.force ht) fun v hv => ?_
  split
  · exact G.pure (hv.parts rfl).2
  · obtain ⟨hT, he⟩ := hv.parts rfl
    refine G.bind (h.force hT) fun T hT => ?_
    split
    · obtain ⟨hd, hr⟩ := hT.parts rfl
      refine G.bind (h.apply hr (.of rfl ⟨hd, .of rfl he⟩)) fun R hR => ?_
      exact G.pure (.of rfl ⟨hR, .of rfl he⟩)
    · exact G.irreducible _ _
  · exact G.irreducible _ _

theorem head {t : Value} (ht : I.Allows t) : G.keeps (Eval.head ask t) I.Allows := by
  refine G.bind (h.force ht) fun v hv => ?_
  split
  · exact G.pure (hv.parts rfl).1
  · obtain ⟨hT, he⟩ := hv.parts rfl
    refine G.bind (h.force hT) fun T hT => ?_
    split
    · exact G.pure (.of rfl ⟨(hT.parts rfl).1, .of rfl he⟩)
    · exact G.irreducible _ _
  · exact G.irreducible _ _

theorem tail {t : Value} (ht : I.Allows t) : G.keeps (Eval.tail ask t) I.Allows := by
  refine G.bind (h.force ht) fun v hv => ?_
  split
  · exact G.pure (hv.parts rfl).2
  · obtain ⟨hT, he⟩ := hv.parts rfl
    refine G.bind (h.force hT) fun T hT => ?_
    split
    · obtain ⟨hE, hk⟩ := hT.parts rfl
      refine G.bind (h.force hk) fun k hk => ?_
      split
      · exact G.pure (.of rfl ⟨.of rfl ⟨hE, hk.parts rfl⟩, .of rfl he⟩)
      · exact G.irreducible _ _
    · exact G.irreducible _ _
  · exact G.irreducible _ _

theorem symm {t : Value} (ht : I.Allows t) : G.keeps (Eval.symm ask t) I.Allows := by
  refine G.bind (h.force ht) fun v hv => ?_
  split
  · exact G.pure hv
  · obtain ⟨hT, he⟩ := hv.parts rfl
    refine G.bind (h.equalityOf _ _ hT) fun ⟨T, l, r⟩ ⟨hT, hl, hr⟩ => ?_
    exact G.pure (.of rfl ⟨.of rfl ⟨hT, hr, hl⟩, .of rfl he⟩)
  · exact G.irreducible _ _

theorem project (p : Projection) {t : Value} (ht : I.Allows t) : G.keeps (Eval.project ask p t) I.Allows := by
  cases p with
  | car => exact h.car ht
  | cdr => exact h.cdr ht
  | head => exact h.head ht
  | tail => exact h.tail ht
  | symm => exact h.symm ht

/-! ### Recursion -/

section Fold

variable {t b s : Value} {T : Option Value} (ht : I.Allows t) (hT : I.Types T) (hb : I.Allows b)
  (hs : I.Allows s)

omit h in
include hT hb hs in
theorem stuckNatFold (f : Fold) {stepType : Value → Value} {e : Neutral} (he : I.Admits (.neutral e))
    (step : ∀ R, I.Allows R → I.Allows (stepType R)) :
    G.keeps (Eval.stuckNatFold f stepType e T b s) I.Allows := by
  refine G.bind (requireType _ hT) fun R hR => ?_
  exact G.pure (.of rfl ⟨hR, .of rfl ⟨he, .of rfl ⟨hR, hb⟩, .of rfl ⟨step R hR, hs⟩⟩⟩)

include ht hT hb hs

theorem whichNat : G.keeps (Eval.whichNat ask t T b s) I.Allows := by
  refine G.bind (h.force ht) fun v hv => ?_
  split
  · exact G.pure hb
  · exact h.call hs (hv.parts rfl)
  · exact stuckNatFold hT hb hs _ (hv.parts rfl).2 fun R hR => .piFamily _ (.const _) (.always hR)
  · exact G.irreducible _ _

theorem iterNat : G.keeps (Eval.iterNat ask t T b s) I.Allows := by
  refine G.bind (h.force ht) fun v hv => ?_
  split
  · exact G.pure hb
  · refine G.bind (h.answer (r := .fold ..) ⟨hv.parts rfl, hT, hb, hs⟩) fun r hr => ?_
    exact h.call hs hr
  · exact stuckNatFold hT hb hs _ (hv.parts rfl).2 fun R hR => .piFamily _ hR (.always hR)
  · exact G.irreducible _ _

theorem recNat : G.keeps (Eval.recNat ask t T b s) I.Allows := by
  refine G.bind (h.force ht) fun v hv => ?_
  split
  · exact G.pure hb
  · have hk := hv.parts rfl
    refine G.bind (h.call hs hk) fun f hf => ?_
    exact G.bind (h.answer (r := .fold ..) ⟨hk, hT, hb, hs⟩) fun r hr => h.call hf hr
  · exact stuckNatFold hT hb hs _ (hv.parts rfl).2 fun R hR =>
      .piFamily _ (.const _) (.always (.piFamily _ hR (.always hR)))
  · exact G.irreducible _ _

theorem recList : G.keeps (Eval.recList ask t T b s) I.Allows := by
  refine G.bind (h.force ht) fun v hv => ?_
  split
  · exact G.pure hb
  · obtain ⟨ha, has⟩ := hv.parts rfl
    refine G.bind (h.callBoth hs ha has) fun f hf => ?_
    exact G.bind (h.answer (r := .fold ..) ⟨has, hT, hb, hs⟩) fun r hr => h.call hf hr
  · obtain ⟨hL, he⟩ := hv.parts rfl
    refine G.bind (requireType _ hT) fun R hR => ?_
    refine G.bind (h.entryType _ _ hL) fun E hE => ?_
    have step : I.Allows (.recListStep E R) :=
      .piFamily _ hE (.always (.piFamily _ (.of rfl hE) (.always (.piFamily _ hR (.always hR)))))
    exact G.pure (.of rfl ⟨hR, .of rfl ⟨he, .of rfl ⟨hR, hb⟩, .of rfl ⟨step, hs⟩⟩⟩)
  · exact G.irreducible _ _

theorem fold (f : Fold) : G.keeps (Eval.fold ask f t T b s) I.Allows := by
  cases f with
  | whichNat => exact h.whichNat ht hT hb hs
  | iterNat => exact h.iterNat ht hT hb hs
  | recNat => exact h.recNat ht hT hb hs
  | recList => exact h.recList ht hT hb hs

end Fold

section Induct

variable {k t m b s : Value} (ht : I.Allows t) (hm : I.Allows m) (hb : I.Allows b) (hs : I.Allows s)

include ht hm hb hs

theorem indNat : G.keeps (Eval.indNat ask t m b s) I.Allows := by
  refine G.bind (h.force ht) fun v hv => ?_
  split
  · exact G.pure hb
  · have hk := hv.parts rfl
    refine G.bind (h.call hs hk) fun f hf => ?_
    exact G.bind (h.answer (r := .induct ..) ⟨hk, hm, hb, hs⟩) fun r hr => h.call hf hr
  · refine G.bind (h.call hm hv) fun R hR => ?_
    refine G.bind (h.call hm (.const _)) fun Z hZ => ?_
    have motive : I.Allows .natMotive := .piFamily _ (.const _) (.always (.const _))
    have step : I.Allows (.indNatStep m) := .piFamily _ (.const _) (.of rfl hm)
    exact G.pure (.of rfl ⟨hR, .of rfl ⟨(hv.parts rfl).2, .of rfl ⟨motive, hm⟩,
      .of rfl ⟨hZ, hb⟩, .of rfl ⟨step, hs⟩⟩⟩)
  · exact G.irreducible _ _

theorem indList : G.keeps (Eval.indList ask t m b s) I.Allows := by
  refine G.bind (h.force ht) fun v hv => ?_
  split
  · exact G.pure hb
  · obtain ⟨ha, has⟩ := hv.parts rfl
    refine G.bind (h.callBoth hs ha has) fun f hf => ?_
    exact G.bind (h.answer (r := .induct ..) ⟨has, hm, hb, hs⟩) fun r hr => h.call hf hr
  · obtain ⟨hL, he⟩ := hv.parts rfl
    refine G.bind (h.entryType _ _ hL) fun E hE => ?_
    refine G.bind (h.call hm hv) fun R hR => ?_
    refine G.bind (h.call hm (.const _)) fun N hN => ?_
    have motive : I.Allows (.listMotive E) := .piFamily _ (.of rfl hE) (.always (.const _))
    have step : I.Allows (.indListStep E m) := .piFamily _ hE (.of rfl ⟨hE, hm⟩)
    exact G.pure (.of rfl ⟨hR, .of rfl ⟨he, .of rfl ⟨motive, hm⟩, .of rfl ⟨hN, hb⟩,
      .of rfl ⟨step, hs⟩⟩⟩)
  · exact G.irreducible _ _

theorem indEither : G.keeps (Eval.indEither ask t m b s) I.Allows := by
  refine G.bind (h.force ht) fun v hv => ?_
  split
  · exact h.call hb (hv.parts rfl)
  · exact h.call hs (hv.parts rfl)
  · obtain ⟨hT, he⟩ := hv.parts rfl
    refine G.bind (h.force hT) fun T hT => ?_
    split
    · obtain ⟨hl, hr⟩ := hT.parts rfl
      refine G.bind (h.call hm hv) fun R hR => ?_
      have motive : I.Allows (.simpleMotive (.either _ _)) := .piFamily _ hT (.always (.const _))
      have onLeft : I.Allows (.eitherCase .left _ m) := .piFamily _ hl (.of rfl hm)
      have onRight : I.Allows (.eitherCase .right _ m) := .piFamily _ hr (.of rfl hm)
      exact G.pure (.of rfl ⟨hR, .of rfl ⟨he, .of rfl ⟨motive, hm⟩, .of rfl ⟨onLeft, hb⟩,
        .of rfl ⟨onRight, hs⟩⟩⟩)
    · exact G.irreducible _ _
  · exact G.irreducible _ _

theorem induct (i : Induction) : G.keeps (Eval.induct ask i t m b s) I.Allows := by
  cases i with
  | indNat => exact h.indNat ht hm hb hs
  | indList => exact h.indList ht hm hb hs
  | indEither => exact h.indEither ht hm hb hs

theorem indVec (hk : I.Allows k) : G.keeps (Eval.indVec ask k t m b s) I.Allows := by
  refine G.bind (h.force ht) fun v hv => ?_
  split
  · exact G.pure hb
  · obtain ⟨ha, has⟩ := hv.parts rfl
    refine G.bind (h.force hk) fun k hk => ?_
    split
    · have hk := hk.parts rfl
      refine G.bind (h.callBoth hs hk ha) fun f hf => ?_
      refine G.bind (h.call hf has) fun f hf => ?_
      exact G.bind (h.answer (r := .indVec ..) ⟨hk, has, hm, hb, hs⟩) fun r hr => h.call hf hr
    · exact G.irreducible _ _
  · obtain ⟨hT, he⟩ := hv.parts rfl
    refine G.bind (h.force hT) fun T hT => ?_
    split
    · obtain ⟨hE, -⟩ := hT.parts rfl
      refine G.bind (h.callBoth hm hk hv) fun R hR => ?_
      refine G.bind (h.callBoth hm (.const _) (.const _)) fun N hN => ?_
      have motive : I.Allows (.vecMotive _) := .piFamily _ (.const _) (.of rfl hE)
      have step : I.Allows (.indVecStep _ m) := .piFamily _ (.const _) (.of rfl ⟨hE, hm⟩)
      exact G.pure (.of rfl ⟨hR, .of rfl ⟨.of rfl ⟨.const _, hk⟩, he, .of rfl ⟨motive, hm⟩,
        .of rfl ⟨hN, hb⟩, .of rfl ⟨step, hs⟩⟩⟩)
    · exact G.irreducible _ _
  · exact G.irreducible _ _

end Induct

/-! ### `Absurd` and equality -/

theorem indAbsurd {t m : Value} (ht : I.Allows t) (hm : I.Allows m) :
    G.keeps (Eval.indAbsurd ask t m) I.Allows := by
  refine G.bind (h.force ht) fun v hv => ?_
  split
  · exact G.pure (.of rfl ⟨hm, .of rfl ⟨(hv.parts rfl).2, .of rfl ⟨.const _, hm⟩⟩⟩)
  · exact G.irreducible _ _

theorem replace {t m b : Value} (ht : I.Allows t) (hm : I.Allows m) (hb : I.Allows b) :
    G.keeps (Eval.replace ask t m b) I.Allows := by
  refine G.bind (h.force ht) fun v hv => ?_
  split
  · exact G.pure hb
  · obtain ⟨hT, he⟩ := hv.parts rfl
    refine G.bind (h.equalityOf _ _ hT) fun ⟨T, l, r⟩ ⟨hT, hl, hr⟩ => ?_
    refine G.bind (h.call hm hr) fun R hR => ?_
    refine G.bind (h.call hm hl) fun L hL => ?_
    have motive : I.Allows (.simpleMotive T) := .piFamily _ hT (.always (.const _))
    exact G.pure (.of rfl ⟨hR, .of rfl ⟨he, .of rfl ⟨motive, hm⟩, .of rfl ⟨hL, hb⟩⟩⟩)
  · exact G.irreducible _ _

theorem indEqual {t m b : Value} (ht : I.Allows t) (hm : I.Allows m) (hb : I.Allows b) :
    G.keeps (Eval.indEqual ask t m b) I.Allows := by
  refine G.bind (h.force ht) fun v hv => ?_
  split
  · exact G.pure hb
  · obtain ⟨hT, he⟩ := hv.parts rfl
    refine G.bind (h.equalityOf _ _ hT) fun ⟨T, l, r⟩ ⟨hT, hl, hr⟩ => ?_
    refine G.bind (h.callBoth hm hr hv) fun R hR => ?_
    refine G.bind (h.callBoth hm hl (.of rfl hl)) fun L hL => ?_
    have motive : I.Allows (.equalMotive T l) := .piFamily _ hT (.of rfl ⟨hT, hl⟩)
    exact G.pure (.of rfl ⟨hR, .of rfl ⟨he, .of rfl ⟨motive, hm⟩, .of rfl ⟨hL, hb⟩⟩⟩)
  · exact G.irreducible _ _

theorem transport (k : Transport) {t m b : Value} (ht : I.Allows t) (hm : I.Allows m) (hb : I.Allows b) :
    G.keeps (Eval.transport ask k t m b) I.Allows := by
  cases k with
  | replace => exact h.replace ht hm hb
  | indEqual => exact h.indEqual ht hm hb

/-- The only rule that builds a chain of proofs, which it does if at least one of them is stuck. -/
theorem trans {l r : Value} (hl : I.Allows l) (hr : I.Allows r) : G.keeps (Eval.trans ask l r) I.Allows := by
  refine G.bind (h.force hl) fun v hv => ?_
  refine G.bind (h.force hr) fun w hw => ?_
  split
  · exact G.pure hv
  · have ha := hv.parts rfl
    refine G.bind (h.equalityOf _ _ (hw.parts rfl).1) fun ⟨T, l, r⟩ ⟨hT, hl, hr⟩ => ?_
    exact G.pure (.of rfl ⟨.of rfl ⟨hT, ha, hr⟩, .of rfl
      ⟨.of rfl ⟨.of rfl ⟨hT, ha, ha⟩, hv⟩, .of rfl ⟨.of rfl ⟨hT, hl, hr⟩, hw⟩⟩⟩)
  · have ha := hw.parts rfl
    refine G.bind (h.equalityOf _ _ (hv.parts rfl).1) fun ⟨T, l, r⟩ ⟨hT, hl, hr⟩ => ?_
    exact G.pure (.of rfl ⟨.of rfl ⟨hT, hl, ha⟩, .of rfl
      ⟨.of rfl ⟨.of rfl ⟨hT, hl, hr⟩, hv⟩, .of rfl ⟨.of rfl ⟨hT, ha, ha⟩, hw⟩⟩⟩)
  · refine G.bind (h.equalityOf _ _ (hv.parts rfl).1) fun ⟨T, l, r⟩ ⟨hT, hl, hr⟩ => ?_
    refine G.bind (h.equalityOf _ _ (hw.parts rfl).1) fun ⟨T', l', r'⟩ ⟨hT', hl', hr'⟩ => ?_
    exact G.pure (.of rfl ⟨.of rfl ⟨hT, hl, hr'⟩, .of rfl
      ⟨.of rfl ⟨.of rfl ⟨hT, hl, hr⟩, hv⟩, .of rfl ⟨.of rfl ⟨hT', hl', hr'⟩, hw⟩⟩⟩)
  · exact G.irreducible _ _

theorem cong {t f : Value} {F : Option Value} (ht : I.Allows t) (hF : I.Types F)
    (hf : I.Allows f) : G.keeps (Eval.cong ask t F f) I.Allows := by
  refine G.bind (h.force ht) fun v hv => ?_
  split
  · exact G.bind (h.call hf (hv.parts rfl)) fun r hr => G.pure (.of rfl hr)
  · obtain ⟨hT, he⟩ := hv.parts rfl
    refine G.bind (h.equalityOf _ _ hT) fun ⟨T, l, r⟩ ⟨hT, hl, hr⟩ => ?_
    refine G.bind (requireType _ hF) fun F hF => ?_
    refine G.bind (h.force hF) fun P hP => ?_
    split
    · obtain ⟨-, hrange⟩ := hP.parts rfl
      refine G.bind (h.apply hrange hl) fun R hR => ?_
      refine G.bind (h.call hf hl) fun a ha => ?_
      refine G.bind (h.call hf hr) fun b hb => ?_
      exact G.pure (.of rfl ⟨.of rfl ⟨hR, ha, hb⟩, .of rfl ⟨he, .of rfl ⟨hP, hf⟩⟩⟩)
    · exact G.irreducible _ _
  · exact G.irreducible _ _

/-! ### Expressions -/

section Expressions

variable {ρ : Env} {e : Expr} (he : I.Fits ρ e)

include he

theorem eval : G.keeps (ask (.eval ρ e)) I.Allows :=
  h.answer (r := .eval ρ e) he

theorem later : G.keeps (Eval.later ask ρ e) I.Allows := by
  cases e with
  | var _ | quote _ | const _ => exact h.eval he
  | _ => exact G.suspend he

theorem annotated (ready : e.isAnnotated = true ∨ I.lacks) :
    G.keeps (Eval.annotated ask ρ e) fun p => I.Types p.1 ∧ I.Allows p.2 := by
  have bare (lacks : I.lacks) : G.keeps (Eval.later ask ρ e >>= fun v => Pure.pure (none, v))
      fun p : Option Value × Value => I.Types p.1 ∧ I.Allows p.2 :=
    G.bind (h.later he) fun v hv => G.pure ⟨⟨nofun, fun _ => lacks⟩, hv⟩
  cases e with
  | the t e =>
      obtain ⟨ht, he⟩ := I.operands he
      refine G.bind (h.eval ht) fun T hT => ?_
      refine G.bind (h.later he) fun v hv => ?_
      exact G.pure ⟨⟨fun _ hT' => Option.some.inj hT' ▸ hT, nofun⟩, hv⟩
  | _ => exact bare (ready.resolve_left nofun)

theorem evaluate : G.keeps (Eval.evaluate ask ρ e) I.Allows := by
  have ready := I.ready he
  cases e with
  | var x =>
      simp only [Eval.evaluate]
      cases hv : ρ.get? x with
      | none =>
          refine G.stop fun _ => ready.resolve_left ?_
          rintro ⟨v, bound⟩
          cases hv.symm.trans bound
      | some v => exact G.pure (I.entry he hv)
  | quote a => exact G.pure (I.quote he)
  | const c => exact G.pure (.const c)
  | unary u e => exact G.bind (h.later (I.operands he)) fun v hv => G.pure (.of rfl hv)
  | binary b e₁ e₂ =>
      obtain ⟨h₁, h₂⟩ := I.operands he
      refine G.bind (h.later h₁) fun v hv => ?_
      exact G.bind (h.later h₂) fun w hw => G.pure (.of rfl ⟨hv, hw⟩)
  | equal t l r =>
      obtain ⟨ht, hl, hr⟩ := I.operands he
      refine G.bind (h.later ht) fun T hT => ?_
      refine G.bind (h.later hl) fun v hv => ?_
      exact G.bind (h.later hr) fun w hw => G.pure (.of rfl ⟨hT, hv, hw⟩)
  | quant q x d r =>
      obtain ⟨hd, hr⟩ := I.operands he
      exact G.bind (h.later hd) fun D hD => G.pure (.of rfl ⟨hD, I.code hr⟩)
  | lam x b => exact G.pure (.of rfl (I.code he))
  | the t e => exact h.eval (I.operands he).2
  | app f a =>
      obtain ⟨hf, ha⟩ := I.operands he
      refine G.bind (h.eval hf) fun v hv => ?_
      exact G.bind (h.later ha) fun w hw => h.call hv hw
  | proj p t => exact G.bind (h.eval (I.operands he)) fun v hv => h.project p hv
  | fold f t b s =>
      obtain ⟨ht, hb, hs⟩ := I.operands he
      refine G.bind (h.annotated hb ready) fun p hp => ?_
      refine G.bind (h.eval ht) fun u hu => ?_
      exact G.bind (h.later hs) fun w hw => h.answer (r := .fold ..) ⟨hu, hp.1, hp.2, hw⟩
  | induct i t m b s =>
      obtain ⟨ht, hm, hb, hs⟩ := I.operands he
      refine G.bind (h.eval ht) fun u hu => ?_
      refine G.bind (h.later hm) fun M hM => ?_
      refine G.bind (h.later hb) fun v hv => ?_
      exact G.bind (h.later hs) fun w hw => h.answer (r := .induct ..) ⟨hu, hM, hv, hw⟩
  | transport k t m b =>
      obtain ⟨ht, hm, hb⟩ := I.operands he
      refine G.bind (h.eval ht) fun u hu => ?_
      refine G.bind (h.later hm) fun M hM => ?_
      exact G.bind (h.later hb) fun v hv => h.transport k hu hM hv
  | indAbsurd t m =>
      obtain ⟨ht, hm⟩ := I.operands he
      refine G.bind (h.eval ht) fun u hu => ?_
      exact G.bind (h.eval hm) fun M hM => h.indAbsurd hu hM
  | indVec k t m b s =>
      obtain ⟨hk, ht, hm, hb, hs⟩ := I.operands he
      refine G.bind (h.later hk) fun n hn => ?_
      refine G.bind (h.eval ht) fun u hu => ?_
      refine G.bind (h.later hm) fun M hM => ?_
      refine G.bind (h.later hb) fun v hv => ?_
      exact G.bind (h.later hs) fun w hw => h.answer (r := .indVec ..) ⟨hn, hu, hM, hv, hw⟩
  | trans l r =>
      obtain ⟨hl, hr⟩ := I.operands he
      refine G.bind (h.eval hl) fun v hv => ?_
      exact G.bind (h.eval hr) fun w hw => h.trans hv hw
  | cong t f =>
      obtain ⟨ht, hf⟩ := I.operands he
      refine G.bind (h.annotated hf ready) fun p hp => ?_
      exact G.bind (h.eval ht) fun u hu => h.cong hu hp.1 hp.2
  | todo | malformed _ => exact G.stop fun _ => ready.resolve_left id

end Expressions

theorem applies {c : Closure} {a : Value} (hc : I.Admits (.closure c)) (ha : I.Allows a) :
    G.keeps (Eval.apply ask a c) I.Allows := by
  cases c with
  | code ρ x b => exact h.eval (I.enter hc ha)
  | family x f => exact h.applyFamily ha (hc.parts rfl)

/-- One step keeps the invariant, if forcing delayed values does. -/
theorem step (forcing : ∀ {c ρ e}, I.Allows (.delayed c ρ e) →
      G.keeps (Eval.force ask (.delayed c ρ e)) I.Allows) : G.Asks (Eval.step ask) := by
  intro r hr
  cases r with
  | eval ρ e => exact G.imp (h.evaluate hr) fun v hv => ⟨hv, nofun⟩
  | force v =>
      cases v with
      | delayed c ρ e =>
          refine G.imp (forcing hr) fun v hv => ⟨hv, ?_⟩
          rintro _ ⟨⟩ ⟨⟩
      | _ => exact G.pure ⟨hr, fun _ heq _ => Request.force.inj heq⟩
  | apply c v => exact G.imp (h.applies hr.1 hr.2) fun v hv => ⟨hv, nofun⟩
  | fold f t T b s => exact G.imp (h.fold hr.1 hr.2.1 hr.2.2.1 hr.2.2.2 f) fun v hv => ⟨hv, nofun⟩
  | induct i t m b s => exact G.imp (h.induct hr.1 hr.2.1 hr.2.2.1 hr.2.2.2 i) fun v hv => ⟨hv, nofun⟩
  | indVec k t m b s =>
      exact G.imp (h.indVec hr.2.1 hr.2.2.1 hr.2.2.2.1 hr.2.2.2.2 hr.1) fun v hv => ⟨hv, nofun⟩

end Asks

end Guard

end TypeKernel
