/-
# TypeKernel.Proofs.History — what may happen in a session

Between two uses of a value anything may be done in its session: expressions are evaluated, read back and
checked, cells are allocated, forced by whoever holds a value that names them, and left empty by evaluations
that stop. A history is any sequence of such acts on the values at hand (`History`). Values at hand come
from constructors, from taking values apart, and from what acts return, but nobody makes up the number of
a cell.

Evaluation by name needs no cells. `erase` takes them out of a value, and along every history the values
at hand match what is left of them (`History.held`).
-/
import TypeKernel.Proofs.CheckedByNeed

namespace TypeKernel

set_option autoImplicit false

open Machine

/-! ## Values without their cells -/

mutual

/-- A value without its cells. -/
def Value.erase : Value → Value
  | .const c => .const c
  | .quote a => .quote a
  | .unary u v => .unary u v.erase
  | .binary b v w => .binary b v.erase w.erase
  | .equal t l r => .equal t.erase l.erase r.erase
  | .quant q x d r => .quant q x d.erase r.erase
  | .lam x b => .lam x b.erase
  | .neutral t e => .neutral t.erase e.erase
  | .delayed _ ρ e => .delayed 0 ρ.erase e

def Neutral.erase : Neutral → Neutral
  | .var x => .var x
  | .app f a => .app f.erase a.erase
  | .proj p t => .proj p t.erase
  | .fold f t b s => .fold f t.erase b.erase s.erase
  | .induct i t m b s => .induct i t.erase m.erase b.erase s.erase
  | .transport k t m b => .transport k t.erase m.erase b.erase
  | .indAbsurd t m => .indAbsurd t.erase m.erase
  | .indVec n t m b s => .indVec n.erase t.erase m.erase b.erase s.erase
  | .trans l r => .trans l.erase r.erase
  | .cong t f => .cong t.erase f.erase

def Typed.erase : Typed → Typed
  | .mk t v => .mk t.erase v.erase

def Closure.erase : Closure → Closure
  | .code ρ x b => .code ρ.erase x b
  | .family x f => .family x f.erase

def Family.erase : Family → Family
  | .always t => .always t.erase
  | .fixed m v => .fixed m.erase v.erase
  | .fixedBoth m v w => .fixedBoth m.erase v.erase w.erase
  | .wrapped u m => .wrapped u m.erase
  | .natStep m => .natStep m.erase
  | .listStep e m => .listStep e.erase m.erase
  | .listStepTail m v => .listStepTail m.erase v.erase
  | .vecMotive e => .vecMotive e.erase
  | .vecStep e m => .vecStep e.erase m.erase
  | .vecStepHead e m n => .vecStepHead e.erase m.erase n.erase
  | .vecStepTail m n v => .vecStepTail m.erase n.erase v.erase
  | .equalMotive t l => .equalMotive t.erase l.erase

def Env.erase : Env → Env
  | .empty => .empty
  | .extend ρ x v => .extend ρ.erase x v.erase

end

def Piece.erase : Piece → Piece
  | .value v => .value v.erase
  | .neutral e => .neutral e.erase
  | .typed t => .typed t.erase
  | .closure c => .closure c.erase
  | .family f => .family f.erase
  | .env ρ => .env ρ.erase

def Request.erase : Request → Request
  | .eval ρ e => .eval ρ.erase e
  | .force v => .force v.erase
  | .apply c v => .apply c.erase v.erase
  | .fold f t o b s => .fold f t.erase (o.map Value.erase) b.erase s.erase
  | .induct i t m b s => .induct i t.erase m.erase b.erase s.erase
  | .indVec n t m b s => .indVec n.erase t.erase m.erase b.erase s.erase

def Reading.erase : Reading → Reading
  | .value A v => .value A.erase v.erase
  | .type v => .type v.erase
  | .neutral e => .neutral e.erase

/-- Environments that match exactly bind the same names at the same places. -/
theorem Matches.pairing_eq {K : Correspondence} (hK : K.Near) {ρ ρ' : Env}
    (h : Matches K (.env ρ) (.env ρ')) : ∀ x y, K.pairing ρ ρ' x y → x = y := by
  simp only [Correspondence.pairing, hK.whole]
  generalize hp : Piece.env ρ = p at h
  generalize hq : Piece.env ρ' = q at h
  induction h generalizing ρ ρ' with
  | empty =>
      cases hp
      cases hq
      exact fun _ _ h => h
  | outer ho => cases hK.whole.symm.trans ho
  | extend hx _ _ ih _ =>
      cases hp
      cases hq
      rintro x y (⟨rfl, rfl⟩ | ⟨-, -, hxy⟩)
      · exact hK.binders _ _ hx
      · exact ih rfl rfl x y hxy
  | _ => cases hp

/-- What matches a piece in a faithful session is the piece without its cells. -/
theorem Faithful.eq_erase {K : Correspondence} {s : Session} (rem : Remembers K s) {p q : Piece}
    (h : Matches K p q) : q = p.erase := by
  have hK := rem.exact
  induction h with
  | const | quote | empty => rfl
  | outer ho => cases hK.whole.symm.trans ho
  | var hx =>
      cases (hK.names _ _).1 hx
      rfl
  | unary _ _ ih | proj _ _ ih | always _ ih | wrapped _ _ ih | natStep _ ih | vecMotive _ ih =>
      cases ih
      rfl
  | lam hx _ ih | family hx _ ih =>
      cases hK.binders _ _ hx
      cases ih
      rfl
  | binary _ _ _ ih₁ ih₂ | neutral _ _ ih₁ ih₂ | app _ _ ih₁ ih₂ | indAbsurd _ _ ih₁ ih₂
  | trans _ _ ih₁ ih₂ | cong _ _ ih₁ ih₂ | typed _ _ ih₁ ih₂ | fixed _ _ ih₁ ih₂
  | listStep _ _ ih₁ ih₂ | listStepTail _ _ ih₁ ih₂ | vecStep _ _ ih₁ ih₂
  | equalMotive _ _ ih₁ ih₂ =>
      cases ih₁
      cases ih₂
      rfl
  | quant _ hx _ _ ih₁ ih₂ | extend hx _ _ ih₁ ih₂ =>
      cases hK.binders _ _ hx
      cases ih₁
      cases ih₂
      rfl
  | equal _ _ _ ih₁ ih₂ ih₃ | fold _ _ _ _ ih₁ ih₂ ih₃ | transport _ _ _ _ ih₁ ih₂ ih₃
  | fixedBoth _ _ _ ih₁ ih₂ ih₃ | vecStepHead _ _ _ ih₁ ih₂ ih₃ | vecStepTail _ _ _ ih₁ ih₂ ih₃ =>
      cases ih₁
      cases ih₂
      cases ih₃
      rfl
  | induct _ _ _ _ _ ih₁ ih₂ ih₃ ih₄ =>
      cases ih₁
      cases ih₂
      cases ih₃
      cases ih₄
      rfl
  | indVec _ _ _ _ _ ih₁ ih₂ ih₃ ih₄ ih₅ =>
      cases ih₁
      cases ih₂
      cases ih₃
      cases ih₄
      cases ih₅
      rfl
  | delayed hc hρ he ih =>
      cases rem.blank hc
      cases he.eq hK.bare hK.binders (hρ.pairing_eq hK.toNear)
      cases ih
      rfl
  | @code ρ ρ' x x' b b' hx hρ hb ih =>
      cases hK.binders _ _ hx
      have under : ∀ z w, (K.pairing ρ ρ').under x x z w → z = w := by
        rintro z w (⟨rfl, rfl⟩ | ⟨-, -, hzw⟩)
        · rfl
        · exact hρ.pairing_eq hK.toNear z w hzw
      cases hb.eq hK.bare hK.binders under
      cases ih
      rfl

/-! ## Values at hand -/

/-- The parts of a piece. -/
def Piece.parts : Piece → List Piece
  | .value (.const _) | .value (.quote _) => []
  | .value (.unary _ v) => [.value v]
  | .value (.binary _ v w) => [.value v, .value w]
  | .value (.equal t l r) => [.value t, .value l, .value r]
  | .value (.quant _ _ d r) => [.value d, .closure r]
  | .value (.lam _ b) => [.closure b]
  | .value (.neutral t e) => [.value t, .neutral e]
  | .value (.delayed _ ρ _) => [.env ρ]
  | .neutral (.var _) => []
  | .neutral (.app f a) => [.neutral f, .typed a]
  | .neutral (.proj _ t) => [.neutral t]
  | .neutral (.fold _ t b s) => [.neutral t, .typed b, .typed s]
  | .neutral (.induct _ t m b s) => [.neutral t, .typed m, .typed b, .typed s]
  | .neutral (.transport _ t m b) => [.neutral t, .typed m, .typed b]
  | .neutral (.indAbsurd t m) => [.neutral t, .typed m]
  | .neutral (.indVec n t m b s) => [.typed n, .neutral t, .typed m, .typed b, .typed s]
  | .neutral (.trans l r) => [.typed l, .typed r]
  | .neutral (.cong t f) => [.neutral t, .typed f]
  | .typed (.mk t v) => [.value t, .value v]
  | .closure (.code ρ _ _) => [.env ρ]
  | .closure (.family _ f) => [.family f]
  | .family (.always v) | .family (.wrapped _ v) | .family (.natStep v) | .family (.vecMotive v) =>
      [.value v]
  | .family (.fixed v w) | .family (.listStep v w) | .family (.listStepTail v w)
  | .family (.vecStep v w) | .family (.equalMotive v w) => [.value v, .value w]
  | .family (.fixedBoth u v w) | .family (.vecStepHead u v w) | .family (.vecStepTail u v w) =>
      [.value u, .value v, .value w]
  | .env .empty => []
  | .env (.extend ρ _ v) => [.env ρ, .value v]

theorem Piece.sizeOf_parts {p q : Piece} (h : q ∈ p.parts) : sizeOf q < sizeOf p := by
  cases p with
  | value v => cases v <;> simp [Piece.parts] at h <;> grind
  | neutral e => cases e <;> simp [Piece.parts] at h <;> grind
  | typed t =>
      cases t
      simp [Piece.parts] at h
      grind
  | closure c =>
      cases c <;> simp [Piece.parts] at h
      all_goals grind
  | family f => cases f <;> simp [Piece.parts] at h <;> grind
  | env ρ =>
      cases ρ <;> simp [Piece.parts] at h
      grind

/-- Whether a piece is a delayed value. -/
def Piece.isDelayed : Piece → Bool
  | .value (.delayed _ _ _) => true
  | _ => false

theorem Piece.eq_delayed {p : Piece} (h : p.isDelayed = true) : ∃ c ρ e, p = .value (.delayed c ρ e) := by
  unfold isDelayed at h
  split at h
  · exact ⟨_, _, _, rfl⟩
  · cases h

/-- The names of binders at the top of a piece, and those in its code, are names of binders. -/
def Piece.Binds (K : Correspondence) : Piece → Prop
  | .value (.quant _ x _ _) | .value (.lam x _) | .closure (.family x _) | .env (.extend _ x _) => K.binders x x
  | .value (.delayed _ _ e) => K.Code Eq e e
  | .closure (.code _ x b) => K.binders x x ∧ K.Code Eq b b
  | _ => True

theorem Correspondence.Exact.binds {K : Correspondence} (hK : K.Exact) (p : Piece) : p.Binds K := by
  have code (e : Expr) : K.Code Eq e e := .refl hK.refl e fun _ => rfl
  unfold Piece.Binds
  split
  case h_5 => exact code _
  case h_6 => exact ⟨hK.refl _, code _⟩
  case h_7 => trivial
  all_goals exact hK.refl _

/-- The pieces that a request is about. -/
def Request.pieces : Request → List Piece
  | .eval ρ _ => [.env ρ]
  | .force v => [.value v]
  | .apply c v => [.closure c, .value v]
  | .fold _ t o b s => .value t :: .value b :: .value s :: o.toList.map .value
  | .induct _ t m b s => [.value t, .value m, .value b, .value s]
  | .indVec n t m b s => [.value n, .value t, .value m, .value b, .value s]

/-- The pieces that are to be read. -/
def Reading.pieces : Reading → List Piece
  | .value A v => [.value A, .value v]
  | .type v => [.value v]
  | .neutral e => [.neutral e]

theorem Matches.parts {K : Correspondence} (whole : K.outer = none) {p q : Piece}
    (h : Matches K p q) : List.Forall₂ (Matches K) p.parts q.parts := by
  cases h with
  | outer ho => cases whole.symm.trans ho
  | _ => simp [Piece.parts, *]

theorem Piece.parts_erase (p : Piece) : p.erase.parts = p.parts.map Piece.erase := by
  cases p with
  | value v => cases v <;> rfl
  | neutral e => cases e <;> rfl
  | typed t =>
      cases t
      rfl
  | closure c => cases c <;> rfl
  | family f => cases f <;> rfl
  | env ρ => cases ρ <;> rfl

/-- Each piece matches what is left of it without its cells. -/
def Held (K : Correspondence) (ps : List Piece) : Prop :=
  ∀ p ∈ ps, Matches K p p.erase

namespace Held

variable {K K' : Correspondence} {ps qs : List Piece} {p : Piece}

theorem mono (h : Held K ps) (le : K.Le K') : Held K' ps := fun p hp => (h p hp).mono le

theorem head (h : Held K (p :: ps)) : Matches K p p.erase := h p (.head _)

theorem tail (h : Held K (p :: ps)) : Held K ps := fun q hq => h q (.tail _ hq)

theorem cons (hp : Matches K p p.erase) (h : Held K ps) : Held K (p :: ps) :=
  List.forall_mem_cons.2 ⟨hp, h⟩

theorem of_subset (h : Held K ps) (hq : qs ⊆ ps) : Held K qs := fun p hp => h p (hq hp)

theorem build (hK : K.Near) (own : p.Binds K) (hp : p.isDelayed = false) (h : Held K p.parts) :
    Matches K p p.erase := by
  cases p with
  | value v =>
      cases v with
      | const c => exact .const c
      | quote a => exact .quote a
      | unary u _ => exact .unary u h.head
      | binary b _ _ => exact .binary b h.head h.tail.head
      | equal _ _ _ => exact .equal h.head h.tail.head h.tail.tail.head
      | quant q x _ _ => exact .quant q own h.head h.tail.head
      | lam x _ => exact .lam own h.head
      | neutral _ _ => exact .neutral h.head h.tail.head
      | delayed => cases hp
  | neutral e =>
      cases e with
      | var x => exact .var ((hK.names x x).2 rfl)
      | app _ _ => exact .app h.head h.tail.head
      | proj p _ => exact .proj p h.head
      | fold f _ _ _ => exact .fold f h.head h.tail.head h.tail.tail.head
      | induct i _ _ _ _ =>
          exact .induct i h.head h.tail.head h.tail.tail.head h.tail.tail.tail.head
      | transport k _ _ _ => exact .transport k h.head h.tail.head h.tail.tail.head
      | indAbsurd _ _ => exact .indAbsurd h.head h.tail.head
      | indVec _ _ _ _ _ =>
          have rest := h.tail.tail
          exact .indVec h.head h.tail.head rest.head rest.tail.head rest.tail.tail.head
      | trans _ _ => exact .trans h.head h.tail.head
      | cong _ _ => exact .cong h.head h.tail.head
  | typed t =>
      cases t
      exact .typed h.head h.tail.head
  | closure c =>
      cases c with
      | code ρ x b =>
          have hρ : Matches K (.env ρ) (.env ρ.erase) := h.head
          refine .code own.1 hρ (own.2.mono id (fun _ _ hy => hy) ?_)
          rintro z _ rfl
          by_cases hz : z = x
          · exact .inl ⟨hz, hz⟩
          · exact .inr ⟨hz, hz, hρ.pairing hK.binders hK.whole z⟩
      | family x _ => exact .family own h.head
  | family f =>
      cases f with
      | always _ => exact .always h.head
      | fixed _ _ => exact .fixed h.head h.tail.head
      | fixedBoth _ _ _ => exact .fixedBoth h.head h.tail.head h.tail.tail.head
      | wrapped u _ => exact .wrapped u h.head
      | natStep _ => exact .natStep h.head
      | listStep _ _ => exact .listStep h.head h.tail.head
      | listStepTail _ _ => exact .listStepTail h.head h.tail.head
      | vecMotive _ => exact .vecMotive h.head
      | vecStep _ _ => exact .vecStep h.head h.tail.head
      | vecStepHead _ _ _ => exact .vecStepHead h.head h.tail.head h.tail.tail.head
      | vecStepTail _ _ _ => exact .vecStepTail h.head h.tail.head h.tail.tail.head
      | equalMotive _ _ => exact .equalMotive h.head h.tail.head
  | env ρ =>
      cases ρ with
      | empty => exact .empty
      | extend _ x _ => exact .extend own h.head h.tail.head

theorem parts (hK : K.Exact) (hp : Matches K p p.erase) : Held K p.parts := by
  have h := hp.parts hK.whole
  rw [Piece.parts_erase, List.forall₂_map_right_iff, List.forall₂_same] at h
  exact h

theorem request (hK : K.Exact) {r : Request} (h : Held K r.pieces) : r.Matches K r.erase := by
  cases r with
  | eval ρ e =>
      have hρ : Matches K (.env ρ) (.env ρ.erase) := h.head
      exact .eval hρ (.refl hK.refl e (hρ.pairing hK.binders hK.whole))
  | force _ => exact .force h.head
  | apply _ _ => exact .apply h.head h.tail.head
  | fold f _ o _ _ =>
      refine .fold f h.head ?_ h.tail.head h.tail.tail.head
      cases o with
      | none => exact .none
      | some _ => exact .some h.tail.tail.tail.head
  | induct i _ _ _ _ =>
      exact .induct i h.head h.tail.head h.tail.tail.head h.tail.tail.tail.head
  | indVec _ _ _ _ _ =>
      have rest := h.tail.tail
      exact .indVec h.head h.tail.head rest.head rest.tail.head rest.tail.tail.head

theorem reading {r : Reading} (h : Held K r.pieces) : r.Matches K r.erase := by
  cases r with
  | value _ _ => exact .value h.head h.tail.head
  | type _ => exact .type h.head
  | neutral _ => exact .neutral h.head

end Held

/-! ## Contexts at hand -/

/-- The values of a binding. -/
def Binding.pieces : Binding → List Piece
  | .free T => [.value T]
  | .definition T v => [.value T, .value v]
  | .claim T => [.value T]

/-- The environment of a context and the values of its bindings. -/
def Context.pieces (Γ : Context) : List Piece :=
  .env Γ.env :: Γ.bindings.flatMap fun b => b.2.pieces

theorem Context.Matches.binding {K : Correspondence} {Γ Γ' : Context} (h : Γ.Matches K Γ')
    {b : Name × Binding} (hb : b ∈ Γ.bindings) : ∃ c, b.2.Matches K c := by
  obtain ⟨bs⟩ := Γ
  obtain ⟨bs'⟩ := Γ'
  simp only [Context.Matches] at h hb
  induction h with
  | nil => cases hb
  | cons hc _ ih =>
      rcases List.mem_cons.1 hb with rfl | hb
      · exact ⟨_, hc.2⟩
      · exact ih hb

theorem Context.Matches.held {K : Correspondence} {Γ Γ' : Context} (h : Γ.Matches K Γ')
    {s : Session} (rem : Remembers K s) : Held K Γ.pieces := by
  have same : ∀ {p q : Piece}, TypeKernel.Matches K p q → TypeKernel.Matches K p p.erase :=
    fun hpq => rem.eq_erase hpq ▸ hpq
  refine .cons (same (h.env_exact rem.exact)) fun p hp => ?_
  obtain ⟨⟨x, b⟩, hb, hp⟩ := List.mem_flatMap.1 hp
  obtain ⟨c, hbc : b.Matches K c⟩ := h.binding hb
  cases hbc with
  | free hT | claim hT =>
      cases List.mem_singleton.1 hp
      exact same hT
  | definition hT hv =>
      rcases List.mem_pair.1 hp with rfl | rfl
      · exact same hT
      · exact same hv

/-- A context without its cells. -/
def Binding.erase : Binding → Binding
  | .free T => .free T.erase
  | .definition T v => .definition T.erase v.erase
  | .claim T => .claim T.erase

def Context.erase (Γ : Context) : Context :=
  ⟨Γ.bindings.map fun b => (b.1, b.2.erase)⟩

theorem Context.env_erase (Γ : Context) : Γ.erase.env = Γ.env.erase := by
  obtain ⟨bs⟩ := Γ
  simp only [Context.env, Context.erase]
  induction bs with
  | nil => rfl
  | cons b bs ih =>
      obtain ⟨x, b⟩ := b
      cases b with
      | free T => exact congrArg (Env.extend · x _) ih
      | definition T v => exact congrArg (Env.extend · x _) ih
      | claim T => exact ih

theorem Held.binding {K : Correspondence} {b : Binding} (h : Held K b.pieces) :
    b.Matches K b.erase := by
  cases b with
  | free T => exact .free h.head
  | definition T v => exact .definition h.head h.tail.head
  | claim T => exact .claim h.head

theorem Held.context {K : Correspondence} {Γ : Context} (h : Held K Γ.pieces) :
    Γ.Matches K Γ.erase := by
  refine List.forall₂_map_right_iff.2 (List.forall₂_same.2 fun b hb => ⟨rfl, ?_⟩)
  exact (h.of_subset fun p hp => .tail _ (List.mem_flatMap.2 ⟨b, hb, hp⟩)).binding

/-! ## Histories -/

/-- What can be done in a session. -/
inductive Act where
  | suspend (ρ : Env) (e : Expr)
  | report (event : Event)
  | answer (n : Nat) (r : Request)
  | read (n : Nat) (Γ : Context) (r : Reading)
  | synth (n : Nat) (Γ : Context) (e : Expr) (r : Renaming)
  | check (n : Nat) (Γ : Context) (e : Expr) (A : Value) (r : Renaming)
  | isType (n : Nat) (Γ : Context) (e : Expr) (r : Renaming)

namespace Act

/-- The pieces that an act works on. -/
def pieces : Act → List Piece
  | .suspend ρ _ => [.env ρ]
  | .report _ => []
  | .answer _ r => r.pieces
  | .read _ _ r => r.pieces
  | .synth _ Γ _ _ | .isType _ Γ _ _ => Γ.pieces
  | .check _ Γ _ A _ => .value A :: Γ.pieces

/-- Do it, and give the values that it returns. -/
def perform : Act → ByNeed (List Piece)
  | .suspend ρ e => do
      let v ← Machine.suspend ρ e
      return [.value v]
  | .report event => do
      Machine.report event
      return []
  | .answer n r => do
      let v ← run n r
      return [.value v]
  | .read n Γ r => do
      let _ ← readings n Γ r
      return []
  | .synth n Γ e r => do
      let p ← synthesize n Γ e r
      return [.value p.2]
  | .check n Γ e A r => do
      let _ ← TypeKernel.check n Γ e A r
      return []
  | .isType n Γ e r => do
      let _ ← TypeKernel.isType n Γ e r
      return []

/-- Whatever is done with pieces that are held, what it returns matches something. -/
theorem yields {K : Correspondence} (hK : K.Exact) {act : Act} (h : Held K act.pieces) :
    Yields K act.perform fun K' qs => ∀ p ∈ qs, ∃ q, Matches K' p q := by
  have none : ∀ {K' : Correspondence}, Yields K' (pure [] : ByNeed (List Piece))
      fun K' qs => ∀ p ∈ qs, ∃ q, Matches K' p q := .pure (List.forall_mem_nil _)
  have one : ∀ {K' : Correspondence} {v v' : Value}, Both K' v v' →
      Yields K' (pure [.value v] : ByNeed (List Piece)) fun K' qs => ∀ p ∈ qs, ∃ q, Matches K' p q :=
    fun hv => .pure (List.forall_mem_singleton.2 ⟨_, hv⟩)
  cases act with
  | suspend ρ e =>
      have mρ : Matches K (.env ρ) (.env ρ.erase) := h.head
      have he := Resembles.refl (P := K.annotated) hK.refl e (mρ.pairing hK.binders hK.whole)
      exact (Yields.of_rel ((byNeed 0).suspend mρ he)).bind fun _ _ _ _ ⟨_, hv, _⟩ => one hv
  | report event => exact .report none
  | answer n r => exact (Yields.run (h.request hK)).bind fun _ _ _ _ ⟨_, hv, _⟩ => one hv
  | read n Γ r =>
      have reads := Yields.readings (n := n) hK (rfl : Γ.names = Γ.names) h.reading
      exact reads.bind fun _ _ _ _ _ => none
  | synth n Γ e r =>
      exact (Yields.synthesize r hK h.context).bind fun _ _ _ _ ⟨_, hT, _⟩ => one hT
  | check n Γ e A r =>
      exact (Yields.check r hK h.tail.context h.head).bind fun _ _ _ _ _ => none
  | isType n Γ e r => exact (Yields.isType r hK h.context).bind fun _ _ _ _ _ => none

end Act

/-- Sessions that follow a session `s₀` with the pieces `ps₀` at hand, and what is at hand there. -/
inductive History (s₀ : Session) (ps₀ : List Piece) : Session → List Piece → Prop
  | start : History s₀ ps₀ s₀ ps₀
  /-- A piece is put together. -/
  | build {s ps p} (h : History s₀ ps₀ s ps) (hp : p.isDelayed = false) (parts : p.parts ⊆ ps) :
      History s₀ ps₀ s (p :: ps)
  /-- A piece is taken apart. -/
  | part {s ps p q} (h : History s₀ ps₀ s ps) (hp : p ∈ ps) (hq : q ∈ p.parts) :
      History s₀ ps₀ s (q :: ps)
  /-- Something is done. -/
  | done {s ps act qs s'} (h : History s₀ ps₀ s ps) (ha : Act.pieces act ⊆ ps)
      (hqs : act.perform s = .ok qs s') : History s₀ ps₀ s' (qs ++ ps)
  /-- Something is begun but stops. -/
  | stopped {s ps act reason s'} (h : History s₀ ps₀ s ps) (ha : Act.pieces act ⊆ ps)
      (hs : act.perform s = .error reason s') : History s₀ ps₀ s' ps

namespace History

variable {s₀ s s' : Session} {ps₀ ps ps' : List Piece}

theorem subset (h : History s₀ ps₀ s ps) : ps₀ ⊆ ps := by
  induction h with
  | start => exact fun _ hp => hp
  | build _ _ _ ih | part _ _ _ ih => exact fun p hp => .tail _ (ih hp)
  | done _ _ _ ih => exact fun p hp => List.mem_append_right _ (ih hp)
  | stopped _ _ _ ih => exact ih

theorem trans (h : History s₀ ps₀ s ps) (h' : History s ps s' ps') : History s₀ ps₀ s' ps' := by
  induction h' with
  | start => exact h
  | build _ hp parts ih => exact .build ih hp parts
  | part _ hp hq ih => exact .part ih hp hq
  | done _ ha hqs ih => exact .done ih ha hqs
  | stopped _ ha hs ih => exact .stopped ih ha hs

/-- A faithful session stays faithful, and what is at hand stays held. -/
theorem held (h : History s₀ ps₀ s ps) {K : Correspondence} (rem : Remembers K s₀)
    (held : Held K ps₀) : ∃ K', K.Le K' ∧ Remembers K' s ∧ Held K' ps := by
  induction h with
  | start => exact ⟨K, .refl K, rem, held⟩
  | build _ hp parts ih =>
      obtain ⟨K', le, rem', held'⟩ := ih
      exact ⟨K', le, rem', .cons (Held.build rem'.near (rem'.exact.binds _) hp (held'.of_subset parts)) held'⟩
  | part _ hp hq ih =>
      obtain ⟨K', le, rem', held'⟩ := ih
      exact ⟨K', le, rem', .cons (Held.parts rem'.exact (held' _ hp) _ hq) held'⟩
  | done _ ha hqs ih =>
      obtain ⟨K', le, rem', held'⟩ := ih
      obtain ⟨K'', le', rem'', matched⟩ :=
        (Act.yields rem'.exact (held'.of_subset ha)).ok rem' hqs
      refine ⟨K'', le.trans le', rem'', List.forall_mem_append.2 ⟨fun p hp => ?_, held'.mono le'⟩⟩
      obtain ⟨q, hq⟩ := matched p hp
      exact rem''.eq_erase hq ▸ hq
  | stopped _ ha hs ih =>
      obtain ⟨K', le, rem', held'⟩ := ih
      obtain ⟨K'', le', rem''⟩ := (Act.yields rem'.exact (held'.of_subset ha)).stops rem' hs
      exact ⟨K'', le.trans le', rem'', held'.mono le'⟩

end History

end TypeKernel
