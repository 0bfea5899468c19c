/-
# TypeKernel.Proofs.TrackedChecking — one check tracks another

Checking asks evaluation for values, reads values back, compares what was read, and chooses names. If one run
tracks another at evaluation and at the choice of names (`Tracking`), it tracks it through every rule. The
contexts of the two sides bind corresponding names alike (`Tracking.Meets`), the source expressions are the
same up to corresponding names, and so are the elaborated ones; the types that are found match.

The lemmas follow the rules of `Check`, form by form, and `Tracking.judge` puts them together by induction on
the source expression.
-/
import TypeKernel.Proofs.Yields

namespace TypeKernel

set_option autoImplicit false

open Machine

/-- The type of a fold's step follows the type of its base. -/
theorem NatFold.both {f : Fold} {S : Value → Value} (hf : NatFold f S) {K : Correspondence}
    {B B' : Value} (hB : Both K B B') : Both K (S B) (S B') := by
  cases hf with
  | which => exact .piFamily _ (.const .nat) (.always hB)
  | iter => exact .piFamily _ hB (.always hB)
  | recur => exact .piFamily _ (.const .nat) (.always (.piFamily _ hB (.always hB)))

namespace Tracking

variable {m : Type → Type} [Machine m] (L : Tracking m)

/-! ## Contexts and renamings -/

/-- Contexts that bind corresponding names alike. -/
structure Meets (n b : Nat) (K : Correspondence) (V : Pairing) (Γ Γ' : Context) : Prop
    extends L.Frame n b K V Γ Γ' where
  env : Matches K (.env Γ.env) (.env Γ'.env)
  code : ∀ x x', V x x' → K.pairing Γ.env Γ'.env x x'
  lookup : ∀ x x', V x x' → (Γ.lookup x = none ∧ Γ'.lookup x' = none) ∨
    ∃ b b', Γ.lookup x = some b ∧ Γ'.lookup x' = some b' ∧ b.Matches K b'
  binders : L.Covers b K
  source : ∀ x x', L.Bound x x' → K.binders x x'

/-- Source names that correspond have elaborated names that do. -/
def Renames (S V : Pairing) (r r' : Renaming) : Prop :=
  ∀ x x', S x x' → V (r.rename x) (r'.rename x')

/-- An elaborated expression and its type. -/
def Found (b : Nat) (V : Pairing) (Γ Γ' : Context) (K : Correspondence) (p q : Expr × Value) : Prop :=
  L.Written (b + 1) V Γ Γ' K p.1 q.1 ∧ Both K p.2 q.2

/-- Source expressions that differ at most in names; if the sides may not differ, not even there. -/
abbrev Source (S : Pairing) : Expr → Expr → Prop :=
  Alike L.Bound S

variable {L} {n b b' : Nat} {K K' : Correspondence} {V S : Pairing} {Γ Γ' : Context}

theorem Written.eq (fr : L.Frame n b K V Γ Γ') {e e' : Expr} (h : L.Written b' V Γ Γ' K' e e')
    (hs : L.strict) : e = e' :=
  Resembles.eq h id (fun _ _ hy => hy.same hs) (fr.fits.equal hs)

theorem Written.annotate {t t' e e' : Expr} (ht : L.Written b V Γ Γ' K t t')
    (he : L.Written b V Γ Γ' K e e') : L.Written b V Γ Γ' K (e.annotate t) (e'.annotate t') := by
  cases he with
  | the ht he => exact .the ht he
  | foldAnnotated ha | indAbsurdAnnotated ha | congAnnotated ha => exact ha.elim
  | var hx => exact .the ht (.var hx)
  | quote a => exact .the ht (.quote a)
  | const c => exact .the ht (.const c)
  | unary u h => exact .the ht (.unary u h)
  | binary b h₁ h₂ => exact .the ht (.binary b h₁ h₂)
  | equal h₁ h₂ h₃ => exact .the ht (.equal h₁ h₂ h₃)
  | quant q hx hd hr => exact .the ht (.quant q hx hd hr)
  | lam hx hb => exact .the ht (.lam hx hb)
  | app hf ha => exact .the ht (.app hf ha)
  | proj p h => exact .the ht (.proj p h)
  | fold f h₁ h₂ h₃ => exact .the ht (.fold f h₁ h₂ h₃)
  | induct i h₁ h₂ h₃ h₄ => exact .the ht (.induct i h₁ h₂ h₃ h₄)
  | transport k h₁ h₂ h₃ => exact .the ht (.transport k h₁ h₂ h₃)
  | indAbsurd h₁ h₂ => exact .the ht (.indAbsurd h₁ h₂)
  | indVec h₁ h₂ h₃ h₄ h₅ => exact .the ht (.indVec h₁ h₂ h₃ h₄ h₅)
  | trans h₁ h₂ => exact .the ht (.trans h₁ h₂)
  | cong h₁ h₂ => exact .the ht (.cong h₁ h₂)
  | todo => exact .the ht .todo
  | malformed m => exact .the ht (.malformed m)

theorem Renames.extend {r r' : Renaming} (h : Renames S V r r') {X X' : List Name}
    (fits : V.Fits L.strict X X') {y y' : Name} (hy : Chosen L.strict X X' y y') (x x' : Name) :
    Renames (S.under x x') (V.under y y') (r.extend x y) (r'.extend x' y') := by
  rintro z z' (⟨rfl, rfl⟩ | ⟨hz, hz', hs⟩)
  · rw [Renaming.rename_extend_self, Renaming.rename_extend_self]
    exact .inl ⟨rfl, rfl⟩
  · rw [Renaming.rename_extend_of_ne _ _ hz, Renaming.rename_extend_of_ne _ _ hz']
    exact fits.le_under hy (h z z' hs)

namespace Meets

theorem grows (me : L.Meets n b K V Γ Γ') (g : L.Step b b' K K') : L.Meets n b' K' V Γ Γ' where
  toFrame := me.toFrame.grows g
  env := me.env.mono g.le
  code x x' hx := g.le.pairing me.env ▸ me.code x x' hx
  lookup x x' hx := by
    rcases me.lookup x x' hx with none | ⟨b, b', hb, hb', hm⟩
    · exact .inl none
    · exact .inr ⟨b, b', hb, hb', hm.mono g.le⟩
  binders := g.covers me.binders
  source x x' hx := g.le.binders x x' (me.source x x' hx)

/-- Going below a binder takes one level. -/
theorem bindFree (me : L.Meets n (b + 1) K V Γ Γ') (g : L.Step (b + 1) b K K') {y y' : Name}
    (hy : L.Picked (b + 1) Γ.names Γ'.names y y') {d d' : Value} (hd : Both K d d') :
    L.Meets n b (K'.bind y y') (V.under y y') (Γ.bindFree y d) (Γ'.bindFree y' d') where
  toFrame := (me.toFrame.deeper g).bindFree hy.toChosen d d'
  env := .extend (g.covers me.binders y y' hy.same hy.spares)
    ((me.env.mono g.le).mono (K'.le_bind y y')) (Both.ofVar (hd.mono g.le) y y')
  code x x' hx := by
    have le := g.le.trans (K'.le_bind y y')
    show (K'.bind y y').pairing (Γ.env.extend y _) (Γ'.env.extend y' _) x x'
    rw [Correspondence.pairing_extend (me.env.mono le)]
    refine Pairing.under_mono (fun z z' hz => ?_) y y' x x' hx
    exact le.pairing me.env ▸ me.code z z' hz
  lookup := by
    have le := g.le.trans (K'.le_bind y y')
    rintro x x' (⟨rfl, rfl⟩ | ⟨hx, hx', hv⟩)
    · refine .inr ⟨.free d, .free d', ?_, ?_, .free (hd.mono le)⟩
      · simp [Context.lookup_bindFree]
      · simp [Context.lookup_bindFree]
    · simp only [Context.lookup_bindFree, if_neg hx, if_neg hx']
      rcases me.lookup x x' hv with none | ⟨b, b', hb, hb', hm⟩
      · exact .inl none
      · exact .inr ⟨b, b', hb, hb', hm.mono le⟩
  binders := g.covers me.binders
  source x x' hx := g.le.binders x x' (me.source x x' hx)

theorem eval (me : L.Meets n b K V Γ Γ') {e e' : Expr} (he : L.Written (b + 1) V Γ Γ' K e e') :
    Request.Matches K (.eval Γ.env e) (.eval Γ'.env e') :=
  .eval me.env (he.mono False.elim (fun x x' hx => me.binders x x' hx.same hx.spares) me.code)

theorem valueOf (me : L.Meets n b K V Γ Γ') {e e' : Expr} (he : L.Written (b + 1) V Γ Γ' K e e') :
    L.rel n b b K Both (Check.valueOf n Γ e) (fun i => Check.valueOf i Γ' e') :=
  L.ask (me.eval he)

end Meets

/-! ## Comparisons -/

section Comparisons

variable (fr : L.Frame n b K V Γ Γ')

include fr

theorem readBack {A A' v v' : Value} (hA : Both K A A') (hv : Both K v v') :
    L.rel n b b K (L.Written b V Γ Γ') (readBack n Γ A v) (fun i => readBack i Γ' A' v') :=
  L.readings n fr (.value hA hv)

theorem readBackType {A A' : Value} (hA : Both K A A') :
    L.rel n b b K (L.Written b V Γ Γ') (readBackType n Γ A) (fun i => readBackType i Γ' A') :=
  L.readings n fr (.type hA)

omit fr in
theorem answered (o : Option Bool) :
    L.rel n b b K (fun _ => Eq) (answered o) (fun _ => answered o) := by
  cases o with
  | none => exact L.defect _
  | some b => exact L.pure rfl

theorem convert {A A' v v' w w' : Value} (hA : Both K A A') (hv : Both K v v')
    (hw : Both K w w') :
    L.rel n b b K (fun _ => Eq) (convert n Γ A v w) (fun i => convert i Γ' A' v' w') := by
  refine L.bind (readBack fr hA hv) fun K₁ e e' g he => ?_
  refine L.bind (readBack (fr.grows g) (hA.mono g.le) (hw.mono g.le)) fun K₂ f f' _ hf => ?_
  rw [← he.alphaEquiv hf fr.fits.one]
  exact answered _

theorem requireSame {A A' v v' w w' : Value} (hA : Both K A A') (hv : Both K v v')
    (hw : Both K w w') :
    L.rel n b b K (fun _ _ _ => True) (Check.requireSame n Γ A v w)
      (fun i => Check.requireSame i Γ' A' v' w') := by
  refine L.bind (convert fr hA hv hw) fun K₁ b b' g₁ hb => ?_
  subst hb
  cases b with
  | true => exact L.pure trivial
  | false =>
      have fr₁ := fr.grows g₁
      refine L.bind (readBack fr₁ (hA.mono g₁.le) (hv.mono g₁.le)) fun K₂ e e' g₂ he => ?_
      have le := g₁.le.trans g₂.le
      refine L.bind (readBack (fr₁.grows g₂) (hA.mono le) (hw.mono le)) fun K₃ f f' _ hf => ?_
      exact L.reject fun hs => by rw [Written.eq fr he hs, Written.eq fr hf hs]

theorem requireSameType {A A' B B' : Value} (hA : Both K A A') (hB : Both K B B') :
    L.rel n b b K (fun _ _ _ => True) (Check.requireSameType n Γ A B)
      (fun i => Check.requireSameType i Γ' A' B') := by
  refine L.bind (convert fr (.const .univ) hA hB) fun K₁ b b' g₁ hb => ?_
  subst hb
  cases b with
  | true => exact L.pure trivial
  | false =>
      have fr₁ := fr.grows g₁
      refine L.bind (readBackType fr₁ (hA.mono g₁.le)) fun K₂ e e' g₂ he => ?_
      refine L.bind (readBackType (fr₁.grows g₂) (hB.mono (g₁.le.trans g₂.le)))
        fun K₃ f f' _ hf => ?_
      exact L.reject fun hs => by rw [Written.eq fr he hs, Written.eq fr hf hs]

theorem rejectType {j : Nat} {α β : Type} (R : Correspondence → α → β → Prop) {A A' : Value}
    (hA : Both K A A') (reason reason' : Expr → Rejection)
    (same : ∀ t, L.strict → reason t = reason' t) :
    L.rel n b j K R (TypeKernel.readBackType n Γ A >>= fun t => Machine.reject (reason t))
      (fun i => TypeKernel.readBackType i Γ' A' >>= fun t => Machine.reject (reason' t)) := by
  refine L.bind (readBackType fr hA) fun K₁ t t' _ ht => ?_
  exact L.reject fun hs => by rw [Written.eq fr ht hs, same t' hs]

end Comparisons

theorem bindFresh (me : L.Meets n (b + 1) K V Γ Γ') (r r' : Renaming) {x x' : Name} (hx : L.Bound x x')
    (T T' : Value) :
    L.rel n (b + 1) (b + 1) K (fun _ p q => ∃ y y', L.Picked (b + 1) Γ.names Γ'.names y y' ∧
        p = (y, Γ.bindFree y T, r.extend x y) ∧ q = (y', Γ'.bindFree y' T', r'.extend x' y'))
      (Check.bindFresh Γ r x T) (fun _ => Check.bindFresh Γ' r' x' T') := by
  refine L.bind (me.toFrame.freshName (by omega) (me.source x x' hx)) fun K₁ y y' _ hy => ?_
  exact L.pure ⟨y, y', hy, rfl, rfl⟩

/-! ## Rules -/

/-- One synthesis rule tracks another. It ends at the level `b` if it starts at the level `cost b`. -/
def Synthesizes (L : Tracking m) (n : Nat) (cost : Nat → Nat) (S : Pairing)
    (rule : Context → Renaming → m (Expr × Value))
    (rule' : Nat → Context → Renaming → ByName (Expr × Value)) : Prop :=
  ∀ {b : Nat} {K : Correspondence} {V : Pairing} {Γ Γ' : Context} {r r' : Renaming},
    L.Meets n (cost b) K V Γ Γ' → Renames S V r r' →
      L.rel n (cost b) b K (L.Found b V Γ Γ') (rule Γ r) (fun i => rule' i Γ' r')

/-- One checking rule tracks another. -/
def Checks (L : Tracking m) (n : Nat) (cost : Nat → Nat) (S : Pairing)
    (rule : Context → Renaming → Value → m Expr)
    (rule' : Nat → Context → Renaming → Value → ByName Expr) : Prop :=
  ∀ {b : Nat} {K : Correspondence} {V : Pairing} {Γ Γ' : Context} {r r' : Renaming} {A A' : Value},
    L.Meets n (cost b) K V Γ Γ' → Renames S V r r' → Both K A A' →
      L.rel n (cost b) b K (L.Written (b + 1) V Γ Γ') (rule Γ r A) (fun i => rule' i Γ' r' A')

/-- One formation rule tracks another. -/
def Forms (L : Tracking m) (n : Nat) (cost : Nat → Nat) (S : Pairing) (rule : Context → Renaming → m Expr)
    (rule' : Nat → Context → Renaming → ByName Expr) : Prop :=
  ∀ {b : Nat} {K : Correspondence} {V : Pairing} {Γ Γ' : Context} {r r' : Renaming},
    L.Meets n (cost b) K V Γ Γ' → Renames S V r r' →
      L.rel n (cost b) b K (L.Written (b + 1) V Γ Γ') (rule Γ r) (fun i => rule' i Γ' r')

/-- Judgments that track judgments by name. -/
structure Judges (L : Tracking m) (n : Nat) (cost : Nat → Nat) (S : Pairing) (J : Judgments m)
    (J' : Nat → Judgments ByName) : Prop where
  synth : L.Synthesizes n cost S J.synth fun i => (J' i).synth
  check : L.Checks n cost S J.check fun i => (J' i).check
  isType : L.Forms n cost S J.isType fun i => (J' i).isType

end Tracking

namespace Check

variable {m : Type → Type} [Machine m] {L : Tracking m} {n b : Nat} {c₁ c₂ c₃ c₄ c₅ : Nat → Nat} {S : Pairing}
  {e e' : Expr}

theorem tracks_ofSynthesis (he : L.strict → e = e')
    {rule : Context → Renaming → m (Expr × Value)}
    {rule' : Nat → Context → Renaming → ByName (Expr × Value)} (h : L.Synthesizes n c₁ S rule rule') :
    L.Judges n c₁ S (ofSynthesis n e rule) (fun i => ofSynthesis i e' (rule' i)) where
  synth me hr := L.bind (L.report _ _) fun _ _ _ g _ => h (me.grows g) hr
  check me hr hA := by
    refine L.bind (L.report _ _) fun K₁ _ _ g₁ _ => ?_
    refine L.bind (h (me.grows g₁) hr) fun K₂ p q g₂ hpq => ?_
    have fr₂ := (me.toFrame.grows g₁).grows g₂
    refine L.bind (Tracking.requireSameType fr₂ (hA.mono (g₁.le.trans g₂.le)) hpq.2)
      fun K₃ _ _ _ _ => ?_
    exact L.pure hpq.1
  isType {b K V Γ Γ' _ _} me hr := by
    refine L.bind (L.report _ _) fun K₁ _ _ g₁ _ => ?_
    refine L.bind (h (me.grows g₁) hr) fun K₂ p q g₂ hpq => ?_
    refine L.bind (L.ask (.force hpq.2)) fun K₃ T T' g₃ hT => ?_
    have fr₃ := ((me.toFrame.grows g₁).grows g₂).grows g₃
    have other := Tracking.rejectType (j := b) fr₃ (L.Written (b + 1) V Γ Γ') hT (.notAUniverse e)
      (.notAUniverse e') fun t hs => by rw [he hs]
    cases hT with
    | const c =>
        cases c with
        | univ => exact L.pure hpq.1
        | _ => exact other
    | _ => exact other

theorem tracks_ofFormation (he : L.strict → e = e')
    {rule : Context → Renaming → m (Expr × Value)}
    {rule' : Nat → Context → Renaming → ByName (Expr × Value)}
    {formation : Context → Renaming → m Expr} {formation' : Nat → Context → Renaming → ByName Expr}
    (h : L.Synthesizes n c₁ S rule rule') (hf : L.Forms n c₁ S formation formation') :
    L.Judges n c₁ S (ofFormation n e rule formation)
      (fun i => ofFormation i e' (rule' i) (formation' i)) where
  synth := (tracks_ofSynthesis he h).synth
  check := (tracks_ofSynthesis he h).check
  isType := hf

theorem tracks_ofChecking (he : L.strict → e = e')
    {rule : Context → Renaming → Value → m Expr}
    {rule' : Nat → Context → Renaming → Value → ByName Expr} (h : L.Checks n c₁ S rule rule') :
    L.Judges n c₁ S (ofChecking e rule) (fun i => ofChecking e' (rule' i)) where
  synth _ _ := L.reject fun hs => by rw [he hs]
  check me hr hA := L.bind (L.report _ _) fun _ _ _ g _ => h (me.grows g) hr (hA.mono g.le)
  isType _ _ := L.reject fun hs => by rw [he hs]

theorem tracks_ofBoth (he : L.strict → e = e')
    {rule : Context → Renaming → m (Expr × Value)}
    {rule' : Nat → Context → Renaming → ByName (Expr × Value)}
    {checking : Context → Renaming → Value → m Expr}
    {checking' : Nat → Context → Renaming → Value → ByName Expr}
    (h : L.Synthesizes n c₁ S rule rule') (hc : L.Checks n c₁ S checking checking') :
    L.Judges n c₁ S (ofBoth n e rule checking) (fun i => ofBoth i e' (rule' i) (checking' i)) where
  synth := (tracks_ofSynthesis he h).synth
  check me hr hA := L.bind (L.report _ _) fun _ _ _ g _ => hc (me.grows g) hr (hA.mono g.le)
  isType := (tracks_ofSynthesis he h).isType

theorem tracks_ofDefect (d : Defect) (h : Stop.isNumeral (.failed (.defect d)) = false) :
    L.Judges n id S (ofDefect d) (fun _ => ofDefect d) where
  synth _ _ := L.defect d h
  check _ _ _ := L.defect d h
  isType _ _ := L.defect d h

theorem tracks_todo : L.Judges n id S (todo n) (fun i => todo i) where
  synth _ _ := L.bind (L.report _ _) fun _ _ _ _ _ => L.reject fun _ => rfl
  check me _ hA := L.bind (L.report _ _) fun _ _ _ g _ =>
    Tracking.rejectType (me.toFrame.grows g) _ (hA.mono g.le) _ _ fun _ _ => rfl
  isType _ _ := L.reject fun _ => rfl

theorem tracks_var {x x' : Name} (hx : S x x') (same : L.strict → x = x') :
    L.Judges n id S (var n x) (fun i => var i x') := by
  refine tracks_ofSynthesis (fun hs => by rw [same hs]) fun {b K V Γ Γ' r r'} me hr => ?_
  have unbound : L.rel n b b K (L.Found b V Γ Γ') (reject (.unboundVariable x))
      (fun _ => reject (.unboundVariable x')) := L.reject fun hs => by rw [same hs]
  have written : L.Written (b + 1) V Γ Γ' K (.var (r.rename x)) (.var (r'.rename x')) := .var (hr x x' hx)
  rcases me.lookup _ _ (hr x x' hx) with ⟨h, h'⟩ | ⟨b, b', h, h', hb⟩
  · rw [h, h']
    exact unbound
  · rw [h, h']
    cases hb with
    | free hT => exact L.pure ⟨written, hT⟩
    | definition hT _ => exact L.pure ⟨written, hT⟩
    | claim _ => exact unbound

theorem tracks_the {t t' : Expr} {type inner : Judgments m} {type' inner' : Nat → Judgments ByName}
    (same : L.strict → Expr.the t e = .the t' e') (ht : L.Judges n c₁ S type type')
    (hi : L.Judges n c₂ S inner inner') :
    L.Judges n (fun b => c₁ (c₂ b)) S (the n t e type inner) (fun i => the i t' e' (type' i) (inner' i)) := by
  refine tracks_ofSynthesis same fun me hr => ?_
  refine L.bind (ht.isType me hr) fun K₁ t t' g₁ ht => ?_
  have me₁ := me.grows g₁
  refine L.bind (me₁.valueOf ht) fun K₂ T T' g₂ hT => ?_
  refine L.bind (hi.check (me₁.grows g₂) hr hT) fun K₃ core core' g₃ hc => ?_
  exact L.pure ⟨.the (ht.later g₃) hc, hT.mono g₃.le⟩

/-! ## Type formers -/

theorem tracks_constRule (c : Const) {T : Value} (hT : ∀ K, Both K T T) :
    L.Synthesizes n id S (constRule c T) (fun _ => constRule c T) :=
  fun _ _ => L.pure ⟨.const c, hT _⟩

theorem tracks_univ : L.Judges n id S (univ n) (fun i => univ i) :=
  tracks_ofFormation (fun _ => rfl) (fun _ _ => L.reject fun _ => rfl)
    fun _ _ => L.pure (.const .univ)

theorem tracks_quant (q : Quantifier) {x x' : Name} {d d' : Expr} {domain range : Judgments m}
    {domain' range' : Nat → Judgments ByName} (hx : L.Bound x x')
    (same : L.strict → Expr.quant q x d e = .quant q x' d' e') (hd : L.Judges n c₁ S domain domain')
    (hr : L.Judges n c₂ (S.under x x') range range') :
    L.Judges n (fun b => c₁ (c₂ b + 1)) S (quant n q x d e domain range)
      (fun i => quant i q x' d' e' (domain' i) (range' i)) := by
  refine tracks_ofFormation same (fun me ren => ?_) (fun me ren => ?_)
  · refine L.bind (hd.check me ren (.const .univ)) fun K₁ d d' g₁ hd => ?_
    have me₁ := me.grows g₁
    refine L.bind (me₁.valueOf hd) fun K₂ D D' g₂ hD => ?_
    have me₂ := me₁.grows g₂
    refine L.bind (Tracking.bindFresh me₂ _ _ hx D D') fun K₃ p p' g₃ hp => L.lower fun K₄ g₄ => ?_
    obtain ⟨y, y', hy, rfl, rfl⟩ := hp
    have me₄ := (me₂.grows g₃).bindFree g₄ hy (hD.mono g₃.le)
    refine L.bind (L.scope hy.same (hr.check me₄ (ren.extend me.fits hy.toChosen x x') (.const .univ)))
      fun K₅ r r' g₅ hr => ?_
    have hy := hy.later g₅
    exact L.pure ⟨.quant q hy (hd.later (g₄.trans g₅)) hr.of_bindFree, .const .univ⟩
  · refine L.bind (hd.isType me ren) fun K₁ d d' g₁ hd => ?_
    have me₁ := me.grows g₁
    refine L.bind (me₁.valueOf hd) fun K₂ D D' g₂ hD => ?_
    have me₂ := me₁.grows g₂
    refine L.bind (Tracking.bindFresh me₂ _ _ hx D D') fun K₃ p p' g₃ hp => L.lower fun K₄ g₄ => ?_
    obtain ⟨y, y', hy, rfl, rfl⟩ := hp
    have me₄ := (me₂.grows g₃).bindFree g₄ hy (hD.mono g₃.le)
    refine L.bind (L.scope hy.same (hr.isType me₄ (ren.extend me.fits hy.toChosen x x')))
      fun K₅ r r' g₅ hr => ?_
    have hy := hy.later g₅
    exact L.pure (.quant q hy (hd.later (g₄.trans g₅)) hr.of_bindFree)

theorem tracks_list {entry : Judgments m} {entry' : Nat → Judgments ByName}
    (same : L.strict → Expr.list e = .list e') (ha : L.Judges n c₁ S entry entry') :
    L.Judges n c₁ S (list n e entry) (fun i => list i e' (entry' i)) := by
  refine tracks_ofFormation same (fun me ren => ?_) (fun me ren => ?_)
  · refine L.bind (ha.check me ren (.const .univ)) fun K₁ a a' _ ha => ?_
    exact L.pure ⟨.unary .list ha, .const .univ⟩
  · refine L.bind (ha.isType me ren) fun K₁ a a' _ ha => ?_
    exact L.pure (.unary .list ha)

section Binary

variable {e₁ e₁' e₂ e₂' : Expr} {first second : Judgments m} {first' second' : Nat → Judgments ByName}

theorem tracks_vec (same : L.strict → Expr.vec e₁ e₂ = .vec e₁' e₂')
    (ha : L.Judges n c₁ S first first') (hk : L.Judges n c₂ S second second') :
    L.Judges n (fun b => c₁ (c₂ b)) S (vec n e₁ e₂ first second)
      (fun i => vec i e₁' e₂' (first' i) (second' i)) := by
  refine tracks_ofFormation same (fun me ren => ?_) (fun me ren => ?_)
  · refine L.bind (ha.check me ren (.const .univ)) fun K₁ a a' g₁ ha => ?_
    refine L.bind (hk.check (me.grows g₁) ren (.const .nat)) fun K₂ k k' g₂ hk => ?_
    exact L.pure ⟨.binary .vec (ha.later g₂) hk, .const .univ⟩
  · refine L.bind (ha.isType me ren) fun K₁ a a' g₁ ha => ?_
    refine L.bind (hk.check (me.grows g₁) ren (.const .nat)) fun K₂ k k' g₂ hk => ?_
    exact L.pure (.binary .vec (ha.later g₂) hk)

theorem tracks_either (same : L.strict → Expr.either e₁ e₂ = .either e₁' e₂')
    (ha : L.Judges n c₁ S first first') (hb : L.Judges n c₂ S second second') :
    L.Judges n (fun b => c₁ (c₂ b)) S (either n e₁ e₂ first second)
      (fun i => either i e₁' e₂' (first' i) (second' i)) := by
  refine tracks_ofFormation same (fun me ren => ?_) (fun me ren => ?_)
  · refine L.bind (ha.check me ren (.const .univ)) fun K₁ a a' g₁ ha => ?_
    refine L.bind (hb.check (me.grows g₁) ren (.const .univ)) fun K₂ b b' g₂ hb => ?_
    exact L.pure ⟨.binary .either (ha.later g₂) hb, .const .univ⟩
  · refine L.bind (ha.isType me ren) fun K₁ a a' g₁ ha => ?_
    refine L.bind (hb.isType (me.grows g₁) ren) fun K₂ b b' g₂ hb => ?_
    exact L.pure (.binary .either (ha.later g₂) hb)

end Binary

theorem tracks_equal {t t' a a' b b' : Expr} {type left right : Judgments m}
    {type' left' right' : Nat → Judgments ByName}
    (same : L.strict → Expr.equal t a b = .equal t' a' b') (ht : L.Judges n c₁ S type type')
    (ha : L.Judges n c₂ S left left') (hb : L.Judges n c₃ S right right') :
    L.Judges n (fun b => c₁ (c₂ (c₃ b))) S (equal n t a b type left right)
      (fun i => equal i t' a' b' (type' i) (left' i) (right' i)) := by
  refine tracks_ofFormation same (fun me ren => ?_) (fun me ren => ?_)
  · refine L.bind (ht.check me ren (.const .univ)) fun K₁ t t' g₁ ht => ?_
    have me₁ := me.grows g₁
    refine L.bind (me₁.valueOf ht) fun K₂ T T' g₂ hT => ?_
    have me₂ := me₁.grows g₂
    refine L.bind (ha.check me₂ ren hT) fun K₃ a a' g₃ ha => ?_
    refine L.bind (hb.check (me₂.grows g₃) ren (hT.mono g₃.le)) fun K₄ b b' g₄ hb => ?_
    exact L.pure ⟨.equal (ht.later (g₃.trans g₄)) (ha.later g₄) hb, .const .univ⟩
  · refine L.bind (ht.isType me ren) fun K₁ t t' g₁ ht => ?_
    have me₁ := me.grows g₁
    refine L.bind (me₁.valueOf ht) fun K₂ T T' g₂ hT => ?_
    have me₂ := me₁.grows g₂
    refine L.bind (ha.check me₂ ren hT) fun K₃ a a' g₃ ha => ?_
    refine L.bind (hb.check (me₂.grows g₃) ren (hT.mono g₃.le)) fun K₄ b b' g₄ hb => ?_
    exact L.pure (.equal (ht.later (g₃.trans g₄)) (ha.later g₄) hb)

/-! ## Constructors -/

section Constructors

variable {K : Correspondence} {V : Pairing} {Γ Γ' : Context}

theorem tracks_wrongConstructor {j : Nat} {α β : Type} (R : Correspondence → α → β → Prop)
    (same : L.strict → e = e') (me : L.Meets n b K V Γ Γ') {A A' : Value} (hA : Both K A A') :
    L.rel n b j K R (wrongConstructor n Γ A e) (fun i => wrongConstructor i Γ' A' e') :=
  Tracking.rejectType me.toFrame R hA (fun t => .wrongConstructor t e)
    (fun t => .wrongConstructor t e') fun t hs => by rw [same hs]

/-- The rule of a constructor goes by the form of the expected type, and rejects the forms that it is not for. -/
theorem tracks_byForm (same : L.strict → e = e') {rule : Context → Renaming → Value → m Expr}
    {rule' : Nat → Context → Renaming → Value → ByName Expr}
    (h : ∀ {b K V Γ Γ' r r' w w'}, L.Meets n (c₁ b) K V Γ Γ' → Tracking.Renames S V r r' → Both K w w' →
      L.rel n (c₁ b) b K (L.Written (b + 1) V Γ Γ') (wrongConstructor n Γ w e)
        (fun i => wrongConstructor i Γ' w' e') →
      L.rel n (c₁ b) b K (L.Written (b + 1) V Γ Γ') (rule Γ r w) fun i => rule' i Γ' r' w') :
    L.Judges n c₁ S (ofChecking e fun Γ r A => A.force n >>= rule Γ r)
      fun i => ofChecking e' fun Γ r A => A.force i >>= rule' i Γ r :=
  tracks_ofChecking same fun me ren hA => L.bind (L.ask (.force hA)) fun _ _ _ g hw =>
    h (me.grows g) ren hw (tracks_wrongConstructor _ same (me.grows g) hw)

theorem tracks_nonemptyLength (me : L.Meets n b K V Γ Γ') (what : String) {E E' k k' : Value}
    (hE : Both K E E') (hk : Both K k k') :
    L.rel n b b K Both (nonemptyLength n Γ what E k)
      (fun i => nonemptyLength i Γ' what E' k') := by
  refine L.bind (L.ask (.force hk)) fun K₁ w w' g₁ hw => ?_
  have other := Tracking.rejectType (j := b) (me.toFrame.grows g₁) Both
    (.binary .vec (hE.mono g₁.le) (hk.mono g₁.le)) (.maybeEmpty what) (.maybeEmpty what)
    fun _ _ => rfl
  cases hw with
  | unary u hw =>
      cases u with
      | add1 => exact L.pure hw
      | _ => exact other
  | _ => exact other

end Constructors

theorem tracks_lam {x x' : Name} {body : Judgments m} {body' : Nat → Judgments ByName} (hx : L.Bound x x')
    (same : L.strict → Expr.lam x e = .lam x' e') (hb : L.Judges n c₁ (S.under x x') body body') :
    L.Judges n (fun b => c₁ b + 1) S (lam n x e body) (fun i => lam i x' e' (body' i)) := by
  refine tracks_byForm same fun {b K V Γ Γ' r r' w w'} me ren hw other => ?_
  cases hw with
  | @quant _ _ D D' _ _ q _ hD hR =>
      cases q with
      | sigma => exact other
      | pi =>
          refine L.bind (Tracking.bindFresh me r r' hx D D') fun K₁ p p' g₁ hp => L.lower fun K₂ g₂ => ?_
          obtain ⟨y, y', hy, rfl, rfl⟩ := hp
          have me₂ := (me.grows g₁).bindFree g₂ hy (hD.mono g₁.le)
          have le := g₁.le.trans g₂.le
          have below := le.trans (K₂.le_bind y y')
          refine L.scope hy.same (L.bind (L.ask (.apply (hR.mono below)
            (Both.ofVar (hD.mono le) y y'))) fun K₃ B B' g₃ hB => ?_)
          refine L.bind (hb.check (me₂.grows g₃) (ren.extend me.fits hy.toChosen x x') hB)
            fun K₄ b b' g₄ hb => ?_
          exact L.pure (.lam (hy.later g₄) hb.of_bindFree)
  | _ => exact other

section Binary

variable {e₁ e₁' e₂ e₂' : Expr} {first second : Judgments m} {first' second' : Nat → Judgments ByName}

theorem tracks_cons (same : L.strict → Expr.cons e₁ e₂ = .cons e₁' e₂')
    (ha : L.Judges n c₁ S first first') (hd : L.Judges n c₂ S second second') :
    L.Judges n (fun b => c₁ (c₂ b)) S (cons n e₁ e₂ first second)
      (fun i => cons i e₁' e₂' (first' i) (second' i)) := by
  refine tracks_byForm same fun me ren hw other => ?_
  cases hw with
  | quant q _ hD hR =>
      cases q with
      | pi => exact other
      | sigma =>
          refine L.bind (ha.check me ren hD) fun K₁ a a' g₁ ha => ?_
          have me₁ := me.grows g₁
          refine L.bind (me₁.valueOf ha) fun K₂ v v' g₂ hv => ?_
          refine L.bind (L.ask (.apply (hR.mono (g₁.le.trans g₂.le)) hv)) fun K₃ B B' g₃ hB => ?_
          refine L.bind (hd.check ((me₁.grows g₂).grows g₃) ren hB) fun K₄ d d' g₄ hd => ?_
          exact L.pure (.binary .cons (ha.later g₄) hd)
  | _ => exact other

theorem tracks_listCons (same : L.strict → Expr.listCons e₁ e₂ = .listCons e₁' e₂')
    (ha : L.Judges n c₁ S first first') (hd : L.Judges n c₂ S second second') :
    L.Judges n (fun b => c₁ (c₂ b)) S (listCons n e₁ e₂ first second)
      (fun i => listCons i e₁' e₂' (first' i) (second' i)) := by
  refine tracks_ofBoth same (fun me ren => ?_) (fun {b K V Γ Γ' r r' A A'} me ren hA => ?_)
  · refine L.bind (ha.synth me ren) fun K₁ p q g₁ hpq => ?_
    refine L.bind (hd.check (me.grows g₁) ren (.unary .list hpq.2)) fun K₂ d d' g₂ hd => ?_
    exact L.pure ⟨.binary .listCons (hpq.1.later g₂) hd, .unary .list (hpq.2.mono g₂.le)⟩
  · refine L.bind (L.ask (.force hA)) fun K₁ w w' g₁ hw => ?_
    have me₁ := me.grows g₁
    have other := tracks_wrongConstructor (j := b) (L.Written (b + 1) V Γ Γ') same me₁ hw
    cases hw with
    | unary u hE =>
        cases u with
        | list =>
            refine L.bind (ha.check me₁ ren hE) fun K₂ a a' g₂ ha => ?_
            refine L.bind (hd.check (me₁.grows g₂) ren (.unary .list (hE.mono g₂.le)))
              fun K₃ d d' g₃ hd => ?_
            exact L.pure (.binary .listCons (ha.later g₃) hd)
        | _ => exact other
    | _ => exact other

theorem tracks_vecCons (same : L.strict → Expr.vecCons e₁ e₂ = .vecCons e₁' e₂')
    (ha : L.Judges n c₁ S first first') (hd : L.Judges n c₂ S second second') :
    L.Judges n (fun b => c₁ (c₂ b)) S (vecCons n e₁ e₂ first second)
      (fun i => vecCons i e₁' e₂' (first' i) (second' i)) := by
  refine tracks_byForm same fun me ren hw other => ?_
  cases hw with
  | binary b hE hk =>
      cases b with
      | vec =>
          refine L.bind (tracks_nonemptyLength me _ hE hk) fun K₁ l l' g₁ hl => ?_
          have me₁ := me.grows g₁
          have hE := hE.mono g₁.le
          refine L.bind (ha.check me₁ ren hE) fun K₂ a a' g₂ ha => ?_
          refine L.bind (hd.check (me₁.grows g₂) ren (.binary .vec (hE.mono g₂.le) (hl.mono g₂.le)))
            fun K₃ d d' g₃ hd => ?_
          exact L.pure (.binary .vecCons (ha.later g₃) hd)
      | _ => exact other
  | _ => exact other

end Binary

section Unary

variable {inner : Judgments m} {inner' : Nat → Judgments ByName}

theorem tracks_add1 (same : L.strict → Expr.add1 e = .add1 e') (ha : L.Judges n c₁ S inner inner') :
    L.Judges n c₁ S (add1 n e inner) (fun i => add1 i e' (inner' i)) := by
  refine tracks_ofSynthesis same fun me ren => ?_
  refine L.bind (ha.check me ren (.const .nat)) fun K₁ a a' _ ha => ?_
  exact L.pure ⟨.unary .add1 ha, .const .nat⟩

theorem tracks_left (same : L.strict → Expr.left e = .left e') (ha : L.Judges n c₁ S inner inner') :
    L.Judges n c₁ S (left n e inner) (fun i => left i e' (inner' i)) := by
  refine tracks_byForm same fun me ren hw other => ?_
  cases hw with
  | binary b hl hr =>
      cases b with
      | either =>
          refine L.bind (ha.check me ren hl) fun K₁ a a' _ ha => ?_
          exact L.pure (.unary .left ha)
      | _ => exact other
  | _ => exact other

theorem tracks_right (same : L.strict → Expr.right e = .right e')
    (ha : L.Judges n c₁ S inner inner') :
    L.Judges n c₁ S (right n e inner) (fun i => right i e' (inner' i)) := by
  refine tracks_byForm same fun me ren hw other => ?_
  cases hw with
  | binary b hl hr =>
      cases b with
      | either =>
          refine L.bind (ha.check me ren hr) fun K₁ a a' _ ha => ?_
          exact L.pure (.unary .right ha)
      | _ => exact other
  | _ => exact other

theorem tracks_same (same : L.strict → Expr.same e = .same e') (ha : L.Judges n c₁ S inner inner') :
    L.Judges n c₁ S (Check.same n e inner) (fun i => Check.same i e' (inner' i)) := by
  refine tracks_byForm same fun me ren hw other => ?_
  cases hw with
  | equal hT hs hf =>
      refine L.bind (ha.check me ren hT) fun K₁ a a' g₁ ha => ?_
      have me₁ := me.grows g₁
      refine L.bind (me₁.valueOf ha) fun K₂ v v' g₂ hv => ?_
      have le := g₁.le.trans g₂.le
      have fr₂ := (me₁.grows g₂).toFrame
      refine L.bind (Tracking.requireSame fr₂ (hT.mono le) (hs.mono le) hv) fun K₃ _ _ g₃ _ => ?_
      refine L.bind (Tracking.requireSame (fr₂.grows g₃) (hT.mono (le.trans g₃.le)) (hv.mono g₃.le)
        (hf.mono (le.trans g₃.le))) fun K₄ _ _ _ _ => ?_
      exact L.pure (.unary .same ha)
  | _ => exact other

end Unary

theorem tracks_quote (a : String) : L.Judges n id S (quote n a) (fun i => quote i a) := by
  refine tracks_ofSynthesis (fun _ => rfl) fun me ren => ?_
  split
  · exact L.pure ⟨.quote a, .const .atom⟩
  · exact L.reject fun _ => rfl

theorem tracks_nil : L.Judges n id S (nil n) (fun i => nil i) := by
  have same : L.strict → Expr.nil = .nil := fun _ => rfl
  refine tracks_byForm same fun _ _ hw other => ?_
  cases hw with
  | unary u _ =>
      cases u with
      | list => exact L.pure (.const .nil)
      | _ => exact other
  | _ => exact other

theorem tracks_vecNil : L.Judges n id S (vecNil n) (fun i => vecNil i) := by
  have same : L.strict → Expr.vecNil = .vecNil := fun _ => rfl
  refine tracks_byForm same fun me ren hw other => ?_
  cases hw with
  | binary b _ hk =>
      cases b with
      | vec =>
          refine L.bind (Tracking.requireSame me.toFrame (.const .nat) (.const .zero) hk)
            fun K₁ _ _ _ _ => ?_
          exact L.pure (.const .vecNil)
      | _ => exact other
  | _ => exact other

/-! ## Eliminators -/

/-- A view of a type finds corresponding parts in matching types, or none in either. -/
def Views {α : Type} (view : Value → Option α) (R : Correspondence → α → α → Prop) : Prop :=
  ∀ {K : Correspondence} {v v' : Value}, Both K v v' → (view v = none ∧ view v' = none) ∨
    ∃ a a', view v = some a ∧ view v' = some a' ∧ R K a a'

theorem views_isNat : Views Value.isNat? fun _ _ _ => True := by
  intro K v v' hv
  cases hv with
  | const c =>
      cases c with
      | nat => exact .inr ⟨(), (), rfl, rfl, trivial⟩
      | _ => exact .inl ⟨rfl, rfl⟩
  | _ => exact .inl ⟨rfl, rfl⟩

theorem views_isAbsurd : Views Value.isAbsurd? fun _ _ _ => True := by
  intro K v v' hv
  cases hv with
  | const c =>
      cases c with
      | absurd => exact .inr ⟨(), (), rfl, rfl, trivial⟩
      | _ => exact .inl ⟨rfl, rfl⟩
  | _ => exact .inl ⟨rfl, rfl⟩

theorem views_listEntry : Views Value.listEntry? Both := by
  intro K v v' hv
  cases hv with
  | unary u hE =>
      cases u with
      | list => exact .inr ⟨_, _, rfl, rfl, hE⟩
      | _ => exact .inl ⟨rfl, rfl⟩
  | _ => exact .inl ⟨rfl, rfl⟩

theorem views_vecParts :
    Views Value.vecParts? fun K p q => Both K p.1 q.1 ∧ Both K p.2 q.2 := by
  intro K v v' hv
  cases hv with
  | binary b h₁ h₂ =>
      cases b with
      | vec => exact .inr ⟨_, _, rfl, rfl, h₁, h₂⟩
      | _ => exact .inl ⟨rfl, rfl⟩
  | _ => exact .inl ⟨rfl, rfl⟩

theorem views_eitherParts :
    Views Value.eitherParts? fun K p q => Both K p.1 q.1 ∧ Both K p.2 q.2 := by
  intro K v v' hv
  cases hv with
  | binary b h₁ h₂ =>
      cases b with
      | either => exact .inr ⟨_, _, rfl, rfl, h₁, h₂⟩
      | _ => exact .inl ⟨rfl, rfl⟩
  | _ => exact .inl ⟨rfl, rfl⟩

theorem views_equalParts : Views Value.equalParts? AllThree := by
  intro K v v' hv
  cases hv with
  | equal hT hl hr => exact .inr ⟨_, _, rfl, rfl, hT, hl, hr⟩
  | _ => exact .inl ⟨rfl, rfl⟩

section Targets

variable {K : Correspondence} {V : Pairing} {Γ Γ' : Context} {r r' : Renaming}
  {subject : Judgments m} {subject' : Nat → Judgments ByName}

theorem tracks_target {α : Type} {view : Value → Option α} {R : Correspondence → α → α → Prop}
    (hview : Views view R) (eliminator : Eliminator) (head : TypeHead)
    (hs : L.Judges n c₁ S subject subject') (me : L.Meets n (c₁ b) K V Γ Γ')
    (ren : Tracking.Renames S V r r') :
    L.rel n (c₁ b) b K (fun K p q => L.Written (b + 1) V Γ Γ' K p.1 q.1 ∧ R K p.2 q.2)
      (target n eliminator head view subject Γ r)
      (fun i => target i eliminator head view (subject' i) Γ' r') := by
  refine L.bind (hs.synth me ren) fun K₁ p q g₁ hpq => ?_
  refine L.bind (L.ask (.force hpq.2)) fun K₂ w w' g₂ hw => ?_
  rcases hview hw with ⟨none, none'⟩ | ⟨a, a', some, some', ha⟩
  · rw [none, none']
    exact Tracking.rejectType ((me.toFrame.grows g₁).grows g₂) _ hw _ _ fun _ _ => rfl
  · rw [some, some']
    exact L.pure ⟨hpq.1, ha⟩

theorem tracks_equality (eliminator : Eliminator) (hs : L.Judges n c₁ S subject subject')
    (me : L.Meets n (c₁ b) K V Γ Γ') (ren : Tracking.Renames S V r r') :
    L.rel n (c₁ b) b K (fun K p q => L.Written (b + 1) V Γ Γ' K p.1 q.1 ∧ AllThree K p.2 q.2)
      (equality n eliminator subject Γ r) (fun i => equality i eliminator (subject' i) Γ' r') :=
  tracks_target views_equalParts eliminator .equal hs me ren

/-- An elaborated pair and the two parts of its type. -/
def FoundPair (L : Tracking m) (b : Nat) (V : Pairing) (Γ Γ' : Context) (K : Correspondence)
    (p q : Expr × Value × Closure) : Prop :=
  L.Written (b + 1) V Γ Γ' K p.1 q.1 ∧ Both K p.2.1 q.2.1 ∧ Matches K (.closure p.2.2) (.closure q.2.2)

theorem tracks_pair (projection : Projection) (hs : L.Judges n c₁ S subject subject')
    (me : L.Meets n (c₁ b) K V Γ Γ') (ren : Tracking.Renames S V r r') :
    L.rel n (c₁ b) b K (FoundPair L b V Γ Γ') (pair n projection subject Γ r)
      (fun i => pair i projection (subject' i) Γ' r') := by
  refine L.bind (hs.synth me ren) fun K₁ p q g₁ hpq => ?_
  refine L.bind (L.ask (.force hpq.2)) fun K₂ w w' g₂ hw => ?_
  have other := Tracking.rejectType (j := b) ((me.toFrame.grows g₁).grows g₂)
    (FoundPair L b V Γ Γ') hw (.notAPair projection) (.notAPair projection) fun _ _ => rfl
  cases hw with
  | quant q _ hD hR =>
      cases q with
      | pi => exact other
      | sigma => exact L.pure ⟨hpq.1, hD, hR⟩
  | _ => exact other

theorem tracks_baseAndStep {base step : Judgments m} {base' step' : Nat → Judgments ByName}
    {stepType stepType' : Value → Value}
    (steps : ∀ {K' B B'}, K.Le K' → Both K' B B' → Both K' (stepType B) (stepType' B'))
    (hb : L.Judges n c₁ S base base') (hs : L.Judges n c₂ S step step')
    (me : L.Meets n (c₁ (c₂ (b + 1))) K V Γ Γ') (ren : Tracking.Renames S V r r') :
    L.rel n (c₁ (c₂ (b + 1))) b K (fun K p q => L.Written (b + 1) V Γ Γ' K p.1 q.1 ∧
        L.Written (b + 1) V Γ Γ' K p.2.1 q.2.1 ∧ Both K p.2.2 q.2.2)
      (baseAndStep n stepType base step Γ r)
      (fun i => baseAndStep i stepType' (base' i) (step' i) Γ' r') := by
  refine L.bind (hb.synth me ren) fun K₁ p q g₁ hpq => ?_
  have me₁ := me.grows g₁
  refine L.bind (hs.check me₁ ren (steps g₁.le hpq.2)) fun K₂ s s' g₂ hs => ?_
  refine L.bind (Tracking.readBackType (me₁.grows g₂).toFrame (hpq.2.mono g₂.le))
    fun K₃ t t' g₃ ht => L.lower fun K₄ g₄ => ?_
  exact L.pure ⟨.annotate ht ((hpq.1.later g₂).later g₄), hs.later g₄,
    hpq.2.mono (g₂.le.trans (g₃.le.trans g₄.le))⟩

end Targets

theorem tracks_app {f f' a a' : Expr} {fn arg : Judgments m} {fn' arg' : Nat → Judgments ByName}
    (same : L.strict → Expr.app f a = .app f' a') (hf : L.Judges n c₁ S fn fn')
    (ha : L.Judges n c₂ S arg arg') :
    L.Judges n (fun b => c₁ (c₂ b)) S (app n f a fn arg) (fun i => app i f' a' (fn' i) (arg' i)) := by
  refine tracks_ofSynthesis same fun {b K V Γ Γ' r r'} me ren => ?_
  refine L.bind (hf.synth me ren) fun K₁ p q g₁ hpq => ?_
  refine L.bind (L.ask (.force hpq.2)) fun K₂ w w' g₂ hw => ?_
  have me₂ := (me.grows g₁).grows g₂
  have other := Tracking.rejectType (j := b) me₂.toFrame (L.Found b V Γ Γ') hw .notAFunction
    .notAFunction fun _ _ => rfl
  cases hw with
  | quant q _ hD hR =>
      cases q with
      | sigma => exact other
      | pi =>
          refine L.bind (ha.check me₂ ren hD) fun K₃ a a' g₃ ha => ?_
          have me₃ := me₂.grows g₃
          refine L.bind (me₃.valueOf ha) fun K₄ v v' g₄ hv => ?_
          refine L.bind (L.ask (.apply (hR.mono (g₃.le.trans g₄.le)) hv)) fun K₅ B B' _ hB => ?_
          exact L.pure ⟨.app (hpq.1.later g₃) ha, hB⟩
  | _ => exact other

theorem tracks_proj (p : Projection) {subject : Judgments m} {subject' : Nat → Judgments ByName}
    (same : L.strict → Expr.proj p e = .proj p e') (hs : L.Judges n c₁ S subject subject') :
    L.Judges n c₁ S (proj n p e subject) (fun i => proj i p e' (subject' i)) := by
  refine tracks_ofSynthesis same fun me ren => ?_
  cases p with
  | car =>
      refine L.bind (tracks_pair .car hs me ren) fun K₁ a b g₁ hab => ?_
      exact L.pure ⟨.proj .car hab.1, hab.2.1⟩
  | cdr =>
      refine L.bind (tracks_pair .cdr hs me ren) fun K₁ a b g₁ hab => ?_
      refine L.bind ((me.grows g₁).valueOf hab.1) fun K₂ v v' g₂ hv => ?_
      refine L.bind ((L.asks n _).project .car hv) fun K₃ w w' g₃ hw => ?_
      refine L.bind (L.ask (.apply (hab.2.2.mono (g₂.le.trans g₃.le)) hw)) fun K₄ B B' _ hB => ?_
      exact L.pure ⟨.proj .cdr hab.1, hB⟩
  | head =>
      refine L.bind (tracks_target views_vecParts _ _ hs me ren) fun K₁ a b g₁ hab => ?_
      refine L.bind (tracks_nonemptyLength (me.grows g₁) _ hab.2.1 hab.2.2) fun K₂ l l' g₂ _ => ?_
      exact L.pure ⟨.proj .head hab.1, hab.2.1.mono g₂.le⟩
  | tail =>
      refine L.bind (tracks_target views_vecParts _ _ hs me ren) fun K₁ a b g₁ hab => ?_
      refine L.bind (tracks_nonemptyLength (me.grows g₁) _ hab.2.1 hab.2.2) fun K₂ l l' g₂ hl => ?_
      exact L.pure ⟨.proj .tail hab.1, .binary .vec (hab.2.1.mono g₂.le) hl⟩
  | symm =>
      refine L.bind (tracks_equality _ hs me ren) fun K₁ a b _ hab => ?_
      exact L.pure ⟨.proj .symm hab.1, .equal hab.2.1 hab.2.2.2 hab.2.2.1⟩

section Folds

variable {t t' b b' s s' : Expr} {subject base step : Judgments m}
  {subject' base' step' : Nat → Judgments ByName}

theorem tracks_natFoldRule (f : Fold) {stepType : Value → Value} (hf : NatFold f stepType)
    (ht : L.Judges n c₁ S subject subject') (hb : L.Judges n c₂ S base base')
    (hs : L.Judges n c₃ S step step') :
    L.Synthesizes n (fun b => c₁ (c₂ (c₃ (b + 1)))) S (natFoldRule n f stepType subject base step)
      (fun i => natFoldRule i f stepType (subject' i) (base' i) (step' i)) := by
  intro b K V Γ Γ' r r' me ren
  refine L.bind (tracks_target views_isNat _ _ ht me ren) fun K₁ a a' g₁ ha => ?_
  refine L.bind (tracks_baseAndStep (fun _ hB => hf.both hB) hb hs (me.grows g₁) ren)
    fun K₂ p q g₂ hpq => ?_
  exact L.pure ⟨.fold f (ha.1.later g₂) hpq.1 hpq.2.1, hpq.2.2⟩

theorem tracks_fold (f : Fold) (same : L.strict → Expr.fold f t b s = .fold f t' b' s')
    (ht : L.Judges n c₁ S subject subject') (hb : L.Judges n c₂ S base base')
    (hs : L.Judges n c₃ S step step') :
    L.Judges n (fun b => c₁ (c₂ (c₃ (b + 1)))) S (fold n f t b s subject base step)
      (fun i => fold i f t' b' s' (subject' i) (base' i) (step' i)) := by
  refine tracks_ofSynthesis same fun me ren => ?_
  cases f with
  | whichNat => exact tracks_natFoldRule _ .which ht hb hs me ren
  | iterNat => exact tracks_natFoldRule _ .iter ht hb hs me ren
  | recNat => exact tracks_natFoldRule _ .recur ht hb hs me ren
  | recList =>
      refine L.bind (tracks_target views_listEntry _ _ ht me ren) fun K₁ a a' g₁ ha => ?_
      have steps : ∀ {K' B B'}, K₁.Le K' → Both K' B B' →
          Both K' (Value.recListStep a.2 B) (Value.recListStep a'.2 B') := fun le hB =>
        .piFamily _ (ha.2.mono le) (.always (.piFamily _ (.unary .list (ha.2.mono le))
          (.always (.piFamily _ hB (.always hB)))))
      refine L.bind (tracks_baseAndStep steps hb hs (me.grows g₁) ren) fun K₂ p q g₂ hpq => ?_
      exact L.pure ⟨.fold .recList (ha.1.later g₂) hpq.1 hpq.2.1, hpq.2.2⟩

end Folds

section Inductions

variable {k k' t t' mo mo' b b' s s' : Expr} {length subject motive base step : Judgments m}
  {length' subject' motive' base' step' : Nat → Judgments ByName}

theorem tracks_induct (i : Induction)
    (same : L.strict → Expr.induct i t mo b s = .induct i t' mo' b' s')
    (ht : L.Judges n c₁ S subject subject') (hm : L.Judges n c₂ S motive motive')
    (hb : L.Judges n c₃ S base base') (hs : L.Judges n c₄ S step step') :
    L.Judges n (fun b => c₁ (c₂ (c₃ (c₄ b)))) S (induct n i t mo b s subject motive base step)
      (fun j => induct j i t' mo' b' s' (subject' j) (motive' j) (base' j) (step' j)) := by
  refine tracks_ofSynthesis same fun me ren => ?_
  cases i with
  | indNat =>
      refine L.bind (tracks_target views_isNat _ _ ht me ren) fun K₁ a a' g₁ ha => ?_
      have me₁ := me.grows g₁
      refine L.bind (hm.check me₁ ren (.piFamily _ (.const .nat) (.always (.const .univ))))
        fun K₂ m m' g₂ hm => ?_
      have me₂ := me₁.grows g₂
      refine L.bind (me₂.valueOf hm) fun K₃ M M' g₃ hM => ?_
      have me₃ := me₂.grows g₃
      refine L.bind ((L.asks n _).call hM (.const .zero)) fun K₄ Z Z' g₄ hZ => ?_
      have me₄ := me₃.grows g₄
      refine L.bind (hb.check me₄ ren hZ) fun K₅ b b' g₅ hb => ?_
      have me₅ := me₄.grows g₅
      have hM := hM.mono (g₄.le.trans g₅.le)
      refine L.bind (hs.check me₅ ren (.piFamily _ (.const .nat) (.natStep hM)))
        fun K₆ s s' g₆ hs => ?_
      have me₆ := me₅.grows g₆
      have target := ha.1.later (g₂.trans (g₃.trans (g₄.trans (g₅.trans g₆))))
      refine L.bind (me₆.valueOf target) fun K₇ v v' g₇ hv => ?_
      refine L.bind ((L.asks n _).call (hM.mono (g₆.le.trans g₇.le)) hv) fun K₈ T T' _ hT => ?_
      exact L.pure ⟨.induct .indNat target (hm.later (g₅.trans g₆)) (hb.later g₆) hs, hT⟩
  | indList =>
      refine L.bind (tracks_target views_listEntry _ _ ht me ren) fun K₁ a a' g₁ ha => ?_
      have me₁ := me.grows g₁
      refine L.bind (hm.check me₁ ren (.piFamily _ (.unary .list ha.2) (.always (.const .univ))))
        fun K₂ m m' g₂ hm => ?_
      have me₂ := me₁.grows g₂
      refine L.bind (me₂.valueOf hm) fun K₃ M M' g₃ hM => ?_
      have me₃ := me₂.grows g₃
      refine L.bind ((L.asks n _).call hM (.const .nil)) fun K₄ Z Z' g₄ hZ => ?_
      have me₄ := me₃.grows g₄
      refine L.bind (hb.check me₄ ren hZ) fun K₅ b b' g₅ hb => ?_
      have me₅ := me₄.grows g₅
      have hM := hM.mono (g₄.le.trans g₅.le)
      have hE := ha.2.mono (((g₂.le.trans g₃.le).trans g₄.le).trans g₅.le)
      refine L.bind (hs.check me₅ ren (.piFamily _ hE (.listStep hE hM))) fun K₆ s s' g₆ hs => ?_
      have me₆ := me₅.grows g₆
      have target := ha.1.later (g₂.trans (g₃.trans (g₄.trans (g₅.trans g₆))))
      refine L.bind (me₆.valueOf target) fun K₇ v v' g₇ hv => ?_
      refine L.bind ((L.asks n _).call (hM.mono (g₆.le.trans g₇.le)) hv) fun K₈ T T' _ hT => ?_
      exact L.pure ⟨.induct .indList target (hm.later (g₅.trans g₆)) (hb.later g₆) hs, hT⟩
  | indEither =>
      refine L.bind (tracks_target views_eitherParts _ _ ht me ren) fun K₁ a a' g₁ ha => ?_
      have me₁ := me.grows g₁
      refine L.bind (hm.check me₁ ren (.piFamily _ (.binary .either ha.2.1 ha.2.2)
        (.always (.const .univ)))) fun K₂ m m' g₂ hm => ?_
      have me₂ := me₁.grows g₂
      refine L.bind (me₂.valueOf hm) fun K₃ M M' g₃ hM => ?_
      have me₃ := me₂.grows g₃
      have le := g₂.le.trans g₃.le
      refine L.bind (hb.check me₃ ren (.piFamily _ (ha.2.1.mono le) (.wrapped .left hM)))
        fun K₄ b b' g₄ hb => ?_
      have me₄ := me₃.grows g₄
      have hM := hM.mono g₄.le
      refine L.bind (hs.check me₄ ren (.piFamily _ (ha.2.2.mono (le.trans g₄.le))
        (.wrapped .right hM))) fun K₅ s s' g₅ hs => ?_
      have me₅ := me₄.grows g₅
      have target := ha.1.later (g₂.trans (g₃.trans (g₄.trans g₅)))
      refine L.bind (me₅.valueOf target) fun K₆ v v' g₆ hv => ?_
      refine L.bind ((L.asks n _).call (hM.mono (g₅.le.trans g₆.le)) hv) fun K₇ T T' _ hT => ?_
      exact L.pure ⟨.induct .indEither target (hm.later (g₄.trans g₅)) (hb.later g₅) hs, hT⟩

theorem tracks_indVec (same : L.strict → Expr.indVec k t mo b s = .indVec k' t' mo' b' s')
    (hk : L.Judges n c₁ S length length') (ht : L.Judges n c₂ S subject subject')
    (hm : L.Judges n c₃ S motive motive') (hb : L.Judges n c₄ S base base')
    (hs : L.Judges n c₅ S step step') :
    L.Judges n (fun b => c₁ (c₂ (c₃ (c₄ (c₅ b))))) S (indVec n k t mo b s length subject motive base step)
      (fun j => indVec j k' t' mo' b' s' (length' j) (subject' j) (motive' j) (base' j)
        (step' j)) := by
  refine tracks_ofSynthesis same fun me ren => ?_
  refine L.bind (hk.check me ren (.const .nat)) fun K₁ k k' g₁ hk => ?_
  have me₁ := me.grows g₁
  refine L.bind (me₁.valueOf hk) fun K₂ l l' g₂ hl => ?_
  have me₂ := me₁.grows g₂
  refine L.bind (tracks_target views_vecParts _ _ ht me₂ ren) fun K₃ a a' g₃ ha => ?_
  have me₃ := me₂.grows g₃
  refine L.bind (Tracking.requireSame me₃.toFrame (.const .nat) (hl.mono g₃.le) ha.2.2)
    fun K₄ _ _ g₄ _ => ?_
  have me₄ := me₃.grows g₄
  have hE := ha.2.1.mono g₄.le
  refine L.bind (hm.check me₄ ren (.piFamily _ (.const .nat) (.vecMotive hE)))
    fun K₅ m m' g₅ hm => ?_
  have me₅ := me₄.grows g₅
  refine L.bind (me₅.valueOf hm) fun K₆ M M' g₆ hM => ?_
  have me₆ := me₅.grows g₆
  refine L.bind ((L.asks n _).callBoth hM (.const .zero) (.const .vecNil)) fun K₇ Z Z' g₇ hZ => ?_
  have me₇ := me₆.grows g₇
  refine L.bind (hb.check me₇ ren hZ) fun K₈ b b' g₈ hb => ?_
  have me₈ := me₇.grows g₈
  have hM := hM.mono (g₇.le.trans g₈.le)
  have hE := hE.mono ((g₅.le.trans g₆.le).trans (g₇.le.trans g₈.le))
  refine L.bind (hs.check me₈ ren (.piFamily _ (.const .nat) (.vecStep hE hM)))
    fun K₉ s s' g₉ hs => ?_
  have me₉ := me₈.grows g₉
  have hl := hl.mono ((g₃.le.trans g₄.le).trans ((g₅.le.trans g₆.le).trans
    ((g₇.le.trans g₈.le).trans g₉.le)))
  refine L.bind ((L.asks n _).call (hM.mono g₉.le) hl) fun K₁₀ F F' g₁₀ hF => ?_
  have g := g₄.trans (g₅.trans (g₆.trans (g₇.trans (g₈.trans g₉))))
  refine L.bind ((me₉.grows g₁₀).valueOf (ha.1.later g)) fun K₁₁ v v' g₁₁ hv => ?_
  refine L.bind ((L.asks n _).call (hF.mono g₁₁.le) hv) fun K₁₂ T T' _ hT => ?_
  exact L.pure ⟨.indVec (hk.later (g₃.trans g)) (ha.1.later g) (hm.later (g₈.trans g₉)) (hb.later g₉) hs, hT⟩

theorem tracks_indAbsurd (same : L.strict → Expr.indAbsurd t mo = .indAbsurd t' mo')
    (ht : L.Judges n c₁ S subject subject') (hm : L.Judges n c₂ S motive motive') :
    L.Judges n (fun b => c₁ (c₂ b)) S (indAbsurd n t mo subject motive)
      (fun i => indAbsurd i t' mo' (subject' i) (motive' i)) := by
  refine tracks_ofSynthesis same fun me ren => ?_
  refine L.bind (tracks_target views_isAbsurd _ _ ht me ren) fun K₁ a a' g₁ ha => ?_
  have me₁ := me.grows g₁
  refine L.bind (hm.check me₁ ren (.const .univ)) fun K₂ m m' g₂ hm => ?_
  refine L.bind ((me₁.grows g₂).valueOf hm) fun K₃ T T' _ hT => ?_
  exact L.pure ⟨.indAbsurd (Tracking.Written.annotate (K := K₁) (.const .absurd) (ha.1.later g₂)) hm, hT⟩

theorem tracks_transport (k : Transport)
    (same : L.strict → Expr.transport k t mo b = .transport k t' mo' b')
    (ht : L.Judges n c₁ S subject subject') (hm : L.Judges n c₂ S motive motive')
    (hb : L.Judges n c₃ S base base') :
    L.Judges n (fun b => c₁ (c₂ (c₃ b))) S (transport n k t mo b subject motive base)
      (fun i => transport i k t' mo' b' (subject' i) (motive' i) (base' i)) := by
  refine tracks_ofSynthesis same fun me ren => ?_
  cases k with
  | replace =>
      refine L.bind (tracks_equality _ ht me ren) fun K₁ a a' g₁ ha => ?_
      have me₁ := me.grows g₁
      refine L.bind (hm.check me₁ ren (.piFamily _ ha.2.1 (.always (.const .univ))))
        fun K₂ m m' g₂ hm => ?_
      have me₂ := me₁.grows g₂
      refine L.bind (me₂.valueOf hm) fun K₃ M M' g₃ hM => ?_
      have le := g₂.le.trans g₃.le
      refine L.bind ((L.asks n _).call hM (ha.2.2.1.mono le)) fun K₄ A A' g₄ hA => ?_
      refine L.bind (hb.check ((me₂.grows g₃).grows g₄) ren hA) fun K₅ b b' g₅ hb => ?_
      have le' := g₄.le.trans g₅.le
      refine L.bind ((L.asks n _).call (hM.mono le') (ha.2.2.2.mono (le.trans le')))
        fun K₆ T T' _ hT => ?_
      have target := ha.1.later (g₂.trans (g₃.trans (g₄.trans g₅)))
      exact L.pure ⟨.transport .replace target (hm.later g₅) hb, hT⟩
  | indEqual =>
      refine L.bind (tracks_equality _ ht me ren) fun K₁ a a' g₁ ha => ?_
      have me₁ := me.grows g₁
      refine L.bind (hm.check me₁ ren (.piFamily _ ha.2.1 (.equalMotive ha.2.1 ha.2.2.1)))
        fun K₂ m m' g₂ hm => ?_
      have me₂ := me₁.grows g₂
      refine L.bind (me₂.valueOf hm) fun K₃ M M' g₃ hM => ?_
      have le := g₂.le.trans g₃.le
      have start := ha.2.2.1.mono le
      refine L.bind ((L.asks n _).callBoth hM start (.unary .same start)) fun K₄ A A' g₄ hA => ?_
      have me₄ := (me₂.grows g₃).grows g₄
      refine L.bind (hb.check me₄ ren hA) fun K₅ b b' g₅ hb => ?_
      have le' := g₄.le.trans g₅.le
      refine L.bind ((L.asks n _).call (hM.mono le') (ha.2.2.2.mono (le.trans le')))
        fun K₆ F F' g₆ hF => ?_
      have target := ha.1.later (g₂.trans (g₃.trans (g₄.trans g₅)))
      refine L.bind (((me₄.grows g₅).grows g₆).valueOf target) fun K₇ v v' g₇ hv => ?_
      refine L.bind ((L.asks n _).call (hF.mono g₇.le) hv) fun K₈ T T' _ hT => ?_
      exact L.pure ⟨.transport .indEqual target (hm.later g₅) hb, hT⟩

end Inductions

theorem tracks_trans {a a' b b' : Expr} {left right : Judgments m}
    {left' right' : Nat → Judgments ByName} (same : L.strict → Expr.trans a b = .trans a' b')
    (ha : L.Judges n c₁ S left left') (hb : L.Judges n c₂ S right right') :
    L.Judges n (fun b => c₁ (c₂ b)) S (trans n a b left right) (fun i => trans i a' b' (left' i) (right' i)) := by
  refine tracks_ofSynthesis same fun me ren => ?_
  refine L.bind (tracks_equality _ ha me ren) fun K₁ a a' g₁ ha => ?_
  have me₁ := me.grows g₁
  refine L.bind (tracks_equality _ hb me₁ ren) fun K₂ b b' g₂ hb => ?_
  have me₂ := me₁.grows g₂
  have hT := ha.2.1.mono g₂.le
  refine L.bind (Tracking.requireSameType me₂.toFrame hT hb.2.1) fun K₃ _ _ g₃ _ => ?_
  have me₃ := me₂.grows g₃
  refine L.bind (Tracking.requireSame me₃.toFrame (hT.mono g₃.le)
    (ha.2.2.2.mono (g₂.le.trans g₃.le)) (hb.2.2.1.mono g₃.le)) fun K₄ _ _ g₄ _ => ?_
  have le := g₃.le.trans g₄.le
  exact L.pure ⟨.trans (ha.1.later g₂) hb.1, .equal (hT.mono le)
    (ha.2.2.1.mono (g₂.le.trans le)) (hb.2.2.2.mono le)⟩

/-- The range is read below its variable before anything is done with it. -/
theorem simpleRange_eq {m : Type → Type} [Machine m] [LawfulMonad m] (n : Nat) (Γ : Context)
    (x : Name) (domain : Value) (range : Closure) :
    (simpleRange n Γ x domain range : m Value) =
      freshName Γ x >>= fun y =>
        (range.apply n (.ofVar y domain) >>= readBackType n (Γ.bindFree y domain)) >>= fun core =>
          answered (core.occursFree y) >>= fun dependent =>
            if dependent then readBackType n Γ (.pi x domain range) >>= fun t =>
              reject (.dependentFunction t)
            else valueOf n Γ core := by
  simp only [simpleRange, bind_assoc]

theorem tracks_simpleRange [LawfulMonad m] {K : Correspondence} {V : Pairing} {Γ Γ' : Context}
    (me : L.Meets n (b + 2) K V Γ Γ') {x x' : Name} (hx : K.binders x x') {D D' : Value} (hD : Both K D D')
    {R R' : Closure} (hR : Matches K (.closure R) (.closure R')) :
    L.rel n (b + 2) b K Both (simpleRange n Γ x D R) (fun i => simpleRange i Γ' x' D' R') := by
  simp only [simpleRange_eq]
  refine L.bind (me.toFrame.freshName (by omega) hx) fun K₁ y y' g₁ hy => L.lower fun K₂ g₂ => ?_
  have me₁ := me.grows g₁
  have me₂ := me₁.grows g₂
  have le₂ := g₁.le.trans g₂.le
  have reading : L.rel n (b + 1) (b + 1) K₂
      (L.Written (b + 1) (V.under y y') (Γ.bindFree y D) (Γ'.bindFree y' D'))
      (R.apply n (.ofVar y D) >>= readBackType n (Γ.bindFree y D))
      (fun i => R'.apply i (.ofVar y' D') >>= readBackType i (Γ'.bindFree y' D')) := by
    have below := le₂.trans (K₂.le_bind y y')
    refine L.scope hy.same (L.bind (L.ask (.apply (hR.mono below)
      (Both.ofVar (hD.mono le₂) y y'))) fun K₃ B B' g₃ hB => ?_)
    exact Tracking.readBackType (((me₁.toFrame.deeper g₂).bindFree hy.toChosen D D').grows g₃) hB
  refine L.bind reading fun K₃ core core' g₃ hcore => ?_
  -- Binders below have other names, and the variable of one side is that of the other.
  have away : ∀ z z', L.Picked (b + 1) (Γ.bindFree y D).names (Γ'.bindFree y' D').names z z' →
      z ≠ y ∧ z' ≠ y' := fun z z' hz =>
    ⟨fun heq => hz.left (heq ▸ .head _), fun heq => hz.right (heq ▸ .head _)⟩
  have single : ∀ z z', V.under y y' z z' → (z = y ↔ z' = y') := by
    rintro z z' (⟨rfl, rfl⟩ | ⟨hz, hz', -⟩)
    · exact iff_of_true rfl rfl
    · exact iff_of_false hz hz'
  rw [← hcore.occursFree away single]
  have answer : L.rel n (b + 1) (b + 1) K₃ (fun _ c c' => c = c' ∧ core.occursFree y = some c)
      (answered (core.occursFree y)) (fun _ => answered (core.occursFree y)) := by
    cases core.occursFree y with
    | none => exact L.defect _
    | some c => exact L.pure ⟨rfl, rfl⟩
  refine L.bind answer fun K₄ c c' g₄ hc => L.lower fun K₅ g₅ => ?_
  obtain ⟨rfl, found⟩ := hc
  have me₅ := ((me₂.grows g₃).grows g₄).grows g₅
  have le := le₂.trans (g₃.le.trans (g₄.le.trans g₅.le))
  cases c with
  | true =>
      exact Tracking.rejectType me₅.toFrame _
        (.quant .pi (le.binders _ _ hx) (hD.mono le) (hR.mono le)) _ _ fun _ _ => rfl
  | false =>
      refine me₅.valueOf (hcore.of_bindFree.without found ?_)
      rintro z z' (⟨rfl, -⟩ | ⟨-, -, hz⟩) hne
      · exact (hne rfl).elim
      · exact hz

theorem tracks_cong [LawfulMonad m] {t t' f f' : Expr} {subject fn : Judgments m}
    {subject' fn' : Nat → Judgments ByName} (same : L.strict → Expr.cong t f = .cong t' f')
    (ht : L.Judges n c₁ S subject subject') (hf : L.Judges n c₂ S fn fn') :
    L.Judges n (fun b => c₁ (c₂ (b + 3))) S (cong n t f subject fn) (fun i => cong i t' f' (subject' i) (fn' i)) := by
  refine tracks_ofSynthesis same fun {b K V Γ Γ' r r'} me ren => ?_
  refine L.bind (tracks_equality _ ht me ren) fun K₁ a a' g₁ ha => ?_
  have me₁ := me.grows g₁
  refine L.bind (hf.synth me₁ ren) fun K₂ p q g₂ hpq => ?_
  refine L.bind (L.ask (.force hpq.2)) fun K₃ w w' g₃ hw => ?_
  have me₃ := (me₁.grows g₂).grows g₃
  have other := Tracking.rejectType (j := b) me₃.toFrame (L.Found b V Γ Γ') hw (.wrongTarget .cong .pi)
    (.wrongTarget .cong .pi) fun _ _ => rfl
  cases hw with
  | quant q hx hD hR =>
      cases q with
      | sigma => exact other
      | pi =>
          have le₃ := g₂.le.trans g₃.le
          refine L.bind (Tracking.requireSameType me₃.toFrame hD (ha.2.1.mono le₃))
            fun K₄ _ _ g₄ _ => ?_
          have me₄ := me₃.grows g₄
          refine L.bind (tracks_simpleRange me₄ (g₄.le.binders _ _ hx) (hD.mono g₄.le)
            (hR.mono g₄.le)) fun K₅ B B' g₅ hB => ?_
          have me₅ := me₄.grows g₅
          have g := g₃.trans (g₄.trans g₅)
          refine L.bind (me₅.valueOf (hpq.1.later g)) fun K₆ v v' g₆ hv => ?_
          have le₆ := le₃.trans (g₄.le.trans (g₅.le.trans g₆.le))
          refine L.bind ((L.asks n _).call hv (ha.2.2.1.mono le₆)) fun K₇ s s' g₇ hs => ?_
          refine L.bind ((L.asks n _).call (hv.mono g₇.le) (ha.2.2.2.mono (le₆.trans g₇.le)))
            fun K₈ e e' g₈ he => ?_
          have le := (g₄.le.trans (g₅.le.trans g₆.le)).trans (g₇.le.trans g₈.le)
          have me₈ := ((me₅.grows g₆).grows g₇).grows g₈
          refine L.bind (Tracking.readBackType me₈.toFrame (.quant .pi (le.binders _ _ hx)
            (hD.mono le) (hR.mono le))) fun K₉ T T' g₉ hT => L.lower fun _ g₁₀ => ?_
          have last := g₉.le.trans g₁₀.le
          have le₉ := g₇.le.trans (g₈.le.trans last)
          have subject := (ha.1.later (g₂.trans g)).later g₁₀
          exact L.pure ⟨.cong subject (Tracking.Written.annotate hT ((hpq.1.later g).later g₁₀)),
            .equal (hB.mono (g₆.le.trans le₉)) (hs.mono (g₈.le.trans last)) (he.mono last)⟩
  | _ => exact other

end Check

/-- The level at which an expression is checked, if the level afterwards is `b`. It goes down below each binder,
and where a type that was read back is written into the elaborated expression. -/
def Expr.cost : Expr → Nat → Nat
  | .var _ | .quote _ | .const _ | .todo | .malformed _ => id
  | .unary _ e | .proj _ e => e.cost
  | .lam _ e => fun b => e.cost b + 1
  | .quant _ _ d r => fun b => d.cost (r.cost b + 1)
  | .binary _ e f | .the e f | .app e f | .indAbsurd e f | .trans e f => fun b => e.cost (f.cost b)
  | .cong e f => fun b => e.cost (f.cost (b + 3))
  | .equal t a c => fun b => t.cost (a.cost (c.cost b))
  | .fold _ t e s => fun b => t.cost (e.cost (s.cost (b + 1)))
  | .transport _ t o e => fun b => t.cost (o.cost (e.cost b))
  | .induct _ t o e s => fun b => t.cost (o.cost (e.cost (s.cost b)))
  | .indVec k t o e s => fun b => k.cost (t.cost (o.cost (e.cost (s.cost b))))

namespace Tracking

variable {m : Type → Type} [Machine m] {L : Tracking m} {S : Pairing}

/-- The source names that correspond are equal if the sides may not differ. -/
def Sourced (L : Tracking m) (S : Pairing) : Prop :=
  L.strict → ∀ x x', S x x' → x = x'

theorem Source.eq {e e' : Expr} (h : L.Source S e e') (hS : L.Sourced S) (hs : L.strict) : e = e' :=
  Resembles.eq h id (fun _ _ hx => hx.1 hs) (hS hs)

theorem Sourced.under (hS : L.Sourced S) {x x' : Name} (hx : L.Bound x x') :
    L.Sourced (S.under x x') := by
  rintro hs z z' (⟨rfl, rfl⟩ | ⟨-, -, hz⟩)
  · exact hx.1 hs
  · exact hS hs z z' hz

/-- Checking tracks checking, for source expressions that differ at most in names. -/
theorem judge [LawfulMonad m] (n : Nat) {e e' : Expr} (h : L.Source S e e') (hS : L.Sourced S) :
    L.Judges n e.cost S (TypeKernel.judge n e) (fun i => TypeKernel.judge i e') := by
  induction h with
  | foldAnnotated ha | indAbsurdAnnotated ha | congAnnotated ha => exact ha.elim
  | var hx => exact Check.tracks_var hx fun hs => hS hs _ _ hx
  | quote a => exact Check.tracks_quote a
  | const c =>
      cases c with
      | univ => exact Check.tracks_univ
      | nat | atom | trivial | absurd =>
          exact Check.tracks_ofSynthesis (fun _ => rfl) (Check.tracks_constRule _ fun _ => .const _)
      | zero | sole =>
          exact Check.tracks_ofSynthesis (fun _ => rfl) (Check.tracks_constRule _ fun _ => .const _)
      | nil => exact Check.tracks_nil
      | vecNil => exact Check.tracks_vecNil
  | unary u h ih =>
      have same := Source.eq (.unary u h) hS
      cases u with
      | list => exact Check.tracks_list same (ih hS)
      | add1 => exact Check.tracks_add1 same (ih hS)
      | left => exact Check.tracks_left same (ih hS)
      | right => exact Check.tracks_right same (ih hS)
      | same => exact Check.tracks_same same (ih hS)
  | binary b h₁ h₂ ih₁ ih₂ =>
      have same := Source.eq (.binary b h₁ h₂) hS
      cases b with
      | vec => exact (Check.tracks_vec same (ih₁ hS) (ih₂ hS) :)
      | either => exact (Check.tracks_either same (ih₁ hS) (ih₂ hS) :)
      | cons => exact (Check.tracks_cons same (ih₁ hS) (ih₂ hS) :)
      | listCons => exact (Check.tracks_listCons same (ih₁ hS) (ih₂ hS) :)
      | vecCons => exact (Check.tracks_vecCons same (ih₁ hS) (ih₂ hS) :)
  | equal ht hl hr iht ihl ihr =>
      exact Check.tracks_equal (Source.eq (.equal ht hl hr) hS) (iht hS) (ihl hS) (ihr hS)
  | quant q hx hd hr ihd ihr =>
      exact Check.tracks_quant q hx (Source.eq (.quant q hx hd hr) hS) (ihd hS) (ihr (hS.under hx))
  | lam hx hb ih => exact Check.tracks_lam hx (Source.eq (.lam hx hb) hS) (ih (hS.under hx))
  | the ht he iht ihe => exact (Check.tracks_the (Source.eq (.the ht he) hS) (iht hS) (ihe hS) :)
  | app hf ha ihf iha => exact (Check.tracks_app (Source.eq (.app hf ha) hS) (ihf hS) (iha hS) :)
  | proj p ht ih => exact Check.tracks_proj p (Source.eq (.proj p ht) hS) (ih hS)
  | fold f ht hb hs iht ihb ihs =>
      exact Check.tracks_fold f (Source.eq (.fold f ht hb hs) hS) (iht hS) (ihb hS) (ihs hS)
  | induct i ht hm hb hs iht ihm ihb ihs =>
      exact Check.tracks_induct i (Source.eq (.induct i ht hm hb hs) hS) (iht hS) (ihm hS) (ihb hS)
        (ihs hS)
  | transport k ht hm hb iht ihm ihb =>
      exact Check.tracks_transport k (Source.eq (.transport k ht hm hb) hS) (iht hS) (ihm hS) (ihb hS)
  | indAbsurd ht hm iht ihm =>
      exact (Check.tracks_indAbsurd (Source.eq (.indAbsurd ht hm) hS) (iht hS) (ihm hS) :)
  | indVec hn ht hm hb hs ihn iht ihm ihb ihs =>
      exact Check.tracks_indVec (Source.eq (.indVec hn ht hm hb hs) hS) (ihn hS) (iht hS) (ihm hS)
        (ihb hS) (ihs hS)
  | trans hl hr ihl ihr => exact (Check.tracks_trans (Source.eq (.trans hl hr) hS) (ihl hS) (ihr hS) :)
  | cong ht hf iht ihf => exact Check.tracks_cong (Source.eq (.cong ht hf) hS) (iht hS) (ihf hS)
  | todo => exact Check.tracks_todo
  | malformed item => cases item <;> exact Check.tracks_ofDefect _ rfl

end Tracking

end TypeKernel
