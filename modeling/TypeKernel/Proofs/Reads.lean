/-
# TypeKernel.Proofs.Reads — what a value reads back as

`Reads σ X task e` says that `task` reads back as `e` when the names `X` are in use. It follows the rules
of read-back with two things left open, which make a `Style`: how the names of binders are chosen, and
whether an element of `Absurd` is given as it is or as one fixed variable, there being no difference
between them.

Read-back itself is one style (`Style.ofHints`); it is compared with this relation in both directions.
Other styles serve proofs: one that ignores hints gives values that are the same the very same
normal form.
-/
import TypeKernel.Proofs.Answer
import TypeKernel.Proofs.Fresh
import TypeKernel.Proofs.Returns
import TypeKernel.ReadBack

namespace TypeKernel

set_option autoImplicit false

open Machine

/-- `w` is the canonical or neutral form of `v`. -/
abbrev Forces (v w : Value) : Prop := answer (.force v) = .ok w

/-- `w` is the value of a closure at `v`. -/
abbrev Applies (c : Closure) (v w : Value) : Prop := answer (.apply c v) = .ok w

/-- `w` is the value of a function at `v`. -/
abbrev Calls (f v w : Value) : Prop := Eval.call answer f v = .ok w

/-- How binders are named and elements of `Absurd` are given. -/
structure Style where
  /-- The name for a binder, from the names in use and a hint. -/
  pick : List Name → Name → Name
  /-- The variable that stands for every element of `Absurd`. -/
  impossible : Option Name

/-- What is given for an element of `Absurd` that reads back as `n`. -/
def Style.element (σ : Style) (n : Expr) : Expr :=
  match σ.impossible with
  | none => n
  | some b => .var b

/-- An annotated expression. -/
def Style.annotate (σ : Style) (t e : Expr) : Expr :=
  .the t (if t = .absurd then σ.element e else e)

/-- Whether the elements of a canonical type are compared by their own form. -/
def Value.byForm : Value → Bool
  | .univ => false
  | .pi _ _ _ => false
  | .sigma _ _ _ => false
  | .trivial => false
  | .absurd => false
  | _ => true

/-- Forms without parts that are types. -/
def Const.isType : Const → Bool
  | .univ | .nat | .atom | .trivial | .absurd => true
  | _ => false

/-- What can be read back, at each stage of looking at it. -/
inductive Task where
  /-- A value at a type. -/
  | value (type v : Value)
  /-- A value at a canonical type. -/
  | element (type v : Value)
  /-- A canonical value at a canonical type. -/
  | canonical (type v : Value)
  /-- A type. -/
  | type (v : Value)
  /-- A canonical type. -/
  | former (v : Value)
  /-- A neutral form. -/
  | neutral (stuck : Neutral)

/-- What a task reads back as. -/
inductive Reads (σ : Style) : List Name → Task → Expr → Prop
  | value {X A A' v n} (hA : Forces A A') (h : Reads σ X (.element A' v) n) :
      Reads σ X (.value A v) n
  | univ {X v n} (h : Reads σ X (.type v) n) : Reads σ X (.element .univ v) n
  | lam {X x d r v f y B b n} (hf : Forces v f) (hy : y = σ.pick X (ReadBack.hint x f))
      (hB : Applies r (.ofVar y d) B) (hb : Calls f (.ofVar y d) b)
      (h : Reads σ (y :: X) (.value B b) n) : Reads σ X (.element (.pi x d r) v) (.lam y n)
  | cons {X x d r v a b B l n} (ha : Eval.car answer v = .ok a) (hb : Eval.cdr answer v = .ok b)
      (hl : Reads σ X (.value d a) l) (hB : Applies r a B) (hn : Reads σ X (.value B b) n) :
      Reads σ X (.element (.sigma x d r) v) (.cons l n)
  | sole {X v} : Reads σ X (.element .trivial v) .sole
  | absurd {X v T e n} (hv : Forces v (.neutral T e)) (h : Reads σ X (.neutral e) n) :
      Reads σ X (.element .absurd v) (.the .absurd (σ.element n))
  | byForm {X A v v' n} (hA : A.byForm = true) (hv : Forces v v')
      (h : Reads σ X (.canonical A v') n) : Reads σ X (.element A v) n
  | stuck {X A T e n} (h : Reads σ X (.neutral e) n) : Reads σ X (.canonical A (.neutral T e)) n
  | zero {X} : Reads σ X (.canonical .nat .zero) .zero
  | add1 {X v n} (h : Reads σ X (.value .nat v) n) :
      Reads σ X (.canonical .nat (.add1 v)) (.add1 n)
  | quote {X} (a : String) : Reads σ X (.canonical .atom (.quote a)) (.quote a)
  | nil {X E} : Reads σ X (.canonical (.list E) .nil) .nil
  | listCons {X E v vs n ns} (h : Reads σ X (.value E v) n)
      (hs : Reads σ X (.value (.list E) vs) ns) :
      Reads σ X (.canonical (.list E) (.listCons v vs)) (.listCons n ns)
  | vecNil {X E k} : Reads σ X (.canonical (.vec E k) .vecNil) .vecNil
  | vecCons {X E k k' v vs n ns} (hk : Forces k (.add1 k')) (h : Reads σ X (.value E v) n)
      (hs : Reads σ X (.value (.vec E k') vs) ns) :
      Reads σ X (.canonical (.vec E k) (.vecCons v vs)) (.vecCons n ns)
  | left {X l r v n} (h : Reads σ X (.value l v) n) :
      Reads σ X (.canonical (.either l r) (.left v)) (.left n)
  | right {X l r v n} (h : Reads σ X (.value r v) n) :
      Reads σ X (.canonical (.either l r) (.right v)) (.right n)
  | same {X T l r v n} (h : Reads σ X (.value T v) n) :
      Reads σ X (.canonical (.equal T l r) (.same v)) (.same n)
  | type {X A A' n} (hA : Forces A A') (h : Reads σ X (.former A') n) : Reads σ X (.type A) n
  | const {X} {c : Const} (hc : c.isType = true) : Reads σ X (.former (.const c)) (.const c)
  | quant {X q x d r y B nd nr} (hy : y = σ.pick X x) (hd : Reads σ X (.type d) nd)
      (hB : Applies r (.ofVar y d) B) (hr : Reads σ (y :: X) (.type B) nr) :
      Reads σ X (.former (.quant q x d r)) (.quant q y nd nr)
  | list {X E n} (h : Reads σ X (.type E) n) : Reads σ X (.former (.list E)) (.list n)
  | vec {X E k n nk} (h : Reads σ X (.type E) n) (hk : Reads σ X (.value .nat k) nk) :
      Reads σ X (.former (.vec E k)) (.vec n nk)
  | either {X l r nl nr} (hl : Reads σ X (.type l) nl) (hr : Reads σ X (.type r) nr) :
      Reads σ X (.former (.either l r)) (.either nl nr)
  | equal {X T l r nt nl nr} (ht : Reads σ X (.type T) nt) (hl : Reads σ X (.value T l) nl)
      (hr : Reads σ X (.value T r) nr) : Reads σ X (.former (.equal T l r)) (.equal nt nl nr)
  | stuckType {X T e n} (h : Reads σ X (.neutral e) n) : Reads σ X (.former (.neutral T e)) n
  | var {X} (x : Name) : Reads σ X (.neutral (.var x)) (.var x)
  | app {X f d a nf na} (hf : Reads σ X (.neutral f) nf) (ha : Reads σ X (.value d a) na) :
      Reads σ X (.neutral (.app f (.mk d a))) (.app nf na)
  | proj {X t nt} (p : Projection) (ht : Reads σ X (.neutral t) nt) :
      Reads σ X (.neutral (.proj p t)) (.proj p nt)
  | fold {X t B b S s nt nB nb ns} (f : Fold) (ht : Reads σ X (.neutral t) nt)
      (hB : Reads σ X (.type B) nB) (hb : Reads σ X (.value B b) nb)
      (hs : Reads σ X (.value S s) ns) :
      Reads σ X (.neutral (.fold f t (.mk B b) (.mk S s))) (.fold f nt (σ.annotate nB nb) ns)
  | induct {X t M m B b S s nt nm nb ns} (i : Induction) (ht : Reads σ X (.neutral t) nt)
      (hm : Reads σ X (.value M m) nm) (hb : Reads σ X (.value B b) nb)
      (hs : Reads σ X (.value S s) ns) :
      Reads σ X (.neutral (.induct i t (.mk M m) (.mk B b) (.mk S s))) (.induct i nt nm nb ns)
  | transport {X t M m B b nt nm nb} (k : Transport) (ht : Reads σ X (.neutral t) nt)
      (hm : Reads σ X (.value M m) nm) (hb : Reads σ X (.value B b) nb) :
      Reads σ X (.neutral (.transport k t (.mk M m) (.mk B b))) (.transport k nt nm nb)
  | indAbsurd {X t M m nt nm} (ht : Reads σ X (.neutral t) nt) (hm : Reads σ X (.type m) nm) :
      Reads σ X (.neutral (.indAbsurd t (.mk M m))) (.indAbsurd (.the .absurd (σ.element nt)) nm)
  | indVec {X N k t M m B b S s nk nt nm nb ns} (hk : Reads σ X (.value N k) nk)
      (ht : Reads σ X (.neutral t) nt) (hm : Reads σ X (.value M m) nm)
      (hb : Reads σ X (.value B b) nb) (hs : Reads σ X (.value S s) ns) :
      Reads σ X (.neutral (.indVec (.mk N k) t (.mk M m) (.mk B b) (.mk S s)))
        (.indVec nk nt nm nb ns)
  | trans {X L l R r nl nr} (hl : Reads σ X (.value L l) nl) (hr : Reads σ X (.value R r) nr) :
      Reads σ X (.neutral (.trans (.mk L l) (.mk R r))) (.trans nl nr)
  | cong {X t F f nt nF nf} (ht : Reads σ X (.neutral t) nt) (hF : Reads σ X (.type F) nF)
      (hf : Reads σ X (.value F f) nf) :
      Reads σ X (.neutral (.cong t (.mk F f))) (.cong nt (σ.annotate nF nf))

/-- What a task that reads back as `n` has read, by its form. -/
def Task.Inversion (σ : Style) (X : List Name) : Task → Expr → Prop
  | .value A v, n => ∃ A', Forces A A' ∧ Reads σ X (.element A' v) n
  | .element (.const .univ) v, n => Reads σ X (.type v) n
  | .element (.quant .pi x d r) v, n => ∃ f y B b m, n = .lam y m ∧ Forces v f ∧
      y = σ.pick X (ReadBack.hint x f) ∧ Applies r (.ofVar y d) B ∧ Calls f (.ofVar y d) b ∧
      Reads σ (y :: X) (.value B b) m
  | .element (.quant .sigma _ d r) v, n => ∃ a b B l m, n = .cons l m ∧ Eval.car answer v = .ok a ∧
      Eval.cdr answer v = .ok b ∧ Reads σ X (.value d a) l ∧ Applies r a B ∧ Reads σ X (.value B b) m
  | .element (.const .trivial) _, n => n = .sole
  | .element (.const .absurd) v, n => ∃ T e m, n = .the .absurd (σ.element m) ∧
      Forces v (.neutral T e) ∧ Reads σ X (.neutral e) m
  | .element A v, n => ∃ v', Forces v v' ∧ Reads σ X (.canonical A v') n
  | .canonical _ (.neutral _ e), n => Reads σ X (.neutral e) n
  | .canonical _ (.const c), n => n = .const c
  | .canonical _ (.quote a), n => n = .quote a
  | .canonical _ (.unary .add1 v), n => ∃ m, n = .add1 m ∧ Reads σ X (.value .nat v) m
  | .canonical (.unary .list E) (.binary .listCons v vs), n => ∃ m ms, n = .listCons m ms ∧
      Reads σ X (.value E v) m ∧ Reads σ X (.value (.list E) vs) ms
  | .canonical (.binary .vec E k) (.binary .vecCons v vs), n => ∃ k' m ms, n = .vecCons m ms ∧
      Forces k (.add1 k') ∧ Reads σ X (.value E v) m ∧ Reads σ X (.value (.vec E k') vs) ms
  | .canonical (.binary .either l _) (.unary .left v), n => ∃ m, n = .left m ∧ Reads σ X (.value l v) m
  | .canonical (.binary .either _ r) (.unary .right v), n => ∃ m, n = .right m ∧ Reads σ X (.value r v) m
  | .canonical (.equal T _ _) (.unary .same v), n => ∃ m, n = .same m ∧ Reads σ X (.value T v) m
  | .canonical _ _, _ => False
  | .type A, n => ∃ A', Forces A A' ∧ Reads σ X (.former A') n
  | .former (.const c), n => n = .const c
  | .former (.quant q x d r), n => ∃ y B nd nr, n = .quant q y nd nr ∧ y = σ.pick X x ∧
      Reads σ X (.type d) nd ∧ Applies r (.ofVar y d) B ∧ Reads σ (y :: X) (.type B) nr
  | .former (.unary .list E), n => ∃ m, n = .list m ∧ Reads σ X (.type E) m
  | .former (.binary .vec E k), n => ∃ m mk, n = .vec m mk ∧ Reads σ X (.type E) m ∧
      Reads σ X (.value .nat k) mk
  | .former (.binary .either l r), n => ∃ nl nr, n = .either nl nr ∧ Reads σ X (.type l) nl ∧
      Reads σ X (.type r) nr
  | .former (.equal T l r), n => ∃ nt nl nr, n = .equal nt nl nr ∧ Reads σ X (.type T) nt ∧
      Reads σ X (.value T l) nl ∧ Reads σ X (.value T r) nr
  | .former (.neutral _ e), n => Reads σ X (.neutral e) n
  | .former _, _ => False
  | .neutral (.var x), n => n = .var x
  | .neutral (.app f (.mk d a)), n => ∃ nf na, n = .app nf na ∧ Reads σ X (.neutral f) nf ∧
      Reads σ X (.value d a) na
  | .neutral (.proj p t), n => ∃ nt, n = .proj p nt ∧ Reads σ X (.neutral t) nt
  | .neutral (.fold f t (.mk B b) (.mk S s)), n => ∃ nt nB nb ns, n = .fold f nt (σ.annotate nB nb) ns ∧
      Reads σ X (.neutral t) nt ∧ Reads σ X (.type B) nB ∧ Reads σ X (.value B b) nb ∧
      Reads σ X (.value S s) ns
  | .neutral (.induct i t (.mk M m) (.mk B b) (.mk S s)), n => ∃ nt nm nb ns, n = .induct i nt nm nb ns ∧
      Reads σ X (.neutral t) nt ∧ Reads σ X (.value M m) nm ∧ Reads σ X (.value B b) nb ∧
      Reads σ X (.value S s) ns
  | .neutral (.transport k t (.mk M m) (.mk B b)), n => ∃ nt nm nb, n = .transport k nt nm nb ∧
      Reads σ X (.neutral t) nt ∧ Reads σ X (.value M m) nm ∧ Reads σ X (.value B b) nb
  | .neutral (.indAbsurd t (.mk _ m)), n => ∃ nt nm, n = .indAbsurd (.the .absurd (σ.element nt)) nm ∧
      Reads σ X (.neutral t) nt ∧ Reads σ X (.type m) nm
  | .neutral (.indVec (.mk N k) t (.mk M m) (.mk B b) (.mk S s)), n => ∃ nk nt nm nb ns,
      n = .indVec nk nt nm nb ns ∧ Reads σ X (.value N k) nk ∧ Reads σ X (.neutral t) nt ∧
      Reads σ X (.value M m) nm ∧ Reads σ X (.value B b) nb ∧ Reads σ X (.value S s) ns
  | .neutral (.trans (.mk L l) (.mk R r)), n => ∃ nl nr, n = .trans nl nr ∧ Reads σ X (.value L l) nl ∧
      Reads σ X (.value R r) nr
  | .neutral (.cong t (.mk F f)), n => ∃ nt nF nf, n = .cong nt (σ.annotate nF nf) ∧
      Reads σ X (.neutral t) nt ∧ Reads σ X (.type F) nF ∧ Reads σ X (.value F f) nf

theorem Task.Inversion.byForm {σ : Style} {X : List Name} {A v v' : Value} {n : Expr} (hA : A.byForm = true)
    (hv : Forces v v') (h : Reads σ X (.canonical A v') n) : Task.Inversion σ X (.element A v) n := by
  cases A with
  | const c => cases c <;> first | exact ⟨_, hv, h⟩ | cases hA
  | quant q => cases q <;> cases hA
  | _ => exact ⟨_, hv, h⟩

theorem Reads.inversion {σ : Style} {X : List Name} {t : Task} {n : Expr} (h : Reads σ X t n) :
    t.Inversion σ X n := by
  cases h with
  | value hA h => exact ⟨_, hA, h⟩
  | univ h => exact h
  | lam hf hy hB hb h => exact ⟨_, _, _, _, _, rfl, hf, hy, hB, hb, h⟩
  | cons ha hb hl hB hn => exact ⟨_, _, _, _, _, rfl, ha, hb, hl, hB, hn⟩
  | sole => rfl
  | absurd hv h => exact ⟨_, _, _, rfl, hv, h⟩
  | byForm hA hv h => exact .byForm hA hv h
  | stuck h => exact h
  | zero | quote | nil | vecNil => rfl
  | add1 h | left h | right h | same h => exact ⟨_, rfl, h⟩
  | listCons h hs => exact ⟨_, _, rfl, h, hs⟩
  | vecCons hk h hs => exact ⟨_, _, _, rfl, hk, h, hs⟩
  | type hA h => exact ⟨_, hA, h⟩
  | const => rfl
  | quant hy hd hB hr => exact ⟨_, _, _, _, rfl, hy, hd, hB, hr⟩
  | list h => exact ⟨_, rfl, h⟩
  | vec h h' | either h h' => exact ⟨_, _, rfl, h, h'⟩
  | equal ht hl hr => exact ⟨_, _, _, rfl, ht, hl, hr⟩
  | stuckType h => exact h
  | var => rfl
  | app hf ha => exact ⟨_, _, rfl, hf, ha⟩
  | proj _ ht => exact ⟨_, rfl, ht⟩
  | fold _ ht hB hb hs => exact ⟨_, _, _, _, rfl, ht, hB, hb, hs⟩
  | induct _ ht hm hb hs => exact ⟨_, _, _, _, rfl, ht, hm, hb, hs⟩
  | transport _ ht hm hb => exact ⟨_, _, _, rfl, ht, hm, hb⟩
  | indAbsurd ht hm => exact ⟨_, _, rfl, ht, hm⟩
  | indVec hk ht hm hb hs => exact ⟨_, _, _, _, _, rfl, hk, ht, hm, hb, hs⟩
  | trans hl hr => exact ⟨_, _, rfl, hl, hr⟩
  | cong ht hF hf => exact ⟨_, _, _, rfl, ht, hF, hf⟩

theorem Reads.deterministic {σ : Style} {X : List Name} {t : Task} {n n' : Expr}
    (h : Reads σ X t n) (h' : Reads σ X t n') : n = n' := by
  induction h generalizing n' with
  | value hA _ ih =>
      obtain ⟨_, hA', h'⟩ := h'.inversion
      cases hA.symm.trans hA'
      exact ih h'
  | univ _ ih | stuck _ ih | stuckType _ ih => exact ih h'.inversion
  | lam hf hy hB hb _ ih =>
      obtain ⟨_, _, _, _, _, rfl, hf', hy', hB', hb', h'⟩ := h'.inversion
      cases hf.symm.trans hf'
      cases hy.trans hy'.symm
      cases hB.symm.trans hB'
      cases hb.symm.trans hb'
      rw [ih h']
  | cons ha hb _ hB _ ihl ihn =>
      obtain ⟨_, _, _, _, _, rfl, ha', hb', hl', hB', hn'⟩ := h'.inversion
      cases ha.symm.trans ha'
      cases hb.symm.trans hb'
      cases hB.symm.trans hB'
      rw [ihl hl', ihn hn']
  | sole | zero | quote | nil | vecNil | const | var => exact h'.inversion.symm
  | absurd hv _ ih =>
      obtain ⟨_, _, _, rfl, hv', h'⟩ := h'.inversion
      cases hv.symm.trans hv'
      rw [ih h']
  | byForm hA hv _ ih =>
      cases h' with
      | byForm _ hv' h' =>
          cases hv.symm.trans hv'
          exact ih h'
      | _ => cases hA
  | add1 _ ih | left _ ih | right _ ih | same _ ih | list _ ih =>
      obtain ⟨_, rfl, hn'⟩ := h'.inversion
      rw [ih hn']
  | listCons _ _ ih ihs | vec _ _ ih ihs | either _ _ ih ihs =>
      obtain ⟨_, _, rfl, h', hs'⟩ := h'.inversion
      rw [ih h', ihs hs']
  | vecCons hk _ _ ih ihs =>
      obtain ⟨_, _, _, rfl, hk', h', hs'⟩ := h'.inversion
      cases hk.symm.trans hk'
      rw [ih h', ihs hs']
  | type hA _ ih =>
      obtain ⟨_, hA', h'⟩ := h'.inversion
      cases hA.symm.trans hA'
      exact ih h'
  | quant hy _ hB _ ihd ihr =>
      obtain ⟨_, _, _, _, rfl, hy', hd', hB', hr'⟩ := h'.inversion
      cases hy.trans hy'.symm
      cases hB.symm.trans hB'
      rw [ihd hd', ihr hr']
  | equal _ _ _ iht ihl ihr =>
      obtain ⟨_, _, _, rfl, ht', hl', hr'⟩ := h'.inversion
      rw [iht ht', ihl hl', ihr hr']
  | app _ _ ihf iha =>
      obtain ⟨_, _, rfl, hf', ha'⟩ := h'.inversion
      rw [ihf hf', iha ha']
  | proj p _ ih =>
      obtain ⟨_, rfl, hn'⟩ := h'.inversion
      rw [ih hn']
  | fold f _ _ _ _ iht ihB ihb ihs =>
      obtain ⟨_, _, _, _, rfl, ht', hB', hb', hs'⟩ := h'.inversion
      rw [iht ht', ihB hB', ihb hb', ihs hs']
  | induct i _ _ _ _ iht ihm ihb ihs =>
      obtain ⟨_, _, _, _, rfl, ht', hm', hb', hs'⟩ := h'.inversion
      rw [iht ht', ihm hm', ihb hb', ihs hs']
  | transport k _ _ _ iht ihm ihb =>
      obtain ⟨_, _, _, rfl, ht', hm', hb'⟩ := h'.inversion
      rw [iht ht', ihm hm', ihb hb']
  | indAbsurd _ _ iht ihm =>
      obtain ⟨_, _, rfl, ht', hm'⟩ := h'.inversion
      rw [iht ht', ihm hm']
  | indVec _ _ _ _ _ ihk iht ihm ihb ihs =>
      obtain ⟨_, _, _, _, _, rfl, hk', ht', hm', hb', hs'⟩ := h'.inversion
      rw [ihk hk', iht ht', ihm hm', ihb hb', ihs hs']
  | trans _ _ ihl ihr =>
      obtain ⟨_, _, rfl, hl', hr'⟩ := h'.inversion
      rw [ihl hl', ihr hr']
  | cong _ _ _ iht ihF ihf =>
      obtain ⟨_, _, _, rfl, ht', hF', hf'⟩ := h'.inversion
      rw [iht ht', ihF hF', ihf hf']

/-! ## Read-back is a style of reading -/

/-- Names as read-back chooses them. A hint whose subscript is too long has no name after it; what is
given for it here does not matter. -/
def Style.ofHints : Style where
  pick X hint :=
    match freshAmong X hint with
    | .ok y => y
    | .error _ => hint ++ Text.subscriptNumeral (firstUnused X hint X.length 0)
  impossible := none

theorem Style.ofHints_pick_notMem (X : List Name) (hint : Name) :
    Style.ofHints.pick X hint ∉ X := by
  simp only [Style.ofHints]
  cases h : freshAmong X hint with
  | ok y => exact freshAmong_notMem h
  | error e => exact firstUnused_notMem X hint 0

namespace Context

variable {Γ : Context} {x y : Name}

theorem pick_notMem (hy : y = Style.ofHints.pick Γ.names x) : y ∉ Γ.names :=
  hy ▸ Style.ofHints_pick_notMem Γ.names x

theorem pick_of_fresh (hy : Γ.fresh x = .ok y) : y = Style.ofHints.pick Γ.names x := by
  simp only [Context.fresh] at hy
  simp only [Style.ofHints, hy]

/-- A name that is not in use is taken as it is. -/
theorem pick_of_notMem (hy : y ∉ Γ.names) : y = Style.ofHints.pick Γ.names y :=
  pick_of_fresh (fresh_of_notMem hy)

end Context

theorem Style.ofHints_annotate (t e : Expr) : Style.ofHints.annotate t e = .the t e := by
  simp [Style.annotate, Style.element, Style.ofHints]

/-- Names as the hints give them, which is right where no hint is in use. -/
def Style.asHinted : Style where
  pick _ hint := hint
  impossible := none

/-- Every binder satisfies a condition on it and on the names in use around it. -/
def Expr.Binders (ok : List Name → Name → Prop) (X : List Name) : Expr → Prop
  | .var _ | .quote _ | .const _ | .todo | .malformed _ => True
  | .unary _ e => e.Binders ok X
  | .binary _ e₁ e₂ => e₁.Binders ok X ∧ e₂.Binders ok X
  | .equal t l r => t.Binders ok X ∧ l.Binders ok X ∧ r.Binders ok X
  | .quant _ y d r => d.Binders ok X ∧ ok X y ∧ r.Binders ok (y :: X)
  | .lam y b => ok X y ∧ b.Binders ok (y :: X)
  | .the t e => t.Binders ok X ∧ e.Binders ok X
  | .app f a => f.Binders ok X ∧ a.Binders ok X
  | .proj _ t => t.Binders ok X
  | .fold _ t b s => t.Binders ok X ∧ b.Binders ok X ∧ s.Binders ok X
  | .induct _ t m b s => t.Binders ok X ∧ m.Binders ok X ∧ b.Binders ok X ∧ s.Binders ok X
  | .transport _ t m b => t.Binders ok X ∧ m.Binders ok X ∧ b.Binders ok X
  | .indAbsurd t m => t.Binders ok X ∧ m.Binders ok X
  | .indVec k t m b s => k.Binders ok X ∧ t.Binders ok X ∧ m.Binders ok X ∧ b.Binders ok X ∧ s.Binders ok X
  | .trans l r => l.Binders ok X ∧ r.Binders ok X
  | .cong t f => t.Binders ok X ∧ f.Binders ok X

/-- Computations, one for each bound on the steps, that all give `a` if they end. If `E` holds, they may
fail for a name with a subscript that is too long. -/
structure Tends {α : Type} (E : Prop) (F : Nat → ByName α) (a : α) : Prop where
  outcome : ∀ n, F n = .ok a ∨ F n = .error .exhausted ∨
    E ∧ ∃ e, F n = .error (.failed (.defect (.numeral e)))
  ends : ∃ N, ∀ n, N ≤ n → F n ≠ .error .exhausted

namespace Tends

variable {α β : Type} {E : Prop}

theorem pure (a : α) : Tends E (fun _ => .ok a) a :=
  ⟨fun _ => .inl rfl, 0, fun _ _ => nofun⟩

theorem bind {F : Nat → ByName α} {G : Nat → α → ByName β} {a : α} {b : β} (hF : Tends E F a)
    (hG : Tends E (fun n => G n a) b) : Tends E (fun n => F n >>= G n) b := by
  have step : ∀ n, F n = .ok a → (F n >>= G n) = G n a := fun n h => by rw [h]; rfl
  refine ⟨fun n => ?_, ?_⟩
  · rcases hF.outcome n with h | h | ⟨hE, e, h⟩
    · rw [step n h]
      exact hG.outcome n
    · exact .inr (.inl (by rw [h]; rfl))
    · exact .inr (.inr ⟨hE, e, by rw [h]; rfl⟩)
  · obtain ⟨N₁, h₁⟩ := hF.ends
    obtain ⟨N₂, h₂⟩ := hG.ends
    refine ⟨max N₁ N₂, fun n hn => ?_⟩
    rcases hF.outcome n with h | h | ⟨_, e, h⟩
    · rw [step n h]
      exact h₂ n (by omega)
    · exact absurd h (h₁ n (by omega))
    · rw [h]
      nofun

/-- Without failures, the result is given from some number of steps on. -/
theorem settles {F : Nat → ByName α} {a : α} (h : Tends False F a) : ∃ N, ∀ n, N ≤ n → F n = .ok a := by
  obtain ⟨N, hN⟩ := h.ends
  refine ⟨N, fun n hn => ?_⟩
  rcases h.outcome n with ok | exhausted | ⟨never, _⟩
  · exact ok
  · exact (hN n hn exhausted).elim
  · exact never.elim

theorem of_finitary {F : Asking α} (h : Finitary F) {a : α} (ha : F answer = .ok a) :
    Tends E (fun n => F (run n)) a := by
  refine ⟨fun n => ?_, ?_⟩
  · rcases h.mono fun r => run_approx_answer n r with h | h
    · exact .inr (.inl h)
    · exact .inl (by rw [h, ha])
  · obtain ⟨N, hN⟩ := h.finite settled
    refine ⟨N, fun n hn => ?_⟩
    rcases hN n hn with h | h
    · rw [ha] at h
      cases h
    · rw [← h, ha]
      nofun

theorem run {r : Request} {v : Value} (h : answer r = .ok v) : Tends E (fun n => run n r) v :=
  of_finitary (.ask r) h

theorem fresh {Γ : Context} {X : List Name} {hint y : Name} (hX : Γ.names = X)
    (h : freshAmong X hint = .ok y ∨ E ∧ ∃ e, freshAmong X hint = .error e) :
    Tends E (fun _ => freshName Γ hint) y := by
  subst hX
  simp only [freshName, Context.fresh]
  rcases h with h | ⟨hE, e, h⟩
  · rw [h]
    exact .pure y
  · rw [h]
    exact ⟨fun _ => .inr (.inr ⟨hE, e, rfl⟩), 0, fun _ _ => nofun⟩

theorem reading {Γ : Context} {r : Reading} {e : Expr}
    (h : Tends E (fun n => ReadBack.step (TypeKernel.run n) (readings n) Γ r) e) :
    Tends E (fun n => readings n Γ r) e := by
  refine ⟨fun n => ?_, ?_⟩
  · cases n with
    | zero => exact .inr (.inl rfl)
    | succ n => exact h.outcome n
  · obtain ⟨N, hN⟩ := h.ends
    refine ⟨N + 1, fun n hn => ?_⟩
    cases n with
    | zero => omega
    | succ n => exact hN n (by omega)

theorem annotated {Γ : Context} {T v : Value} {t e : Expr}
    (ht : Tends E (fun n => readings n Γ (.type T)) t)
    (he : Tends E (fun n => readings n Γ (.value T v)) e) :
    Tends E (fun n => ReadBack.readAnnotated (readings n) Γ (.mk T v)) (.the t e) :=
  ht.bind (he.bind (.pure _))

end Tends

/-- What read-back does at each stage of a reading. -/
def Task.perform (n : Nat) (Γ : Context) : Task → ByName Expr
  | .value A v => readings n Γ (.value A v)
  | .element A v => ReadBack.readElement (run n) (readings n) Γ v A
  | .canonical _ (.neutral _ stuck) => readings n Γ (.neutral stuck)
  | .canonical A v => ReadBack.readCanonical (run n) (readings n) Γ A v
  | .type v => readings n Γ (.type v)
  | .former v => ReadBack.readFormer (run n) (readings n) Γ v
  | .neutral stuck => readings n Γ (.neutral stuck)

/-- At a type whose elements are compared by their form, the value's form decides. -/
theorem readElement_byForm (n : Nat) (Γ : Context) {A : Value} (hA : A.byForm = true) (v : Value) :
    ReadBack.readElement (run n) (readings n) Γ v A =
      run n (.force v) >>= fun v => (Task.canonical A v).perform n Γ := by
  cases A with
  | const c =>
      cases c with
      | univ | trivial | absurd => cases hA
      | _ => exact bind_congr fun v => by cases v <;> rfl
  | quant q x d r => cases q <;> cases hA
  | _ => exact bind_congr fun v => by cases v <;> rfl

/-- Read-back does what a style does that gives `Absurd` no variable, as far as the names that the style
picks are the fresh ones. -/
theorem Reads.tends {σ : Style} {E : Prop} {ok : List Name → Name → Prop} (hi : σ.impossible = none)
    (fresh : ∀ {X hint}, ok X (σ.pick X hint) → freshAmong X hint = .ok (σ.pick X hint) ∨
      E ∧ ∃ e, freshAmong X hint = .error e)
    {X : List Name} {t : Task} {e : Expr} (h : Reads σ X t e) :
    e.Binders ok X → ∀ {Γ : Context}, Γ.names = X → Tends E (fun n => t.perform n Γ) e := by
  have element : ∀ n, σ.element n = n := fun n => by simp [Style.element, hi]
  have annotate : ∀ t e, σ.annotate t e = .the t e := fun t e => by simp [Style.annotate, element]
  induction h with
  | value hA _ ih => exact fun he _ hΓ => .reading ((Tends.run hA).bind (ih he hΓ))
  | univ _ ih => exact ih
  | lam hf hy hB hb _ ih =>
      intro he Γ hΓ
      subst hy
      exact (Tends.run hf).bind ((Tends.fresh hΓ (fresh he.1)).bind ((Tends.run hB).bind
        ((Tends.of_finitary (Eval.finitary_call _ _) hb).bind
          ((ih he.2 (by simp [hΓ])).bind (.pure _)))))
  | cons ha hb _ hB _ ihl ihn =>
      intro he Γ hΓ
      exact (Tends.of_finitary (Eval.finitary_car _) ha).bind
        ((Tends.of_finitary (Eval.finitary_cdr _) hb).bind
          ((ihl he.1 hΓ).bind ((Tends.run hB).bind ((ihn he.2 hΓ).bind (.pure _)))))
  | sole => exact fun _ _ _ => .pure _
  | absurd hv _ ih =>
      rw [element]
      exact fun he _ hΓ => (Tends.run hv).bind ((ih he.2 hΓ).bind (.pure _))
  | byForm hA hv _ ih =>
      intro he Γ hΓ
      simp only [Task.perform, readElement_byForm _ _ hA]
      exact (Tends.run hv).bind (ih he hΓ)
  | stuck _ ih => exact ih
  | zero => exact fun _ _ _ => .pure _
  | add1 _ ih => exact fun he _ hΓ => (ih he hΓ).bind (.pure _)
  | quote a => exact fun _ _ _ => .pure _
  | nil => exact fun _ _ _ => .pure _
  | listCons _ _ ih ihs => exact fun he _ hΓ => (ih he.1 hΓ).bind ((ihs he.2 hΓ).bind (.pure _))
  | vecNil => exact fun _ _ _ => .pure _
  | vecCons hk _ _ ih ihs =>
      exact fun he _ hΓ => (Tends.run hk).bind ((ih he.1 hΓ).bind ((ihs he.2 hΓ).bind (.pure _)))
  | left _ ih => exact fun he _ hΓ => (ih he hΓ).bind (.pure _)
  | right _ ih => exact fun he _ hΓ => (ih he hΓ).bind (.pure _)
  | same _ ih => exact fun he _ hΓ => (ih he hΓ).bind (.pure _)
  | type hA _ ih => exact fun he _ hΓ => .reading ((Tends.run hA).bind (ih he hΓ))
  | @const _ c hc =>
      intro _ Γ hΓ
      cases c with
      | univ | nat | atom | trivial | absurd => exact .pure _
      | _ => cases hc
  | quant hy _ hB _ ihd ihr =>
      intro he Γ hΓ
      subst hy
      exact (Tends.fresh hΓ (fresh he.2.1)).bind ((ihd he.1 hΓ).bind ((Tends.run hB).bind
        ((ihr he.2.2 (by simp [hΓ])).bind (.pure _))))
  | list _ ih => exact fun he _ hΓ => (ih he hΓ).bind (.pure _)
  | vec _ _ ih ihk => exact fun he _ hΓ => (ih he.1 hΓ).bind ((ihk he.2 hΓ).bind (.pure _))
  | either _ _ ihl ihr => exact fun he _ hΓ => (ihl he.1 hΓ).bind ((ihr he.2 hΓ).bind (.pure _))
  | equal _ _ _ iht ihl ihr =>
      exact fun he _ hΓ => (iht he.1 hΓ).bind ((ihl he.2.1 hΓ).bind ((ihr he.2.2 hΓ).bind (.pure _)))
  | stuckType _ ih => exact ih
  | var x => exact fun _ _ _ => .reading (.pure _)
  | app _ _ ihf iha =>
      exact fun he _ hΓ => .reading ((ihf he.1 hΓ).bind ((iha he.2 hΓ).bind (.pure _)))
  | proj p _ ih => exact fun he _ hΓ => .reading ((ih he hΓ).bind (.pure _))
  | fold f _ _ _ _ iht ihB ihb ihs =>
      rw [annotate]
      exact fun he _ hΓ => .reading ((iht he.1 hΓ).bind
        ((Tends.annotated (ihB he.2.1.1 hΓ) (ihb he.2.1.2 hΓ)).bind ((ihs he.2.2 hΓ).bind (.pure _))))
  | induct i _ _ _ _ iht ihm ihb ihs =>
      exact fun he _ hΓ => .reading ((iht he.1 hΓ).bind ((ihm he.2.1 hΓ).bind ((ihb he.2.2.1 hΓ).bind
        ((ihs he.2.2.2 hΓ).bind (.pure _)))))
  | transport k _ _ _ iht ihm ihb =>
      exact fun he _ hΓ => .reading ((iht he.1 hΓ).bind ((ihm he.2.1 hΓ).bind
        ((ihb he.2.2 hΓ).bind (.pure _))))
  | indAbsurd _ _ iht ihm =>
      rw [element]
      exact fun he _ hΓ => .reading ((iht he.1.2 hΓ).bind ((ihm he.2 hΓ).bind (.pure _)))
  | indVec _ _ _ _ _ ihk iht ihm ihb ihs =>
      exact fun he _ hΓ => .reading ((ihk he.1 hΓ).bind ((iht he.2.1 hΓ).bind ((ihm he.2.2.1 hΓ).bind
        ((ihb he.2.2.2.1 hΓ).bind ((ihs he.2.2.2.2 hΓ).bind (.pure _))))))
  | trans _ _ ihl ihr =>
      exact fun he _ hΓ => .reading ((ihl he.1 hΓ).bind ((ihr he.2 hΓ).bind (.pure _)))
  | cong _ _ _ iht ihF ihf =>
      rw [annotate]
      exact fun he _ hΓ => .reading ((iht he.1 hΓ).bind
        ((Tends.annotated (ihF he.2.1 hΓ) (ihf he.2.2 hΓ)).bind (.pure _)))

theorem Expr.binders_of_forall {ok : List Name → Name → Prop} (h : ∀ X y, ok X y) (e : Expr) :
    ∀ X, e.Binders ok X := by
  induction e <;> simp_all [Expr.Binders]

theorem Reads.ofHints_tends {X : List Name} {t : Task} {e : Expr} (h : Reads .ofHints X t e)
    {Γ : Context} (hΓ : Γ.names = X) : Tends True (fun n => t.perform n Γ) e := by
  have binders : e.Binders (fun _ _ => True) X := Expr.binders_of_forall (fun _ _ => trivial) e X
  refine h.tends rfl ?_ binders hΓ
  intro X hint _
  simp only [Style.ofHints]
  cases freshAmong X hint with
  | ok y => exact .inl rfl
  | error e => exact .inr ⟨trivial, e, rfl⟩

/-- Read-back takes hints that are not in use as they are. -/
theorem Reads.asHinted_tends {X : List Name} {t : Task} {e : Expr} (h : Reads .asHinted X t e)
    (he : e.Binders (fun X y => y ∉ X) X) {Γ : Context} (hΓ : Γ.names = X) :
    Tends False (fun n => t.perform n Γ) e :=
  h.tends rfl (fun hy => .inl (freshAmong_of_notMem hy)) he hΓ

/-- What is to be read back. -/
def Reading.task : Reading → Task
  | .value A v => .value A v
  | .type v => .type v
  | .neutral stuck => .neutral stuck

theorem Finitary.of_run {α : Type} {F : Asking α} (h : Finitary F) {n : Nat} {a : α}
    (ha : F (run n) = .ok a) : F answer = .ok a := by
  rcases h.mono fun r => run_approx_answer n r with h | h
  · rw [ha] at h
    cases h
  · rw [← h, ha]

theorem pick_of_freshName {Γ : Context} {hint y : Name}
    (h : Returns (freshName Γ hint : ByName Name) y) : y = Style.ofHints.pick Γ.names hint :=
  Context.pick_of_fresh h.numeral

namespace ReadBack

variable {n : Nat} {Γ : Context}
  (ih : ∀ {Γ : Context} {r : Reading} {e : Expr}, Returns (readings n Γ r : ByName Expr) e →
    Reads .ofHints Γ.names r.task e)

include ih

theorem reads_annotated {A v : Value} {e : Expr}
    (h : Returns (readAnnotated (readings n) Γ (.mk A v) : ByName Expr) e) :
    ∃ t n, e = .the t n ∧ Reads .ofHints Γ.names (.type A) t ∧ Reads .ofHints Γ.names (.value A v) n := by
  obtain ⟨t, ht, h⟩ := h.bind
  obtain ⟨n, hn, h⟩ := h.bind
  exact ⟨t, n, h.pure_eq, ih ht, ih hn⟩

theorem reads_canonical {A v : Value} {e : Expr}
    (h : Returns (readCanonical (run n) (readings n) Γ A v : ByName Expr) e) :
    Reads .ofHints Γ.names (.canonical A v) e := by
  unfold readCanonical at h
  split at h
  · cases h.pure_eq
    exact .zero
  · obtain ⟨e, he, h⟩ := h.bind
    cases h.pure_eq
    exact .add1 (ih he)
  · cases h.pure_eq
    exact .quote _
  · cases h.pure_eq
    exact .nil
  · obtain ⟨e, he, h⟩ := h.bind
    obtain ⟨es, hes, h⟩ := h.bind
    cases h.pure_eq
    exact .listCons (ih he) (ih hes)
  · cases h.pure_eq
    exact .vecNil
  · obtain ⟨k, hk, h⟩ := h.bind
    split at h
    · obtain ⟨e, he, h⟩ := h.bind
      obtain ⟨es, hes, h⟩ := h.bind
      cases h.pure_eq
      exact .vecCons (answer_of_run hk) (ih he) (ih hes)
    · exact absurd h Returns.not_defect
  · obtain ⟨e, he, h⟩ := h.bind
    cases h.pure_eq
    exact .left (ih he)
  · obtain ⟨e, he, h⟩ := h.bind
    cases h.pure_eq
    exact .right (ih he)
  · obtain ⟨e, he, h⟩ := h.bind
    cases h.pure_eq
    exact .same (ih he)
  · exact absurd h Returns.not_defect

theorem reads_byForm {A v : Value} (hA : A.byForm = true) {e : Expr}
    (h : Returns (readElement (run n) (readings n) Γ v A : ByName Expr) e) :
    Reads .ofHints Γ.names (.element A v) e := by
  rw [readElement_byForm n Γ hA] at h
  obtain ⟨w, hw, h⟩ := h.bind
  refine .byForm hA (answer_of_run hw) ?_
  cases w with
  | neutral T stuck => exact .stuck (ih h)
  | _ => exact reads_canonical ih h

theorem reads_element {A v : Value} {e : Expr}
    (h : Returns (readElement (run n) (readings n) Γ v A : ByName Expr) e) :
    Reads .ofHints Γ.names (.element A v) e := by
  cases A with
  | const c =>
      cases c with
      | univ => exact .univ (ih h)
      | trivial =>
          cases h.pure_eq
          exact .sole
      | absurd =>
          obtain ⟨w, hw, h⟩ := h.bind
          split at h
          · obtain ⟨e, he, h⟩ := h.bind
            cases h.pure_eq
            exact .absurd (answer_of_run hw) (ih he)
          · exact absurd h Returns.not_defect
      | _ => exact reads_byForm ih rfl h
  | quant q x d r =>
      cases q with
      | pi =>
          obtain ⟨f, hf, h⟩ := h.bind
          obtain ⟨y, hy, h⟩ := h.bind
          obtain ⟨B, hB, h⟩ := h.bind
          obtain ⟨b, hb, h⟩ := h.bind
          obtain ⟨e, he, h⟩ := h.bind
          cases h.pure_eq
          refine .lam (answer_of_run hf) (pick_of_freshName hy) (answer_of_run hB)
            ((Eval.finitary_call _ _).of_run hb) ?_
          rw [← Context.names_bindFree]
          exact ih he
      | sigma =>
          obtain ⟨a, ha, h⟩ := h.bind
          obtain ⟨b, hb, h⟩ := h.bind
          obtain ⟨l, hl, h⟩ := h.bind
          obtain ⟨B, hB, h⟩ := h.bind
          obtain ⟨e, he, h⟩ := h.bind
          cases h.pure_eq
          exact .cons ((Eval.finitary_car _).of_run ha) ((Eval.finitary_cdr _).of_run hb) (ih hl)
            (answer_of_run hB) (ih he)
  | _ => exact reads_byForm ih rfl h

theorem reads_former {v : Value} {e : Expr}
    (h : Returns (readFormer (run n) (readings n) Γ v : ByName Expr) e) :
    Reads .ofHints Γ.names (.former v) e := by
  unfold readFormer at h
  split at h
  · cases h.pure_eq; exact .const rfl
  · cases h.pure_eq; exact .const rfl
  · cases h.pure_eq; exact .const rfl
  · cases h.pure_eq; exact .const rfl
  · cases h.pure_eq; exact .const rfl
  · obtain ⟨y, hy, h⟩ := h.bind
    obtain ⟨nd, hd, h⟩ := h.bind
    obtain ⟨B, hB, h⟩ := h.bind
    obtain ⟨nr, hr, h⟩ := h.bind
    cases h.pure_eq
    refine .quant (pick_of_freshName hy) (ih hd) (answer_of_run hB) ?_
    rw [← Context.names_bindFree]
    exact ih hr
  · obtain ⟨e, he, h⟩ := h.bind
    cases h.pure_eq
    exact .list (ih he)
  · obtain ⟨e, he, h⟩ := h.bind
    obtain ⟨k, hk, h⟩ := h.bind
    cases h.pure_eq
    exact .vec (ih he) (ih hk)
  · obtain ⟨l, hl, h⟩ := h.bind
    obtain ⟨r, hr, h⟩ := h.bind
    cases h.pure_eq
    exact .either (ih hl) (ih hr)
  · obtain ⟨t, ht, h⟩ := h.bind
    obtain ⟨l, hl, h⟩ := h.bind
    obtain ⟨r, hr, h⟩ := h.bind
    cases h.pure_eq
    exact .equal (ih ht) (ih hl) (ih hr)
  · exact .stuckType (ih h)
  · exact absurd h Returns.not_defect

theorem reads_neutral {stuck : Neutral} {e : Expr}
    (h : Returns (readNeutral (readings n) Γ stuck : ByName Expr) e) :
    Reads .ofHints Γ.names (.neutral stuck) e := by
  have typed : ∀ {A v : Value} {e : Expr},
      Returns (readings n Γ (Typed.mk A v).reading : ByName Expr) e →
        Reads .ofHints Γ.names (.value A v) e := fun h => ih h
  cases stuck with
  | var x =>
      cases h.pure_eq
      exact .var x
  | app f a =>
      obtain ⟨d, a⟩ := a
      obtain ⟨nf, hf, h⟩ := h.bind
      obtain ⟨na, ha, h⟩ := h.bind
      cases h.pure_eq
      exact .app (ih hf) (typed ha)
  | proj p t =>
      obtain ⟨nt, ht, h⟩ := h.bind
      cases h.pure_eq
      exact .proj p (ih ht)
  | fold f t b s =>
      obtain ⟨B, b⟩ := b
      obtain ⟨S, s⟩ := s
      obtain ⟨nt, ht, h⟩ := h.bind
      obtain ⟨nb, hb, h⟩ := h.bind
      obtain ⟨ns, hs, h⟩ := h.bind
      cases h.pure_eq
      obtain ⟨nB, nb, rfl, hB, hb⟩ := reads_annotated ih hb
      rw [← Style.ofHints_annotate]
      exact .fold f (ih ht) hB hb (typed hs)
  | induct i t m b s =>
      obtain ⟨M, m⟩ := m
      obtain ⟨B, b⟩ := b
      obtain ⟨S, s⟩ := s
      obtain ⟨nt, ht, h⟩ := h.bind
      obtain ⟨nm, hm, h⟩ := h.bind
      obtain ⟨nb, hb, h⟩ := h.bind
      obtain ⟨ns, hs, h⟩ := h.bind
      cases h.pure_eq
      exact .induct i (ih ht) (typed hm) (typed hb) (typed hs)
  | transport k t m b =>
      obtain ⟨M, m⟩ := m
      obtain ⟨B, b⟩ := b
      obtain ⟨nt, ht, h⟩ := h.bind
      obtain ⟨nm, hm, h⟩ := h.bind
      obtain ⟨nb, hb, h⟩ := h.bind
      cases h.pure_eq
      exact .transport k (ih ht) (typed hm) (typed hb)
  | indAbsurd t m =>
      obtain ⟨M, m⟩ := m
      obtain ⟨nt, ht, h⟩ := h.bind
      obtain ⟨nm, hm, h⟩ := h.bind
      cases h.pure_eq
      exact .indAbsurd (ih ht) (ih hm)
  | indVec k t m b s =>
      obtain ⟨N, k⟩ := k
      obtain ⟨M, m⟩ := m
      obtain ⟨B, b⟩ := b
      obtain ⟨S, s⟩ := s
      obtain ⟨nk, hk, h⟩ := h.bind
      obtain ⟨nt, ht, h⟩ := h.bind
      obtain ⟨nm, hm, h⟩ := h.bind
      obtain ⟨nb, hb, h⟩ := h.bind
      obtain ⟨ns, hs, h⟩ := h.bind
      cases h.pure_eq
      exact .indVec (typed hk) (ih ht) (typed hm) (typed hb) (typed hs)
  | trans l r =>
      obtain ⟨L, l⟩ := l
      obtain ⟨R, r⟩ := r
      obtain ⟨nl, hl, h⟩ := h.bind
      obtain ⟨nr, hr, h⟩ := h.bind
      cases h.pure_eq
      exact .trans (typed hl) (typed hr)
  | cong t f =>
      obtain ⟨F, f⟩ := f
      obtain ⟨nt, ht, h⟩ := h.bind
      obtain ⟨nf, hf, h⟩ := h.bind
      cases h.pure_eq
      obtain ⟨nF, nf, rfl, hF, hf⟩ := reads_annotated ih hf
      rw [← Style.ofHints_annotate]
      exact .cong (ih ht) hF hf

end ReadBack

theorem Reads.of_readings {n : Nat} : ∀ {Γ : Context} {r : Reading} {e : Expr},
    Returns (readings n Γ r : ByName Expr) e → Reads .ofHints Γ.names r.task e := by
  induction n with
  | zero => exact fun h => (Returning.not_stop h).elim
  | succ n ih =>
      intro Γ r e h
      cases r with
      | value A v =>
          obtain ⟨A', hA, h⟩ := h.bind
          exact .value (answer_of_run hA) (ReadBack.reads_element ih h)
      | type v =>
          obtain ⟨A, hA, h⟩ := h.bind
          exact .type (answer_of_run hA) (ReadBack.reads_former ih h)
      | neutral stuck => exact ReadBack.reads_neutral ih h

end TypeKernel
