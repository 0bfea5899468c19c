/-
# TypeKernel.Proofs.Matches — values that behave alike

Two values match if they have the same form, stand stuck on corresponding variables, and hold code
that is the same up to the names of binders, in environments that match entry by entry. A
correspondence says what may differ: the names of binders, the names of free variables, and the memo
cells of delayed values.

One relation serves several purposes. With free choice of binders it is α-equivalence of values. With
free variables restricted to a set and both sides equal it says which variables a value mentions. With
cells restricted to those of a session it compares evaluation by need with evaluation by name.
-/
import TypeKernel.Context.Basic

namespace TypeKernel

set_option autoImplicit false

/-- Which names on the left stand for which names on the right. -/
abbrev Pairing := Name → Name → Prop

/-- The pairing below a binder on either side. -/
def Pairing.under (V : Pairing) (x y : Name) : Pairing :=
  fun z w => z = x ∧ w = y ∨ z ≠ x ∧ w ≠ y ∧ V z w

/-- Expressions that differ at most in names: bound variables refer to corresponding binders, whose
names `B` relates, and `V` relates the names of free variables. If `annotated` holds, the right side may
also have the annotations that elaboration adds: around the base of a fold, around the target of
`ind-Absurd`, and around the function of `cong`. -/
inductive Resembles (annotated : Prop) (B : Pairing) : Pairing → Expr → Expr → Prop
  | var {V x y} (h : V x y) : Resembles annotated B V (.var x) (.var y)
  | quote {V} (a : String) : Resembles annotated B V (.quote a) (.quote a)
  | const {V} (c : Const) : Resembles annotated B V (.const c) (.const c)
  | unary {V e e'} (u : Unary) (h : Resembles annotated B V e e') : Resembles annotated B V (.unary u e) (.unary u e')
  | binary {V e₁ e₁' e₂ e₂'} (b : Binary) (h₁ : Resembles annotated B V e₁ e₁') (h₂ : Resembles annotated B V e₂ e₂') :
      Resembles annotated B V (.binary b e₁ e₂) (.binary b e₁' e₂')
  | equal {V t t' l l' r r'} (ht : Resembles annotated B V t t') (hl : Resembles annotated B V l l') (hr : Resembles annotated B V r r') :
      Resembles annotated B V (.equal t l r) (.equal t' l' r')
  | quant {V x y d d' r r'} (q : Quantifier) (hx : B x y) (hd : Resembles annotated B V d d')
      (hr : Resembles annotated B (V.under x y) r r') : Resembles annotated B V (.quant q x d r) (.quant q y d' r')
  | lam {V x y b b'} (hx : B x y) (hb : Resembles annotated B (V.under x y) b b') :
      Resembles annotated B V (.lam x b) (.lam y b')
  | the {V t t' e e'} (ht : Resembles annotated B V t t') (he : Resembles annotated B V e e') :
      Resembles annotated B V (.the t e) (.the t' e')
  | app {V f f' a a'} (hf : Resembles annotated B V f f') (ha : Resembles annotated B V a a') :
      Resembles annotated B V (.app f a) (.app f' a')
  | proj {V t t'} (p : Projection) (ht : Resembles annotated B V t t') : Resembles annotated B V (.proj p t) (.proj p t')
  | fold {V t t' b b' s s'} (f : Fold) (ht : Resembles annotated B V t t') (hb : Resembles annotated B V b b')
      (hs : Resembles annotated B V s s') : Resembles annotated B V (.fold f t b s) (.fold f t' b' s')
  | induct {V t t' m m' b b' s s'} (i : Induction) (ht : Resembles annotated B V t t') (hm : Resembles annotated B V m m')
      (hb : Resembles annotated B V b b') (hs : Resembles annotated B V s s') :
      Resembles annotated B V (.induct i t m b s) (.induct i t' m' b' s')
  | transport {V t t' m m' b b'} (k : Transport) (ht : Resembles annotated B V t t') (hm : Resembles annotated B V m m')
      (hb : Resembles annotated B V b b') : Resembles annotated B V (.transport k t m b) (.transport k t' m' b')
  | indAbsurd {V t t' m m'} (ht : Resembles annotated B V t t') (hm : Resembles annotated B V m m') :
      Resembles annotated B V (.indAbsurd t m) (.indAbsurd t' m')
  | indVec {V n n' t t' m m' b b' s s'} (hn : Resembles annotated B V n n') (ht : Resembles annotated B V t t')
      (hm : Resembles annotated B V m m') (hb : Resembles annotated B V b b') (hs : Resembles annotated B V s s') :
      Resembles annotated B V (.indVec n t m b s) (.indVec n' t' m' b' s')
  | trans {V l l' r r'} (hl : Resembles annotated B V l l') (hr : Resembles annotated B V r r') :
      Resembles annotated B V (.trans l r) (.trans l' r')
  | cong {V t t' f f'} (ht : Resembles annotated B V t t') (hf : Resembles annotated B V f f') :
      Resembles annotated B V (.cong t f) (.cong t' f')
  | todo {V} : Resembles annotated B V .todo .todo
  | malformed {V} (m : Malformed) : Resembles annotated B V (.malformed m) (.malformed m)
  | foldAnnotated {V t t' a b b' s s'} (ha : annotated) (f : Fold) (bare : ∀ t e, b ≠ .the t e)
      (ht : Resembles annotated B V t t') (hb : Resembles annotated B V b b')
      (hs : Resembles annotated B V s s') :
      Resembles annotated B V (.fold f t b s) (.fold f t' (.the a b') s')
  | indAbsurdAnnotated {V t t' a m m'} (ha : annotated) (bare : ∀ a e, t ≠ .the a e)
      (ht : Resembles annotated B V t t') (hm : Resembles annotated B V m m') :
      Resembles annotated B V (.indAbsurd t m) (.indAbsurd (.the a t') m')
  | congAnnotated {V t t' a f f'} (ha : annotated) (bare : ∀ t e, f ≠ .the t e)
      (ht : Resembles annotated B V t t') (hf : Resembles annotated B V f f') :
      Resembles annotated B V (.cong t f) (.cong t' (.the a f'))

/-- Expressions that differ at most in names. -/
abbrev Alike : Pairing → Pairing → Expr → Expr → Prop :=
  Resembles False

theorem Pairing.under_mono {V W : Pairing} (h : ∀ x y, V x y → W x y) (x y : Name) :
    ∀ z w, V.under x y z w → W.under x y z w := by
  rintro z w (hxy | ⟨hz, hw, hv⟩)
  · exact .inl hxy
  · exact .inr ⟨hz, hw, h z w hv⟩

theorem Resembles.mono {P Q : Prop} (hP : P → Q) {B C : Pairing} (hB : ∀ x y, B x y → C x y)
    {V : Pairing} {e e' : Expr} (h : Resembles P B V e e') {W : Pairing}
    (hV : ∀ x y, V x y → W x y) : Resembles Q C W e e' := by
  induction h generalizing W with
  | var h => exact .var (hV _ _ h)
  | quote a => exact .quote a
  | const c => exact .const c
  | unary u _ ih => exact .unary u (ih hV)
  | binary b _ _ ih₁ ih₂ => exact .binary b (ih₁ hV) (ih₂ hV)
  | equal _ _ _ iht ihl ihr => exact .equal (iht hV) (ihl hV) (ihr hV)
  | quant q hx _ _ ihd ihr => exact .quant q (hB _ _ hx) (ihd hV) (ihr (Pairing.under_mono hV _ _))
  | lam hx _ ih => exact .lam (hB _ _ hx) (ih (Pairing.under_mono hV _ _))
  | the _ _ iht ihe => exact .the (iht hV) (ihe hV)
  | app _ _ ihf iha => exact .app (ihf hV) (iha hV)
  | proj p _ ih => exact .proj p (ih hV)
  | fold f _ _ _ iht ihb ihs => exact .fold f (iht hV) (ihb hV) (ihs hV)
  | induct i _ _ _ _ iht ihm ihb ihs => exact .induct i (iht hV) (ihm hV) (ihb hV) (ihs hV)
  | transport k _ _ _ iht ihm ihb => exact .transport k (iht hV) (ihm hV) (ihb hV)
  | indAbsurd _ _ iht ihm => exact .indAbsurd (iht hV) (ihm hV)
  | indVec _ _ _ _ _ ihn iht ihm ihb ihs =>
      exact .indVec (ihn hV) (iht hV) (ihm hV) (ihb hV) (ihs hV)
  | trans _ _ ihl ihr => exact .trans (ihl hV) (ihr hV)
  | cong _ _ iht ihf => exact .cong (iht hV) (ihf hV)
  | todo => exact .todo
  | malformed m => exact .malformed m
  | foldAnnotated ha f bare _ _ _ iht ihb ihs =>
      exact .foldAnnotated (hP ha) f bare (iht hV) (ihb hV) (ihs hV)
  | indAbsurdAnnotated ha bare _ _ iht ihm =>
      exact .indAbsurdAnnotated (hP ha) bare (iht hV) (ihm hV)
  | congAnnotated ha bare _ _ iht ihf => exact .congAnnotated (hP ha) bare (iht hV) (ihf hV)

theorem Resembles.refl {P : Prop} {B : Pairing} (hB : ∀ x, B x x) (e : Expr) :
    ∀ {V : Pairing}, (∀ x, V x x) → Resembles P B V e e := by
  have under : ∀ {V : Pairing} (x : Name), (∀ z, V z z) → ∀ z, V.under x x z z := fun x h z => by
    by_cases hz : z = x
    · exact .inl ⟨hz, hz⟩
    · exact .inr ⟨hz, hz, h z⟩
  induction e with
  | var x => exact fun h => .var (h x)
  | quote a => exact fun _ => .quote a
  | const c => exact fun _ => .const c
  | unary u _ ih => exact fun h => .unary u (ih h)
  | binary b _ _ ih₁ ih₂ => exact fun h => .binary b (ih₁ h) (ih₂ h)
  | equal _ _ _ iht ihl ihr => exact fun h => .equal (iht h) (ihl h) (ihr h)
  | quant q x _ _ ihd ihr => exact fun h => .quant q (hB x) (ihd h) (ihr (under x h))
  | lam x _ ih => exact fun h => .lam (hB x) (ih (under x h))
  | the _ _ iht ihe => exact fun h => .the (iht h) (ihe h)
  | app _ _ ihf iha => exact fun h => .app (ihf h) (iha h)
  | proj p _ ih => exact fun h => .proj p (ih h)
  | fold f _ _ _ iht ihb ihs => exact fun h => .fold f (iht h) (ihb h) (ihs h)
  | induct i _ _ _ _ iht ihm ihb ihs => exact fun h => .induct i (iht h) (ihm h) (ihb h) (ihs h)
  | transport k _ _ _ iht ihm ihb => exact fun h => .transport k (iht h) (ihm h) (ihb h)
  | indAbsurd _ _ iht ihm => exact fun h => .indAbsurd (iht h) (ihm h)
  | indVec _ _ _ _ _ ihn iht ihm ihb ihs =>
      exact fun h => .indVec (ihn h) (iht h) (ihm h) (ihb h) (ihs h)
  | trans _ _ ihl ihr => exact fun h => .trans (ihl h) (ihr h)
  | cong _ _ iht ihf => exact fun h => .cong (iht h) (ihf h)
  | todo => exact fun _ => .todo
  | malformed m => exact fun _ => .malformed m

theorem Resembles.eq {P : Prop} {B V : Pairing} {e e' : Expr} (h : Resembles P B V e e') (hP : ¬ P)
    (hB : ∀ x y, B x y → x = y) (hV : ∀ x y, V x y → x = y) : e = e' := by
  have under : ∀ {V : Pairing} {x y : Name}, B x y → (∀ z w, V z w → z = w) →
      ∀ z w, V.under x y z w → z = w := by
    rintro V x y hxy hV z w (⟨rfl, rfl⟩ | ⟨-, -, hzw⟩)
    · exact hB _ _ hxy
    · exact hV _ _ hzw
  induction h with
  | var h => rw [hV _ _ h]
  | quote | const | todo | malformed => rfl
  | unary _ _ ih => rw [ih hV]
  | binary _ _ _ ih₁ ih₂ => rw [ih₁ hV, ih₂ hV]
  | equal _ _ _ iht ihl ihr => rw [iht hV, ihl hV, ihr hV]
  | quant q hx _ _ ihd ihr => rw [hB _ _ hx, ihd hV, ihr (under hx hV)]
  | lam hx _ ih => rw [hB _ _ hx, ih (under hx hV)]
  | the _ _ iht ihe => rw [iht hV, ihe hV]
  | app _ _ ihf iha => rw [ihf hV, iha hV]
  | proj _ _ ih => rw [ih hV]
  | fold _ _ _ _ iht ihb ihs => rw [iht hV, ihb hV, ihs hV]
  | induct _ _ _ _ _ iht ihm ihb ihs => rw [iht hV, ihm hV, ihb hV, ihs hV]
  | transport _ _ _ _ iht ihm ihb => rw [iht hV, ihm hV, ihb hV]
  | indAbsurd _ _ iht ihm => rw [iht hV, ihm hV]
  | indVec _ _ _ _ _ ihn iht ihm ihb ihs => rw [ihn hV, iht hV, ihm hV, ihb hV, ihs hV]
  | trans _ _ ihl ihr => rw [ihl hV, ihr hV]
  | cong _ _ iht ihf => rw [iht hV, ihf hV]
  | foldAnnotated ha | indAbsurdAnnotated ha | congAnnotated ha => exact (hP ha).elim

/-! ## Values -/

/-- The number of entries of an environment. -/
def Env.size : Env → Nat
  | .empty => 0
  | .extend ρ _ _ => ρ.size + 1

/-- A pair of environments with different numbers of entries, and the names in them that correspond: both
have a value, or neither has. -/
structure Outer where
  left : Env
  right : Env
  pairs : Pairing
  apart : left.size ≠ right.size
  alike : ∀ x x', pairs x x' → (left.get? x = none ∧ right.get? x' = none ∧ x = x') ∨
    (left.get? x).isSome ∧ (right.get? x').isSome

/-- The names that evaluation gives to the parameters of families. -/
def Family.parameters : List Name :=
  ["n", "n-1", "x", "xs", "e", "es", "ih", "k", "to", "p"]

/-- What may differ between values that match. -/
structure Correspondence where
  /-- The names of corresponding binders. -/
  binders : Pairing
  families : ∀ x ∈ Family.parameters, binders x x
  /-- The names of corresponding free variables. -/
  names : Pairing
  /-- The cells of corresponding delayed values, each with what it delays. -/
  cells : Nat → Env → Expr → Nat → Env → Expr → Prop
  /-- Whether code on the right may have annotations that code on the left lacks. -/
  annotated : Prop
  /-- Environments that correspond without matching entry by entry. -/
  outer : Option Outer

/-- Code that corresponds, with `V` for the names of free variables. -/
abbrev Correspondence.Code (K : Correspondence) : Pairing → Expr → Expr → Prop :=
  Resembles K.annotated K.binders

/-- Parts of values, of each kind. -/
inductive Piece where
  | value (v : Value)
  | neutral (stuck : Neutral)
  | typed (t : Typed)
  | closure (c : Closure)
  | family (f : Family)
  | env (ρ : Env)

/-- The names at the same places of two environments. A name that neither binds stands for itself. -/
def Env.pairing : Env → Env → Pairing
  | .extend ρ x _, .extend ρ' y _ => (ρ.pairing ρ').under x y
  | _, _ => Eq

/-- The environments are the given ones. -/
def Outer.At (o : Outer) (ρ ρ' : Env) : Prop :=
  ρ = o.left ∧ ρ' = o.right

open Classical in
/-- The names at the same places of two environments that extend a given pair of environments. -/
noncomputable def Outer.pairing (o : Outer) : Env → Env → Pairing
  | .extend ρ x v, .extend ρ' y w =>
      if o.At (.extend ρ x v) (.extend ρ' y w) then o.pairs else (o.pairing ρ ρ').under x y
  | ρ, ρ' => if o.At ρ ρ' then o.pairs else Eq

/-- Which names of two environments correspond. -/
noncomputable def Correspondence.pairing (K : Correspondence) (ρ ρ' : Env) : Pairing :=
  match K.outer with
  | none => ρ.pairing ρ'
  | some o => o.pairing ρ ρ'

/-- Values that match. -/
inductive Matches (K : Correspondence) : Piece → Piece → Prop
  | const (c : Const) : Matches K (.value (.const c)) (.value (.const c))
  | quote (a : String) : Matches K (.value (.quote a)) (.value (.quote a))
  | unary {v v'} (u : Unary) (h : Matches K (.value v) (.value v')) :
      Matches K (.value (.unary u v)) (.value (.unary u v'))
  | binary {v₁ v₁' v₂ v₂'} (b : Binary) (h₁ : Matches K (.value v₁) (.value v₁'))
      (h₂ : Matches K (.value v₂) (.value v₂')) :
      Matches K (.value (.binary b v₁ v₂)) (.value (.binary b v₁' v₂'))
  | equal {t t' l l' r r'} (ht : Matches K (.value t) (.value t'))
      (hl : Matches K (.value l) (.value l')) (hr : Matches K (.value r) (.value r')) :
      Matches K (.value (.equal t l r)) (.value (.equal t' l' r'))
  | quant {x x' d d' r r'} (q : Quantifier) (hx : K.binders x x')
      (hd : Matches K (.value d) (.value d')) (hr : Matches K (.closure r) (.closure r')) :
      Matches K (.value (.quant q x d r)) (.value (.quant q x' d' r'))
  | lam {x x' b b'} (hx : K.binders x x') (hb : Matches K (.closure b) (.closure b')) :
      Matches K (.value (.lam x b)) (.value (.lam x' b'))
  | neutral {t t' e e'} (ht : Matches K (.value t) (.value t'))
      (he : Matches K (.neutral e) (.neutral e')) :
      Matches K (.value (.neutral t e)) (.value (.neutral t' e'))
  | delayed {c c' ρ ρ' e e'} (hc : K.cells c ρ e c' ρ' e') (hρ : Matches K (.env ρ) (.env ρ'))
      (he : K.Code (K.pairing ρ ρ') e e') :
      Matches K (.value (.delayed c ρ e)) (.value (.delayed c' ρ' e'))
  | var {x x'} (hx : K.names x x') : Matches K (.neutral (.var x)) (.neutral (.var x'))
  | app {f f' a a'} (hf : Matches K (.neutral f) (.neutral f'))
      (ha : Matches K (.typed a) (.typed a')) :
      Matches K (.neutral (.app f a)) (.neutral (.app f' a'))
  | proj {t t'} (p : Projection) (ht : Matches K (.neutral t) (.neutral t')) :
      Matches K (.neutral (.proj p t)) (.neutral (.proj p t'))
  | fold {t t' b b' s s'} (f : Fold) (ht : Matches K (.neutral t) (.neutral t'))
      (hb : Matches K (.typed b) (.typed b')) (hs : Matches K (.typed s) (.typed s')) :
      Matches K (.neutral (.fold f t b s)) (.neutral (.fold f t' b' s'))
  | induct {t t' m m' b b' s s'} (i : Induction) (ht : Matches K (.neutral t) (.neutral t'))
      (hm : Matches K (.typed m) (.typed m')) (hb : Matches K (.typed b) (.typed b'))
      (hs : Matches K (.typed s) (.typed s')) :
      Matches K (.neutral (.induct i t m b s)) (.neutral (.induct i t' m' b' s'))
  | transport {t t' m m' b b'} (k : Transport) (ht : Matches K (.neutral t) (.neutral t'))
      (hm : Matches K (.typed m) (.typed m')) (hb : Matches K (.typed b) (.typed b')) :
      Matches K (.neutral (.transport k t m b)) (.neutral (.transport k t' m' b'))
  | indAbsurd {t t' m m'} (ht : Matches K (.neutral t) (.neutral t'))
      (hm : Matches K (.typed m) (.typed m')) :
      Matches K (.neutral (.indAbsurd t m)) (.neutral (.indAbsurd t' m'))
  | indVec {n n' t t' m m' b b' s s'} (hn : Matches K (.typed n) (.typed n'))
      (ht : Matches K (.neutral t) (.neutral t')) (hm : Matches K (.typed m) (.typed m'))
      (hb : Matches K (.typed b) (.typed b')) (hs : Matches K (.typed s) (.typed s')) :
      Matches K (.neutral (.indVec n t m b s)) (.neutral (.indVec n' t' m' b' s'))
  | trans {l l' r r'} (hl : Matches K (.typed l) (.typed l'))
      (hr : Matches K (.typed r) (.typed r')) :
      Matches K (.neutral (.trans l r)) (.neutral (.trans l' r'))
  | cong {t t' f f'} (ht : Matches K (.neutral t) (.neutral t'))
      (hf : Matches K (.typed f) (.typed f')) :
      Matches K (.neutral (.cong t f)) (.neutral (.cong t' f'))
  | typed {t t' v v'} (ht : Matches K (.value t) (.value t'))
      (hv : Matches K (.value v) (.value v')) :
      Matches K (.typed (.mk t v)) (.typed (.mk t' v'))
  | code {ρ ρ' x x' b b'} (hx : K.binders x x') (hρ : Matches K (.env ρ) (.env ρ'))
      (hb : K.Code ((K.pairing ρ ρ').under x x') b b') :
      Matches K (.closure (.code ρ x b)) (.closure (.code ρ' x' b'))
  | family {x x' f f'} (hx : K.binders x x') (hf : Matches K (.family f) (.family f')) :
      Matches K (.closure (.family x f)) (.closure (.family x' f'))
  | always {t t'} (ht : Matches K (.value t) (.value t')) :
      Matches K (.family (.always t)) (.family (.always t'))
  | fixed {m m' v v'} (hm : Matches K (.value m) (.value m'))
      (hv : Matches K (.value v) (.value v')) :
      Matches K (.family (.fixed m v)) (.family (.fixed m' v'))
  | fixedBoth {m m' v v' w w'} (hm : Matches K (.value m) (.value m'))
      (hv : Matches K (.value v) (.value v')) (hw : Matches K (.value w) (.value w')) :
      Matches K (.family (.fixedBoth m v w)) (.family (.fixedBoth m' v' w'))
  | wrapped {m m'} (u : Unary) (hm : Matches K (.value m) (.value m')) :
      Matches K (.family (.wrapped u m)) (.family (.wrapped u m'))
  | natStep {m m'} (hm : Matches K (.value m) (.value m')) :
      Matches K (.family (.natStep m)) (.family (.natStep m'))
  | listStep {e e' m m'} (he : Matches K (.value e) (.value e'))
      (hm : Matches K (.value m) (.value m')) :
      Matches K (.family (.listStep e m)) (.family (.listStep e' m'))
  | listStepTail {m m' v v'} (hm : Matches K (.value m) (.value m'))
      (hv : Matches K (.value v) (.value v')) :
      Matches K (.family (.listStepTail m v)) (.family (.listStepTail m' v'))
  | vecMotive {e e'} (he : Matches K (.value e) (.value e')) :
      Matches K (.family (.vecMotive e)) (.family (.vecMotive e'))
  | vecStep {e e' m m'} (he : Matches K (.value e) (.value e'))
      (hm : Matches K (.value m) (.value m')) :
      Matches K (.family (.vecStep e m)) (.family (.vecStep e' m'))
  | vecStepHead {e e' m m' n n'} (he : Matches K (.value e) (.value e'))
      (hm : Matches K (.value m) (.value m')) (hn : Matches K (.value n) (.value n')) :
      Matches K (.family (.vecStepHead e m n)) (.family (.vecStepHead e' m' n'))
  | vecStepTail {m m' n n' v v'} (hm : Matches K (.value m) (.value m'))
      (hn : Matches K (.value n) (.value n')) (hv : Matches K (.value v) (.value v')) :
      Matches K (.family (.vecStepTail m n v)) (.family (.vecStepTail m' n' v'))
  | equalMotive {t t' l l'} (ht : Matches K (.value t) (.value t'))
      (hl : Matches K (.value l) (.value l')) :
      Matches K (.family (.equalMotive t l)) (.family (.equalMotive t' l'))
  | empty : Matches K (.env .empty) (.env .empty)
  | outer {o} (ho : K.outer = some o) (values : ∀ x x' v v', o.pairs x x' → o.left.get? x = some v →
      o.right.get? x' = some v' → Matches K (.value v) (.value v')) :
      Matches K (.env o.left) (.env o.right)
  | extend {ρ ρ' x x' v v'} (hx : K.binders x x') (hρ : Matches K (.env ρ) (.env ρ'))
      (hv : Matches K (.value v) (.value v')) :
      Matches K (.env (.extend ρ x v)) (.env (.extend ρ' x' v'))

/-- One correspondence allows whatever another allows. -/
structure Correspondence.Le (K K' : Correspondence) : Prop where
  binders : ∀ x y, K.binders x y → K'.binders x y
  names : ∀ x y, K.names x y → K'.names x y
  cells : ∀ c ρ e c' ρ' e', K.cells c ρ e c' ρ' e' → K'.cells c ρ e c' ρ' e'
  annotated : K.annotated → K'.annotated
  outer : ∀ o, K.outer = some o → K'.outer = some o

theorem Correspondence.Le.refl (K : Correspondence) : K.Le K :=
  ⟨fun _ _ h => h, fun _ _ h => h, fun _ _ _ _ _ _ h => h, fun h => h, fun _ h => h⟩

theorem Correspondence.Le.trans {K K' K'' : Correspondence} (h : K.Le K') (h' : K'.Le K'') :
    K.Le K'' :=
  ⟨fun x y hx => h'.binders x y (h.binders x y hx), fun x y hx => h'.names x y (h.names x y hx),
    fun _ _ _ _ _ _ hc => h'.cells _ _ _ _ _ _ (h.cells _ _ _ _ _ _ hc),
    fun ha => h'.annotated (h.annotated ha), fun o ho => h'.outer o (h.outer o ho)⟩

/-- One more pair of corresponding free variables. -/
def Correspondence.bind (K : Correspondence) (y y' : Name) : Correspondence :=
  { K with names := fun z z' => K.names z z' ∨ z = y ∧ z' = y' }

theorem Correspondence.le_bind (K : Correspondence) (y y' : Name) : K.Le (K.bind y y') :=
  ⟨fun _ _ h => h, fun _ _ h => .inl h, fun _ _ _ _ _ _ h => h, fun h => h, fun _ h => h⟩

theorem Matches.size {K : Correspondence} {ρ ρ' : Env} (h : Matches K (.env ρ) (.env ρ')) :
    ρ.size = ρ'.size ∨ ∃ o, K.outer = some o ∧ o.left.size ≤ ρ.size := by
  generalize hp : Piece.env ρ = p at h
  generalize hq : Piece.env ρ' = q at h
  induction h generalizing ρ ρ' with
  | empty =>
      cases hp
      cases hq
      exact .inl rfl
  | outer ho =>
      cases hp
      exact .inr ⟨_, ho, Nat.le_refl _⟩
  | extend _ _ _ ih =>
      cases hp
      cases hq
      rcases ih rfl rfl with h | ⟨o, ho, h⟩
      · exact .inl (congrArg Nat.succ h)
      · exact .inr ⟨o, ho, Nat.le_succ_of_le h⟩
  | _ => cases hp

/-- Environments with as many entries do not extend a pair with different numbers of them. -/
theorem Outer.pairing_of_size (o : Outer) {ρ ρ' : Env} (h : ρ.size = ρ'.size) :
    o.pairing ρ ρ' = ρ.pairing ρ' := by
  have away : ∀ {ρ ρ' : Env}, ρ.size = ρ'.size → ¬ o.At ρ ρ' := by
    rintro _ _ h ⟨rfl, rfl⟩
    exact o.apart h
  fun_induction Outer.pairing o ρ ρ' with
  | case1 ρ x v ρ' y w at' => exact (away h at').elim
  | case2 ρ x v ρ' y w _ ih => rw [ih (Nat.succ.inj h), Env.pairing]
  | case3 ρ ρ' _ at' => exact (away h at').elim
  | case4 ρ ρ' short _ =>
      cases ρ with
      | empty => rfl
      | extend ρ x v =>
          cases ρ' with
          | empty => rfl
          | extend ρ' y w => exact (short ρ x v ρ' y w rfl rfl).elim

/-- Enlarging a correspondence does not change which names of matching environments correspond. -/
theorem Correspondence.Le.pairing {K K' : Correspondence} (le : K.Le K') {ρ ρ' : Env}
    (h : Matches K (.env ρ) (.env ρ')) : K.pairing ρ ρ' = K'.pairing ρ ρ' := by
  unfold Correspondence.pairing
  cases ho : K.outer with
  | some o => rw [le.outer o ho]
  | none =>
      cases K'.outer with
      | none => rfl
      | some o =>
          rcases h.size with h | ⟨_, ho', _⟩
          · exact (o.pairing_of_size h).symm
          · cases ho.symm.trans ho'

theorem Resembles.weaken {K K' : Correspondence} {ρ ρ' : Env} {e e' : Expr}
    (h : K.Code (K.pairing ρ ρ') e e') (hρ : Matches K (.env ρ) (.env ρ')) (le : K.Le K') :
    K'.Code (K'.pairing ρ ρ') e e' :=
  le.pairing hρ ▸ h.mono le.annotated le.binders fun _ _ h => h

theorem Resembles.weakenUnder {K K' : Correspondence} {ρ ρ' : Env} {x x' : Name} {e e' : Expr}
    (h : K.Code ((K.pairing ρ ρ').under x x') e e') (hρ : Matches K (.env ρ) (.env ρ'))
    (le : K.Le K') : K'.Code ((K'.pairing ρ ρ').under x x') e e' :=
  le.pairing hρ ▸ h.mono le.annotated le.binders fun _ _ h => h

theorem Matches.mono {K K' : Correspondence} {p q : Piece} (h : Matches K p q) (le : K.Le K') :
    Matches K' p q := by
  induction h with
  | const c => exact .const c
  | quote a => exact .quote a
  | unary u _ ih => exact .unary u ih
  | binary b _ _ ih₁ ih₂ => exact .binary b ih₁ ih₂
  | equal _ _ _ iht ihl ihr => exact .equal iht ihl ihr
  | quant q hx _ _ ihd ihr => exact .quant q (le.binders _ _ hx) ihd ihr
  | lam hx _ ih => exact .lam (le.binders _ _ hx) ih
  | neutral _ _ iht ihe => exact .neutral iht ihe
  | delayed hc hρ he ih =>
      exact .delayed (le.cells _ _ _ _ _ _ hc) ih (he.weaken hρ le)
  | var hx => exact .var (le.names _ _ hx)
  | app _ _ ihf iha => exact .app ihf iha
  | proj p _ ih => exact .proj p ih
  | fold f _ _ _ iht ihb ihs => exact .fold f iht ihb ihs
  | induct i _ _ _ _ iht ihm ihb ihs => exact .induct i iht ihm ihb ihs
  | transport k _ _ _ iht ihm ihb => exact .transport k iht ihm ihb
  | indAbsurd _ _ iht ihm => exact .indAbsurd iht ihm
  | indVec _ _ _ _ _ ihn iht ihm ihb ihs => exact .indVec ihn iht ihm ihb ihs
  | trans _ _ ihl ihr => exact .trans ihl ihr
  | cong _ _ iht ihf => exact .cong iht ihf
  | typed _ _ iht ihv => exact .typed iht ihv
  | code hx hρ hb ih =>
      exact .code (le.binders _ _ hx) ih (hb.weakenUnder hρ le)
  | family hx _ ih => exact .family (le.binders _ _ hx) ih
  | always _ ih => exact .always ih
  | fixed _ _ ihm ihv => exact .fixed ihm ihv
  | fixedBoth _ _ _ ihm ihv ihw => exact .fixedBoth ihm ihv ihw
  | wrapped u _ ih => exact .wrapped u ih
  | natStep _ ih => exact .natStep ih
  | listStep _ _ ihe ihm => exact .listStep ihe ihm
  | listStepTail _ _ ihm ihv => exact .listStepTail ihm ihv
  | vecMotive _ ih => exact .vecMotive ih
  | vecStep _ _ ihe ihm => exact .vecStep ihe ihm
  | vecStepHead _ _ _ ihe ihm ihn => exact .vecStepHead ihe ihm ihn
  | vecStepTail _ _ _ ihm ihn ihv => exact .vecStepTail ihm ihn ihv
  | equalMotive _ _ iht ihl => exact .equalMotive iht ihl
  | empty => exact .empty
  | outer ho _ ih => exact .outer (le.outer _ ho) ih
  | extend hx _ _ ihρ ihv => exact .extend (le.binders _ _ hx) ihρ ihv

/-- If the names of binders do not differ, matching environments bind the same names. -/
theorem Matches.pairing {K : Correspondence} (hK : ∀ x y, K.binders x y → x = y)
    (whole : K.outer = none) {ρ ρ' : Env} (h : Matches K (.env ρ) (.env ρ')) (x : Name) :
    K.pairing ρ ρ' x x := by
  simp only [Correspondence.pairing, whole]
  generalize hp : Piece.env ρ = p at h
  generalize hq : Piece.env ρ' = q at h
  induction h generalizing ρ ρ' with
  | empty =>
      cases hp
      cases hq
      rfl
  | outer ho => cases whole.symm.trans ho
  | @extend ρ ρ' y y' v v' hy _ _ ih _ =>
      cases hp
      cases hq
      cases hK _ _ hy
      by_cases h : x = y
      · exact .inl ⟨h, h⟩
      · exact .inr ⟨h, h, ih rfl rfl⟩
  | _ => cases hp

namespace Correspondence

theorem pairing_extend {K : Correspondence} {ρ ρ' : Env} (h : Matches K (.env ρ) (.env ρ'))
    (x x' : Name) (v v' : Value) :
    K.pairing (ρ.extend x v) (ρ'.extend x' v') = (K.pairing ρ ρ').under x x' := by
  unfold Correspondence.pairing
  cases ho : K.outer with
  | none => rfl
  | some o =>
      refine if_neg ?_
      rintro ⟨hl, hr⟩
      have left : o.left.size = ρ.size + 1 := congrArg Env.size hl.symm
      have right : o.right.size = ρ'.size + 1 := congrArg Env.size hr.symm
      rcases h.size with h | ⟨_, ho', h⟩
      · exact o.apart (by rw [left, right, h])
      · cases ho.symm.trans ho'
        omega

theorem pairing_outer {K : Correspondence} {o : Outer} (ho : K.outer = some o) :
    K.pairing o.left o.right = o.pairs := by
  simp only [Correspondence.pairing, ho]
  unfold Outer.pairing
  split
  next hl hr => exact if_pos ⟨hl.symm, hr.symm⟩
  next => exact if_pos ⟨rfl, rfl⟩

theorem pairing_empty {K : Correspondence} : K.pairing .empty .empty = Eq := by
  unfold Correspondence.pairing
  cases K.outer with
  | none => rfl
  | some o =>
      refine if_neg ?_
      rintro ⟨hl, hr⟩
      exact o.apart (hl ▸ hr ▸ rfl)

end Correspondence

theorem Matches.piFamily {K : Correspondence} (x : Name) {d d' : Value} {f f' : Family}
    (hd : Matches K (.value d) (.value d')) (hf : Matches K (.family f) (.family f'))
    (hx : x ∈ Family.parameters := by decide) :
    Matches K (.value (.piFamily x d f)) (.value (.piFamily x d' f')) :=
  .quant .pi (K.families x hx) hd (.family (K.families x hx) hf)

theorem Matches.lookup {K : Correspondence} {ρ ρ' : Env} (h : Matches K (.env ρ) (.env ρ'))
    {x x' : Name} (hx : K.pairing ρ ρ' x x') :
    (ρ.get? x = none ∧ ρ'.get? x' = none ∧ x = x') ∨
      ∃ v v', ρ.get? x = some v ∧ ρ'.get? x' = some v' ∧ Matches K (.value v) (.value v') := by
  generalize hp : Piece.env ρ = p at h
  generalize hq : Piece.env ρ' = q at h
  induction h generalizing ρ ρ' with
  | empty =>
      cases hp
      cases hq
      rw [K.pairing_empty] at hx
      exact .inl ⟨rfl, rfl, hx⟩
  | @outer o ho values _ =>
      cases hp
      cases hq
      rw [K.pairing_outer ho] at hx
      rcases o.alike x x' hx with none | ⟨hl, hr⟩
      · exact .inl none
      · obtain ⟨v, hv⟩ := Option.isSome_iff_exists.1 hl
        obtain ⟨v', hv'⟩ := Option.isSome_iff_exists.1 hr
        exact .inr ⟨v, v', hv, hv', values x x' v v' hx hv hv'⟩
  | @extend ρ ρ' y y' v v' _ hρ hv ih _ =>
      cases hp
      cases hq
      rw [K.pairing_extend hρ] at hx
      rcases hx with ⟨rfl, rfl⟩ | ⟨hne, hne', hx⟩
      · exact .inr ⟨v, v', Env.get?_extend_self _ _ _, Env.get?_extend_self _ _ _, hv⟩
      · rw [Env.get?_extend_of_ne _ _ (Ne.symm hne), Env.get?_extend_of_ne _ _ (Ne.symm hne')]
        exact ih hx rfl rfl
  | _ => cases hp

end TypeKernel
