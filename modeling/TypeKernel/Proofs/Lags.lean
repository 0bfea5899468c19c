/-
# TypeKernel.Proofs.Lags — values that were evaluated earlier

An expression in the place of a variable is evaluated where the variable would only be looked up. So a
function applied to an operand and its body with the operand put in give values that differ in more than
names: where one side has a value, the other may have it still delayed, and where one side's code has an
expression, the other side's has a variable and its environment the value.

`Lags V v w` allows for both. The right value `w` lags behind the left value `v`: it has the same form, or it is
delayed and evaluates to something that lags behind `v`. Code on the left expands code on the right
(`Expands`), such that the value of every expression on the left is met by the entry of the name that it
stands for. `V` relates the names of free variables, and the names of binders do not matter.

An expression that stands for a variable may be annotated, and annotations are what stuck eliminators need. If
`loose` holds this is allowed. Then the right side may fail where the left side goes on.
-/
import TypeKernel.Proofs.Substitution
import TypeKernel.Proofs.TrackedByName

namespace TypeKernel

set_option autoImplicit false

/-- How far the two sides may differ. -/
structure Slack where
  /-- Expressions that stand for variables may be annotated, so that the right side may fail. -/
  loose : Prop
  /-- Binders have the same names on both sides. -/
  strict : Prop

/-- What an expression gives if it may be postponed: the value of a cheap one, or a delayed value. -/
def Env.later? (ρ : Env) : Expr → Option Value
  | .var x => ρ.get? x
  | .quote a => some (.quote a)
  | .const c => some (.const c)
  | e => some (.delayed 0 ρ e)

/-- The second expression is the first one with annotations around it. -/
inductive Expr.Clad : Expr → Expr → Prop
  | bare (e : Expr) : Clad e e
  | the {e e'} (t : Expr) (h : Clad e e') : Clad e (.the t e')

/-- Annotations can be taken from what stands for a name, and are there only if `loose` holds. -/
def Placing.Bares (loose : Prop) (σ : Placing) : Prop :=
  ∀ t c x, σ (.the t c) x → loose ∧ σ c x

theorem Placing.Bares.under {loose : Prop} {σ : Placing} (h : σ.Bares loose) (y y' : Name) :
    (σ.under y y').Bares loose := by
  rintro t c x (⟨here, -⟩ | ⟨hx, hy, ha⟩)
  · cases here
  · obtain ⟨hl, hc⟩ := h t c x ha
    exact ⟨hl, .inr ⟨hx, fun hc => hy (List.mem_append_right _ hc), hc⟩⟩

/-- The right value has the same form as the left one, or is still delayed. -/
inductive Lags (slack : Slack) (V : Pairing) : Piece → Piece → Prop
  | const (c : Const) : Lags slack V (.value (.const c)) (.value (.const c))
  | quote (a : String) : Lags slack V (.value (.quote a)) (.value (.quote a))
  | unary {v v'} (u : Unary) (h : Lags slack V (.value v) (.value v')) :
      Lags slack V (.value (.unary u v)) (.value (.unary u v'))
  | binary {v₁ v₁' v₂ v₂'} (b : Binary) (h₁ : Lags slack V (.value v₁) (.value v₁'))
      (h₂ : Lags slack V (.value v₂) (.value v₂')) :
      Lags slack V (.value (.binary b v₁ v₂)) (.value (.binary b v₁' v₂'))
  | equal {t t' l l' r r'} (ht : Lags slack V (.value t) (.value t'))
      (hl : Lags slack V (.value l) (.value l')) (hr : Lags slack V (.value r) (.value r')) :
      Lags slack V (.value (.equal t l r)) (.value (.equal t' l' r'))
  | quant {x x' d d' r r'} (q : Quantifier) (hx : slack.strict → x = x')
      (hd : Lags slack V (.value d) (.value d')) (hr : Lags slack V (.closure r) (.closure r')) :
      Lags slack V (.value (.quant q x d r)) (.value (.quant q x' d' r'))
  | lam {x x' b b'} (hx : slack.strict → x = x') (hb : Lags slack V (.closure b) (.closure b')) :
      Lags slack V (.value (.lam x b)) (.value (.lam x' b'))
  | neutral {t t' e e'} (ht : Lags slack V (.value t) (.value t'))
      (he : Lags slack V (.neutral e) (.neutral e')) :
      Lags slack V (.value (.neutral t e)) (.value (.neutral t' e'))
  | delayed {c c' ρ ρ' e e' e''} (σ : Placing) (bares : σ.Bares slack.loose)
      (entries : ∀ a x w w', σ a x → ρ.later? a = some w → ρ'.get? x = some w' →
        Lags slack V (.value w) (.value w'))
      (bound : ∀ a x, σ a x → (ρ.later? a).isSome → (ρ'.get? x).isSome) (he : Expands slack.strict σ e e')
      (clad : Expr.Clad e' e'') :
      Lags slack V (.value (.delayed c ρ e)) (.value (.delayed c' ρ' e''))
  /-- The left value is there already. -/
  | late {v c ρ e} (values : ∀ i w, run i (.eval ρ e) = (.ok w : ByName Value) →
        Lags slack V (.value v) (.value w))
      (ends : slack.loose ∨ Reaches slack.strict (fun _ => True) fun i => run i (.eval ρ e)) :
      Lags slack V (.value v) (.value (.delayed c ρ e))
  | var {x x'} (hx : V x x') : Lags slack V (.neutral (.var x)) (.neutral (.var x'))
  | app {f f' a a'} (hf : Lags slack V (.neutral f) (.neutral f'))
      (ha : Lags slack V (.typed a) (.typed a')) :
      Lags slack V (.neutral (.app f a)) (.neutral (.app f' a'))
  | proj {t t'} (p : Projection) (ht : Lags slack V (.neutral t) (.neutral t')) :
      Lags slack V (.neutral (.proj p t)) (.neutral (.proj p t'))
  | fold {t t' b b' s s'} (f : Fold) (ht : Lags slack V (.neutral t) (.neutral t'))
      (hb : Lags slack V (.typed b) (.typed b')) (hs : Lags slack V (.typed s) (.typed s')) :
      Lags slack V (.neutral (.fold f t b s)) (.neutral (.fold f t' b' s'))
  | induct {t t' m m' b b' s s'} (i : Induction) (ht : Lags slack V (.neutral t) (.neutral t'))
      (hm : Lags slack V (.typed m) (.typed m')) (hb : Lags slack V (.typed b) (.typed b'))
      (hs : Lags slack V (.typed s) (.typed s')) :
      Lags slack V (.neutral (.induct i t m b s)) (.neutral (.induct i t' m' b' s'))
  | transport {t t' m m' b b'} (k : Transport) (ht : Lags slack V (.neutral t) (.neutral t'))
      (hm : Lags slack V (.typed m) (.typed m')) (hb : Lags slack V (.typed b) (.typed b')) :
      Lags slack V (.neutral (.transport k t m b)) (.neutral (.transport k t' m' b'))
  | indAbsurd {t t' m m'} (ht : Lags slack V (.neutral t) (.neutral t'))
      (hm : Lags slack V (.typed m) (.typed m')) :
      Lags slack V (.neutral (.indAbsurd t m)) (.neutral (.indAbsurd t' m'))
  | indVec {n n' t t' m m' b b' s s'} (hn : Lags slack V (.typed n) (.typed n'))
      (ht : Lags slack V (.neutral t) (.neutral t')) (hm : Lags slack V (.typed m) (.typed m'))
      (hb : Lags slack V (.typed b) (.typed b')) (hs : Lags slack V (.typed s) (.typed s')) :
      Lags slack V (.neutral (.indVec n t m b s)) (.neutral (.indVec n' t' m' b' s'))
  | trans {l l' r r'} (hl : Lags slack V (.typed l) (.typed l'))
      (hr : Lags slack V (.typed r) (.typed r')) :
      Lags slack V (.neutral (.trans l r)) (.neutral (.trans l' r'))
  | cong {t t' f f'} (ht : Lags slack V (.neutral t) (.neutral t'))
      (hf : Lags slack V (.typed f) (.typed f')) :
      Lags slack V (.neutral (.cong t f)) (.neutral (.cong t' f'))
  | typed {t t' v v'} (ht : Lags slack V (.value t) (.value t'))
      (hv : Lags slack V (.value v) (.value v')) :
      Lags slack V (.typed (.mk t v)) (.typed (.mk t' v'))
  | code {ρ ρ' x x' b b'} (σ : Placing) (bares : σ.Bares slack.loose)
      (entries : ∀ a z w w', σ a z → ρ.later? a = some w → ρ'.get? z = some w' →
        Lags slack V (.value w) (.value w'))
      (bound : ∀ a z, σ a z → (ρ.later? a).isSome → (ρ'.get? z).isSome)
      (hb : Expands slack.strict (σ.under x x') b b') :
      Lags slack V (.closure (.code ρ x b)) (.closure (.code ρ' x' b'))
  | family {x x' f f'} (hf : Lags slack V (.family f) (.family f')) :
      Lags slack V (.closure (.family x f)) (.closure (.family x' f'))
  | always {t t'} (ht : Lags slack V (.value t) (.value t')) :
      Lags slack V (.family (.always t)) (.family (.always t'))
  | fixed {m m' v v'} (hm : Lags slack V (.value m) (.value m'))
      (hv : Lags slack V (.value v) (.value v')) :
      Lags slack V (.family (.fixed m v)) (.family (.fixed m' v'))
  | fixedBoth {m m' v v' w w'} (hm : Lags slack V (.value m) (.value m'))
      (hv : Lags slack V (.value v) (.value v')) (hw : Lags slack V (.value w) (.value w')) :
      Lags slack V (.family (.fixedBoth m v w)) (.family (.fixedBoth m' v' w'))
  | wrapped {m m'} (u : Unary) (hm : Lags slack V (.value m) (.value m')) :
      Lags slack V (.family (.wrapped u m)) (.family (.wrapped u m'))
  | natStep {m m'} (hm : Lags slack V (.value m) (.value m')) :
      Lags slack V (.family (.natStep m)) (.family (.natStep m'))
  | listStep {e e' m m'} (he : Lags slack V (.value e) (.value e'))
      (hm : Lags slack V (.value m) (.value m')) :
      Lags slack V (.family (.listStep e m)) (.family (.listStep e' m'))
  | listStepTail {m m' v v'} (hm : Lags slack V (.value m) (.value m'))
      (hv : Lags slack V (.value v) (.value v')) :
      Lags slack V (.family (.listStepTail m v)) (.family (.listStepTail m' v'))
  | vecMotive {e e'} (he : Lags slack V (.value e) (.value e')) :
      Lags slack V (.family (.vecMotive e)) (.family (.vecMotive e'))
  | vecStep {e e' m m'} (he : Lags slack V (.value e) (.value e'))
      (hm : Lags slack V (.value m) (.value m')) :
      Lags slack V (.family (.vecStep e m)) (.family (.vecStep e' m'))
  | vecStepHead {e e' m m' n n'} (he : Lags slack V (.value e) (.value e'))
      (hm : Lags slack V (.value m) (.value m')) (hn : Lags slack V (.value n) (.value n')) :
      Lags slack V (.family (.vecStepHead e m n)) (.family (.vecStepHead e' m' n'))
  | vecStepTail {m m' n n' v v'} (hm : Lags slack V (.value m) (.value m'))
      (hn : Lags slack V (.value n) (.value n')) (hv : Lags slack V (.value v) (.value v')) :
      Lags slack V (.family (.vecStepTail m n v)) (.family (.vecStepTail m' n' v'))
  | equalMotive {t t' l l'} (ht : Lags slack V (.value t) (.value t'))
      (hl : Lags slack V (.value l) (.value l')) :
      Lags slack V (.family (.equalMotive t l)) (.family (.equalMotive t' l'))

/-- The right value lags behind the left one. -/
abbrev Trails (slack : Slack) (V : Pairing) (v v' : Value) : Prop :=
  Lags slack V (.value v) (.value v')

/-- The values of expressions on the left are met by the entries of the names that they stand for. -/
structure Meets (slack : Slack) (V : Pairing) (σ : Placing) (ρ ρ' : Env) : Prop where
  bares : σ.Bares slack.loose
  entries : ∀ a x w w', σ a x → ρ.later? a = some w → ρ'.get? x = some w' → Trails slack V w w'
  bound : ∀ a x, σ a x → (ρ.later? a).isSome → (ρ'.get? x).isSome

/-- Values of one form, with parts that lag behind. This is what is left when delayed values are forced. -/
inductive Formed (slack : Slack) (V : Pairing) : Value → Value → Prop
  | const (c : Const) : Formed slack V (.const c) (.const c)
  | quote (a : String) : Formed slack V (.quote a) (.quote a)
  | unary {v v'} (u : Unary) (h : Trails slack V v v') : Formed slack V (.unary u v) (.unary u v')
  | binary {v₁ v₁' v₂ v₂'} (b : Binary) (h₁ : Trails slack V v₁ v₁') (h₂ : Trails slack V v₂ v₂') :
      Formed slack V (.binary b v₁ v₂) (.binary b v₁' v₂')
  | equal {t t' l l' r r'} (ht : Trails slack V t t') (hl : Trails slack V l l')
      (hr : Trails slack V r r') : Formed slack V (.equal t l r) (.equal t' l' r')
  | quant {x x' d d' r r'} (q : Quantifier) (hx : slack.strict → x = x') (hd : Trails slack V d d')
      (hr : Lags slack V (.closure r) (.closure r')) : Formed slack V (.quant q x d r) (.quant q x' d' r')
  | lam {x x' b b'} (hx : slack.strict → x = x') (hb : Lags slack V (.closure b) (.closure b')) :
      Formed slack V (.lam x b) (.lam x' b')
  | neutral {t t' e e'} (ht : Trails slack V t t') (he : Lags slack V (.neutral e) (.neutral e')) :
      Formed slack V (.neutral t e) (.neutral t' e')

theorem Formed.trails {slack : Slack} {V : Pairing} {v v' : Value} (h : Formed slack V v v') :
    Trails slack V v v' := by
  cases h with
  | const c => exact .const c
  | quote a => exact .quote a
  | unary u h => exact .unary u h
  | binary b h₁ h₂ => exact .binary b h₁ h₂
  | equal ht hl hr => exact .equal ht hl hr
  | quant q hx hd hr => exact .quant q hx hd hr
  | lam hx hb => exact .lam hx hb
  | neutral ht he => exact .neutral ht he

/-- More names may be free. -/
theorem Lags.mono {slack : Slack} {V W : Pairing} {p q : Piece} (h : Lags slack V p q)
    (hV : ∀ x x', V x x' → W x x') : Lags slack W p q := by
  induction h with
  | const c => exact .const c
  | quote a => exact .quote a
  | unary u _ ih => exact .unary u ih
  | binary b _ _ ih₁ ih₂ => exact .binary b ih₁ ih₂
  | equal _ _ _ iht ihl ihr => exact .equal iht ihl ihr
  | quant q hx _ _ ihd ihr => exact .quant q hx ihd ihr
  | lam hx _ ih => exact .lam hx ih
  | neutral _ _ iht ihe => exact .neutral iht ihe
  | delayed σ bares _ bound he clad ih => exact .delayed σ bares ih bound he clad
  | late _ ends ih => exact .late ih ends
  | var hx => exact .var (hV _ _ hx)
  | app _ _ ihf iha => exact .app ihf iha
  | proj p _ ih => exact .proj p ih
  | fold f _ _ _ iht ihb ihs => exact .fold f iht ihb ihs
  | induct i _ _ _ _ iht ihm ihb ihs => exact .induct i iht ihm ihb ihs
  | transport k _ _ _ iht ihm ihb => exact .transport k iht ihm ihb
  | indAbsurd _ _ iht ihm => exact .indAbsurd iht ihm
  | indVec _ _ _ _ _ ihn iht ihm ihb ihs => exact .indVec ihn iht ihm ihb ihs
  | trans _ _ ihl ihr => exact .trans ihl ihr
  | cong _ _ iht ihf => exact .cong iht ihf
  | typed _ _ iht ihv => exact .typed iht ihv
  | code σ bares _ bound hb ih => exact .code σ bares ih bound hb
  | family _ ih => exact .family ih
  | always _ ih => exact .always ih
  | fixed _ _ ihm ihv => exact .fixed ihm ihv
  | fixedBoth _ _ _ ihm ihv ihw => exact .fixedBoth ihm ihv ihw
  | wrapped u _ ih => exact .wrapped u ih
  | natStep _ ih => exact .natStep ih
  | listStep _ _ ihe ihm => exact .listStep ihe ihm
  | listStepTail _ _ ihm ihv => exact .listStepTail ihm ihv
  | vecMotive _ ih => exact .vecMotive ih
  | vecStep _ _ ihe ihm => exact .vecStep ihe ihm
  | vecStepHead _ _ _ ihe ihm ihn => exact .vecStepHead ihe ihm ihn
  | vecStepTail _ _ _ ihm ihn ihv => exact .vecStepTail ihm ihn ihv
  | equalMotive _ _ iht ihl => exact .equalMotive iht ihl

/-- The right value has the form of the left one, or it is delayed beside a delayed one, or it comes late. -/
@[elab_as_elim]
theorem Trails.induct {slack : Slack} {V : Pairing}
    {motive : (v v' : Value) → Trails slack V v v' → Prop}
    (formed : ∀ {v v'} (h : Formed slack V v v'), motive v v' h.trails)
    (delayed : ∀ {c c' ρ ρ' e e' e''} {σ : Placing} (meets : Meets slack V σ ρ ρ')
      (_ : ∀ a x w w' (hσ : σ a x) (hw : ρ.later? a = some w) (hw' : ρ'.get? x = some w'),
        motive w w' (meets.entries a x w w' hσ hw hw'))
      (he : Expands slack.strict σ e e') (clad : Expr.Clad e' e''),
      motive (.delayed c ρ e) (.delayed c' ρ' e'')
        (.delayed σ meets.bares meets.entries meets.bound he clad))
    (late : ∀ {v c ρ e} (values : ∀ i w, run i (.eval ρ e) = (.ok w : ByName Value) →
        Trails slack V v w) (ends : slack.loose ∨ Reaches slack.strict (fun _ => True) fun i => run i (.eval ρ e))
      (_ : ∀ i w (hw : run i (.eval ρ e) = (.ok w : ByName Value)), motive v w (values i w hw)),
      motive v (.delayed c ρ e) (.late values ends))
    {v v' : Value} (h : Trails slack V v v') : motive v v' h := by
  have along : ∀ {p q : Piece}, Lags slack V p q → ∀ {v v' : Value}, p = .value v → q = .value v' →
      ∀ h : Trails slack V v v', motive v v' h := by
    intro p q h
    induction h with
    | const c => rintro _ _ ⟨⟩ ⟨⟩ _; exact formed (.const c)
    | quote a => rintro _ _ ⟨⟩ ⟨⟩ _; exact formed (.quote a)
    | unary u h => rintro _ _ ⟨⟩ ⟨⟩ _; exact formed (.unary u h)
    | binary b h₁ h₂ => rintro _ _ ⟨⟩ ⟨⟩ _; exact formed (.binary b h₁ h₂)
    | equal ht hl hr => rintro _ _ ⟨⟩ ⟨⟩ _; exact formed (.equal ht hl hr)
    | quant q hx hd hr => rintro _ _ ⟨⟩ ⟨⟩ _; exact formed (.quant q hx hd hr)
    | lam hx hb => rintro _ _ ⟨⟩ ⟨⟩ _; exact formed (.lam hx hb)
    | neutral ht he => rintro _ _ ⟨⟩ ⟨⟩ _; exact formed (.neutral ht he)
    | delayed σ bares entries bound he clad ih =>
        rintro _ _ ⟨⟩ ⟨⟩ _
        exact delayed ⟨bares, entries, bound⟩
          (fun a x w w' hσ hw hw' => ih a x w w' hσ hw hw' rfl rfl _) he clad
    | late values ends ih =>
        rintro _ _ ⟨⟩ ⟨⟩ _
        exact late values ends fun i w hw => ih i w hw rfl rfl _
    | _ => rintro _ _ ⟨⟩
  exact along h rfl rfl h

/-! ## Environments -/

/-- A cheap expression does not see entries for other names, and any other expression is postponed. -/
theorem Env.later?_extend (a : Expr) :
    (∀ (ρ : Env) (y : Name) (u : Value), y ∉ a.freeNames → (ρ.extend y u).later? a = ρ.later? a) ∨
      ∀ ρ : Env, ρ.later? a = some (.delayed 0 ρ a) := by
  cases a with
  | var x => exact .inl fun ρ y u hy => Env.get?_extend_of_ne ρ u fun heq => hy (heq ▸ .head _)
  | quote _ | const _ => exact .inl fun _ _ _ _ => rfl
  | _ => exact .inr fun _ => rfl

/-- What is postponed on the left does not see entries for other names. -/
theorem Lags.extend {slack : Slack} {V : Pairing} {c : Nat} {ρ : Env} {a : Expr} {w : Value}
    (h : Trails slack V (.delayed c ρ a) w) {y : Name} (hy : y ∉ a.freeNames) (u : Value) :
    Trails slack V (.delayed c (ρ.extend y u) a) w := by
  generalize hv : Value.delayed c ρ a = v at h
  induction h using Trails.induct generalizing c a with
  | formed h => cases h <;> cases hv
  | @delayed _ _ _ _ _ _ _ σ meets ih he clad =>
      cases hv
      -- Only expressions without the name stand for anything here.
      refine .delayed (fun b x => σ b x ∧ y ∉ b.freeNames) ?_ ?_ ?_ (he.narrow ?_) clad
      · rintro t d x ⟨hσ, free⟩
        obtain ⟨hl, hd⟩ := meets.bares t d x hσ
        exact ⟨hl, hd, fun hd => free (List.mem_append_right _ hd)⟩
      · rintro b x v v' ⟨hσ, free⟩ hv hv'
        rcases Env.later?_extend b with same | postponed
        · exact meets.entries b x v v' hσ (same ρ y u free ▸ hv) hv'
        · cases (postponed _).symm.trans hv
          exact ih b x _ v' hσ (postponed ρ) hv' free rfl
      · rintro b x ⟨hσ, free⟩ hb
        refine meets.bound b x hσ ?_
        rcases Env.later?_extend b with same | postponed
        · exact same ρ y u free ▸ hb
        · exact postponed ρ ▸ rfl
      · exact fun b x hσ sub => ⟨hσ, fun free => hy (sub free)⟩
  | late _ ends ih => exact .late (fun i w hw => ih i w hw hy hv) ends

namespace Meets

variable {slack : Slack} {V : Pairing} {σ : Placing} {ρ ρ' : Env}

/-- Less stands for anything. -/
theorem narrow (h : Meets slack V σ ρ ρ') {τ : Placing} (bares : τ.Bares slack.loose)
    (le : ∀ a x, τ a x → σ a x) : Meets slack V τ ρ ρ' :=
  ⟨bares, fun a x w w' hτ => h.entries a x w w' (le a x hτ), fun a x hτ => h.bound a x (le a x hτ)⟩

theorem extend (h : Meets slack V σ ρ ρ') (y y' : Name) {v v' : Value} (hv : Trails slack V v v') :
    Meets slack V (σ.under y y') (ρ.extend y v) (ρ'.extend y' v') where
  bares := h.bares.under y y'
  entries := by
    rintro a x w w' (⟨rfl, rfl⟩ | ⟨hx, hy, hσ⟩) hw hw'
    · cases (Env.get?_extend_self ρ y v).symm.trans hw
      cases (Env.get?_extend_self ρ' x v').symm.trans hw'
      exact hv
    · rw [Env.get?_extend_of_ne _ _ (Ne.symm hx)] at hw'
      rcases Env.later?_extend a with same | postponed
      · exact h.entries a x w w' hσ (same ρ y v hy ▸ hw) hw'
      · cases (postponed _).symm.trans hw
        exact (h.entries a x _ w' hσ (postponed ρ) hw').extend hy v
  bound := by
    rintro a x (⟨rfl, rfl⟩ | ⟨hx, hy, hσ⟩) ha
    · rw [Env.get?_extend_self]
      rfl
    · rw [Env.get?_extend_of_ne _ _ (Ne.symm hx)]
      refine h.bound a x hσ ?_
      rcases Env.later?_extend a with same | postponed
      · exact same ρ y v hy ▸ ha
      · exact postponed ρ ▸ rfl

theorem delayed (h : Meets slack V σ ρ ρ') {e e' : Expr} (he : Expands slack.strict σ e e') (c c' : Nat) :
    Trails slack V (.delayed c ρ e) (.delayed c' ρ' e') :=
  .delayed σ h.bares h.entries h.bound he (.bare e')

theorem code (h : Meets slack V σ ρ ρ') {y y' : Name} {b b' : Expr} (hb : Expands slack.strict (σ.under y y') b b') :
    Lags slack V (.closure (.code ρ y b)) (.closure (.code ρ' y' b')) :=
  .code σ h.bares h.entries h.bound hb

end Meets

/-! ## Values that match -/

/-- Variables stand for variables. -/
def Pairing.placing (P : Pairing) : Placing :=
  fun a x' => ∃ x, a = .var x ∧ P x x'

theorem Pairing.placing_bares (loose : Prop) (P : Pairing) : P.placing.Bares loose := by
  rintro t c x ⟨_, h, _⟩
  cases h

/-- Values that match do not lag. -/
theorem Matches.lags {K : Correspondence} (bare : ¬ K.annotated) {V : Pairing}
    (names : ∀ x x', K.names x x' → V x x') {slack : Slack}
    (binders : slack.strict → ∀ x x', K.binders x x' → x = x') {p q : Piece} (h : Matches K p q) :
    match p, q with
    | .env ρ, .env ρ' => Meets slack V (K.pairing ρ ρ').placing ρ ρ'
    | p, q => Lags slack V p q := by
  have code : ∀ {P : Pairing} {e e' : Expr}, K.Code P e e' → Alike K.binders P e e' := fun he =>
    he.mono bare (fun _ _ h => h) fun _ _ h => h
  have under : ∀ {P : Pairing} {y y' : Name} (x x' : Name), P.under y y' x x' →
      P.placing.under y y' (.var x) x' := by
    rintro P y y' x x' (⟨rfl, rfl⟩ | ⟨hx, hx', hp⟩)
    · exact .inl ⟨rfl, rfl⟩
    · exact .inr ⟨hx', fun hy => hx (List.mem_singleton.1 hy).symm, x, rfl, hp⟩
  induction h with
  | const c => exact .const c
  | quote a => exact .quote a
  | unary u _ ih => exact .unary u ih
  | binary b _ _ ih₁ ih₂ => exact .binary b ih₁ ih₂
  | equal _ _ _ iht ihl ihr => exact .equal iht ihl ihr
  | quant q hx _ _ ihd ihr => exact .quant q (binders · _ _ hx) ihd ihr
  | lam hx _ ih => exact .lam (binders · _ _ hx) ih
  | neutral _ _ iht ihe => exact .neutral iht ihe
  | delayed _ _ he ih => exact ih.delayed ((code he).expands binders fun x x' hx => ⟨x, rfl, hx⟩) _ _
  | var hx => exact .var (names _ _ hx)
  | app _ _ ihf iha => exact .app ihf iha
  | proj p _ ih => exact .proj p ih
  | fold f _ _ _ iht ihb ihs => exact .fold f iht ihb ihs
  | induct i _ _ _ _ iht ihm ihb ihs => exact .induct i iht ihm ihb ihs
  | transport k _ _ _ iht ihm ihb => exact .transport k iht ihm ihb
  | indAbsurd _ _ iht ihm => exact .indAbsurd iht ihm
  | indVec _ _ _ _ _ ihn iht ihm ihb ihs => exact .indVec ihn iht ihm ihb ihs
  | trans _ _ ihl ihr => exact .trans ihl ihr
  | cong _ _ iht ihf => exact .cong iht ihf
  | typed _ _ iht ihv => exact .typed iht ihv
  | code _ _ hb ih => exact ih.code ((code hb).expands binders under)
  | family _ _ ih => exact .family ih
  | always _ ih => exact .always ih
  | fixed _ _ ihm ihv => exact .fixed ihm ihv
  | fixedBoth _ _ _ ihm ihv ihw => exact .fixedBoth ihm ihv ihw
  | wrapped u _ ih => exact .wrapped u ih
  | natStep _ ih => exact .natStep ih
  | listStep _ _ ihe ihm => exact .listStep ihe ihm
  | listStepTail _ _ ihm ihv => exact .listStepTail ihm ihv
  | vecMotive _ ih => exact .vecMotive ih
  | vecStep _ _ ihe ihm => exact .vecStep ihe ihm
  | vecStepHead _ _ _ ihe ihm ihn => exact .vecStepHead ihe ihm ihn
  | vecStepTail _ _ _ ihm ihn ihv => exact .vecStepTail ihm ihn ihv
  | equalMotive _ _ iht ihl => exact .equalMotive iht ihl
  | empty =>
      refine ⟨Pairing.placing_bares _ _, ?_, ?_⟩
      · rintro _ x w w' ⟨z, rfl, _⟩ hw
        cases hw
      · rintro _ x ⟨z, rfl, _⟩ hz
        cases hz
  | @outer o ho _ ih =>
      refine ⟨Pairing.placing_bares _ _, ?_, ?_⟩
      · rintro _ x' w w' ⟨x, rfl, hx⟩ hw hw'
        exact ih x x' w w' (K.pairing_outer ho ▸ hx) hw hw'
      · rintro _ x' ⟨x, rfl, hx⟩ hw
        rcases o.alike x x' (K.pairing_outer ho ▸ hx) with ⟨none, -⟩ | ⟨-, right⟩
        · exact absurd hw (by simp [Env.later?, none])
        · exact right
  | extend _ hρ _ ihρ ihv =>
      refine (ihρ.extend _ _ ihv).narrow (Pairing.placing_bares _ _) ?_
      rintro _ x' ⟨x, rfl, hx⟩
      rw [K.pairing_extend hρ] at hx
      exact under x x' hx

end TypeKernel
