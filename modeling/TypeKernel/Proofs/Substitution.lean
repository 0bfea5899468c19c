/-
# TypeKernel.Proofs.Substitution — substitution that avoids capture

The kernel never substitutes: it evaluates the body of a function in a longer environment. Here is the textbook
operation to compare it with. `Expr.subst` replaces all free names of an expression at once. A binder is
renamed only if its name is free in something that is put below it, so that nothing is captured.

`Expands σ e e'` says what is left of this when names are taken away: `e` is `e'` with expressions in the places
of free names, as `σ` allows, and with any names for binders. An expression after substitution expands the one
before it (`Expr.expands_subst`), and so does an expression with other names for its binders
(`Resembles.expands`).
-/
import TypeKernel.Expr.Scope
import TypeKernel.Proofs.Nameless
import TypeKernel.Proofs.Reads
import TypeKernel.Proofs.Matches

namespace TypeKernel

set_option autoImplicit false

namespace Expr

/-! ## Free names -/

/-- The names of free variables, with repetitions. -/
def freeNames : Expr → List Name
  | .var x => [x]
  | .quote _ | .const _ | .todo | .malformed _ => []
  | .unary _ e | .proj _ e => e.freeNames
  | .binary _ e₁ e₂ => e₁.freeNames ++ e₂.freeNames
  | .equal t l r => t.freeNames ++ (l.freeNames ++ r.freeNames)
  | .quant _ x d r => d.freeNames ++ r.freeNames.filter (· ≠ x)
  | .lam x b => b.freeNames.filter (· ≠ x)
  | .the t e => t.freeNames ++ e.freeNames
  | .app f a => f.freeNames ++ a.freeNames
  | .fold _ t b s => t.freeNames ++ (b.freeNames ++ s.freeNames)
  | .induct _ t m b s => t.freeNames ++ (m.freeNames ++ (b.freeNames ++ s.freeNames))
  | .transport _ t m b => t.freeNames ++ (m.freeNames ++ b.freeNames)
  | .indAbsurd t m => t.freeNames ++ m.freeNames
  | .indVec n t m b s => n.freeNames ++ (t.freeNames ++ (m.freeNames ++ (b.freeNames ++ s.freeNames)))
  | .trans l r => l.freeNames ++ r.freeNames
  | .cong t f => t.freeNames ++ f.freeNames

/-! ## Substitution -/

/-- The binder `y` takes this name when the free names of its scope `b` are replaced. -/
def binderFor (τ : Name → Expr) (y : Name) (b : Expr) : Name :=
  Style.ofHints.pick ((b.freeNames.filter (· ≠ y)).flatMap fun z => (τ z).freeNames) y

/-- What replaces the names in the scope of the binder `y`, which is now called `y'`. -/
def inScope (τ : Name → Expr) (y y' : Name) : Name → Expr :=
  fun z => if z = y then .var y' else τ z

/-- Replace all free names at once. -/
def subst : (Name → Expr) → Expr → Expr
  | τ, .var x => τ x
  | _, .quote a => .quote a
  | _, .const c => .const c
  | τ, .unary u e => .unary u (e.subst τ)
  | τ, .binary b e₁ e₂ => .binary b (e₁.subst τ) (e₂.subst τ)
  | τ, .equal t l r => .equal (t.subst τ) (l.subst τ) (r.subst τ)
  | τ, .quant q y d r =>
      .quant q (r.binderFor τ y) (d.subst τ) (r.subst (inScope τ y (r.binderFor τ y)))
  | τ, .lam y b => .lam (b.binderFor τ y) (b.subst (inScope τ y (b.binderFor τ y)))
  | τ, .the t e => .the (t.subst τ) (e.subst τ)
  | τ, .app f a => .app (f.subst τ) (a.subst τ)
  | τ, .proj p t => .proj p (t.subst τ)
  | τ, .fold f t b s => .fold f (t.subst τ) (b.subst τ) (s.subst τ)
  | τ, .induct i t m b s => .induct i (t.subst τ) (m.subst τ) (b.subst τ) (s.subst τ)
  | τ, .transport k t m b => .transport k (t.subst τ) (m.subst τ) (b.subst τ)
  | τ, .indAbsurd t m => .indAbsurd (t.subst τ) (m.subst τ)
  | τ, .indVec n t m b s => .indVec (n.subst τ) (t.subst τ) (m.subst τ) (b.subst τ) (s.subst τ)
  | τ, .trans l r => .trans (l.subst τ) (r.subst τ)
  | τ, .cong t f => .cong (t.subst τ) (f.subst τ)
  | _, .todo => .todo
  | _, .malformed m => .malformed m

/-- The expression with `a` for the free variable `x`. -/
def replace (b : Expr) (x : Name) (a : Expr) : Expr :=
  b.subst fun z => if z = x then a else .var z

-- The binder is in the way of the `y` that is put below it.
example : (Expr.lam "y" (.app (.var "x") (.var "y"))).replace "x" (.var "y") =
    .lam "y₁" (.app (.var "y") (.var "y₁")) := by cbv

end Expr

/-! ## Code with expressions for names -/

/-- Which expressions on the left stand for which names on the right. -/
abbrev Placing := Expr → Name → Prop

/-- Below a binder on either side. The binder on the left must not capture anything. -/
def Placing.under (σ : Placing) (y y' : Name) : Placing :=
  fun a x => a = .var y ∧ x = y' ∨ x ≠ y' ∧ y ∉ a.freeNames ∧ σ a x

/-- The left expression is the right one with expressions for its free names. The names of binders do not
matter. -/
inductive Expands (strict : Prop) : Placing → Expr → Expr → Prop
  | var {σ a x} (h : σ a x) : Expands strict σ a (.var x)
  | quote {σ} (a : String) : Expands strict σ (.quote a) (.quote a)
  | const {σ} (c : Const) : Expands strict σ (.const c) (.const c)
  | unary {σ e e'} (u : Unary) (h : Expands strict σ e e') : Expands strict σ (.unary u e) (.unary u e')
  | binary {σ e₁ e₁' e₂ e₂'} (b : Binary) (h₁ : Expands strict σ e₁ e₁') (h₂ : Expands strict σ e₂ e₂') :
      Expands strict σ (.binary b e₁ e₂) (.binary b e₁' e₂')
  | equal {σ t t' l l' r r'} (ht : Expands strict σ t t') (hl : Expands strict σ l l') (hr : Expands strict σ r r') :
      Expands strict σ (.equal t l r) (.equal t' l' r')
  | quant {σ y y' d d' r r'} (q : Quantifier) (hy : strict → y = y') (hd : Expands strict σ d d')
      (hr : Expands strict (σ.under y y') r r') :
      Expands strict σ (.quant q y d r) (.quant q y' d' r')
  | lam {σ y y' b b'} (hy : strict → y = y') (hb : Expands strict (σ.under y y') b b') :
      Expands strict σ (.lam y b) (.lam y' b')
  | the {σ t t' e e'} (ht : Expands strict σ t t') (he : Expands strict σ e e') : Expands strict σ (.the t e) (.the t' e')
  | app {σ f f' a a'} (hf : Expands strict σ f f') (ha : Expands strict σ a a') : Expands strict σ (.app f a) (.app f' a')
  | proj {σ t t'} (p : Projection) (ht : Expands strict σ t t') : Expands strict σ (.proj p t) (.proj p t')
  | fold {σ t t' b b' s s'} (f : Fold) (ht : Expands strict σ t t') (hb : Expands strict σ b b')
      (hs : Expands strict σ s s') : Expands strict σ (.fold f t b s) (.fold f t' b' s')
  | induct {σ t t' m m' b b' s s'} (i : Induction) (ht : Expands strict σ t t') (hm : Expands strict σ m m')
      (hb : Expands strict σ b b') (hs : Expands strict σ s s') :
      Expands strict σ (.induct i t m b s) (.induct i t' m' b' s')
  | transport {σ t t' m m' b b'} (k : Transport) (ht : Expands strict σ t t') (hm : Expands strict σ m m')
      (hb : Expands strict σ b b') : Expands strict σ (.transport k t m b) (.transport k t' m' b')
  | indAbsurd {σ t t' m m'} (ht : Expands strict σ t t') (hm : Expands strict σ m m') :
      Expands strict σ (.indAbsurd t m) (.indAbsurd t' m')
  | indVec {σ n n' t t' m m' b b' s s'} (hn : Expands strict σ n n') (ht : Expands strict σ t t')
      (hm : Expands strict σ m m') (hb : Expands strict σ b b') (hs : Expands strict σ s s') :
      Expands strict σ (.indVec n t m b s) (.indVec n' t' m' b' s')
  | trans {σ l l' r r'} (hl : Expands strict σ l l') (hr : Expands strict σ r r') :
      Expands strict σ (.trans l r) (.trans l' r')
  | cong {σ t t' f f'} (ht : Expands strict σ t t') (hf : Expands strict σ f f') :
      Expands strict σ (.cong t f) (.cong t' f')
  | todo {σ} : Expands strict σ .todo .todo
  | malformed {σ} (m : Malformed) : Expands strict σ (.malformed m) (.malformed m)

/-- Only what can occur in the left expression has to stand for anything. -/
theorem Expands.narrow {strict : Prop} {σ : Placing} {e e' : Expr} (h : Expands strict σ e e') :
    ∀ {τ : Placing}, (∀ a x, σ a x → a.freeNames ⊆ e.freeNames → τ a x) →
      Expands strict τ e e' := by
  have left : ∀ {σ τ : Placing} {p q : List Name}, (∀ a x, σ a x → a.freeNames ⊆ p ++ q → τ a x) →
      ∀ a x, σ a x → a.freeNames ⊆ p → τ a x := fun h a x ha sub =>
    h a x ha fun z hz => List.mem_append_left _ (sub hz)
  have right : ∀ {σ τ : Placing} {p q : List Name}, (∀ a x, σ a x → a.freeNames ⊆ p ++ q → τ a x) →
      ∀ a x, σ a x → a.freeNames ⊆ q → τ a x := fun h a x ha sub =>
    h a x ha fun z hz => List.mem_append_right _ (sub hz)
  have under : ∀ {σ τ : Placing} {y y' : Name} {p : List Name},
      (∀ a x, σ a x → a.freeNames ⊆ p.filter (· ≠ y) → τ a x) →
        ∀ a x, σ.under y y' a x → a.freeNames ⊆ p → τ.under y y' a x := by
    rintro σ τ y y' p h a x (here | ⟨hx, hy, ha⟩) sub
    · exact .inl here
    · refine .inr ⟨hx, hy, h a x ha fun z hz => List.mem_filter.2 ⟨sub hz, ?_⟩⟩
      exact decide_eq_true fun heq => hy (heq ▸ hz)
  induction h with
  | var h => exact fun hτ => .var (hτ _ _ h (List.Subset.refl _))
  | quote a => exact fun _ => .quote a
  | const c => exact fun _ => .const c
  | todo => exact fun _ => .todo
  | malformed m => exact fun _ => .malformed m
  | unary u _ ih => exact fun hτ => .unary u (ih hτ)
  | proj p _ ih => exact fun hτ => .proj p (ih hτ)
  | lam hy _ ih => exact fun hτ => .lam hy (ih (under hτ))
  | quant q hy _ _ ihd ihr => exact fun hτ => .quant q hy (ihd (left hτ)) (ihr (under (right hτ)))
  | binary b _ _ ih₁ ih₂ => exact fun hτ => .binary b (ih₁ (left hτ)) (ih₂ (right hτ))
  | the _ _ iht ihe => exact fun hτ => .the (iht (left hτ)) (ihe (right hτ))
  | app _ _ ihf iha => exact fun hτ => .app (ihf (left hτ)) (iha (right hτ))
  | indAbsurd _ _ iht ihm => exact fun hτ => .indAbsurd (iht (left hτ)) (ihm (right hτ))
  | trans _ _ ihl ihr => exact fun hτ => .trans (ihl (left hτ)) (ihr (right hτ))
  | cong _ _ iht ihf => exact fun hτ => .cong (iht (left hτ)) (ihf (right hτ))
  | equal _ _ _ iht ihl ihr =>
      exact fun hτ => .equal (iht (left hτ)) (ihl (left (right hτ))) (ihr (right (right hτ)))
  | fold f _ _ _ iht ihb ihs =>
      exact fun hτ => .fold f (iht (left hτ)) (ihb (left (right hτ))) (ihs (right (right hτ)))
  | transport k _ _ _ iht ihm ihb =>
      exact fun hτ => .transport k (iht (left hτ)) (ihm (left (right hτ))) (ihb (right (right hτ)))
  | induct i _ _ _ _ iht ihm ihb ihs =>
      exact fun hτ => .induct i (iht (left hτ)) (ihm (left (right hτ))) (ihb (left (right (right hτ))))
        (ihs (right (right (right hτ))))
  | indVec _ _ _ _ _ ihn iht ihm ihb ihs =>
      exact fun hτ => .indVec (ihn (left hτ)) (iht (left (right hτ))) (ihm (left (right (right hτ))))
        (ihb (left (right (right (right hτ))))) (ihs (right (right (right (right hτ)))))

/-- Code with other names for binders, and variables for variables. -/
theorem Resembles.expands {strict : Prop} {B V : Pairing} (hB : strict → ∀ x x', B x x' → x = x')
    {e e' : Expr} (h : Alike B V e e') :
    ∀ {σ : Placing}, (∀ x x', V x x' → σ (.var x) x') → Expands strict σ e e' := by
  have under : ∀ {V : Pairing} {σ : Placing} {y y' : Name}, (∀ x x', V x x' → σ (.var x) x') →
      ∀ x x', V.under y y' x x' → σ.under y y' (.var x) x' := by
    rintro V σ y y' h x x' (⟨rfl, rfl⟩ | ⟨hx, hx', hv⟩)
    · exact .inl ⟨rfl, rfl⟩
    · exact .inr ⟨hx', fun hy => hx (List.mem_singleton.1 hy).symm, h x x' hv⟩
  induction h with
  | foldAnnotated ha | indAbsurdAnnotated ha | congAnnotated ha => exact ha.elim
  | var h => exact fun hσ => .var (hσ _ _ h)
  | quote a => exact fun _ => .quote a
  | const c => exact fun _ => .const c
  | todo => exact fun _ => .todo
  | malformed m => exact fun _ => .malformed m
  | unary u _ ih => exact fun hσ => .unary u (ih hσ)
  | proj p _ ih => exact fun hσ => .proj p (ih hσ)
  | lam hx _ ih => exact fun hσ => .lam (hB · _ _ hx) (ih (under hσ))
  | quant q hx _ _ ihd ihr => exact fun hσ => .quant q (hB · _ _ hx) (ihd hσ) (ihr (under hσ))
  | binary b _ _ ih₁ ih₂ => exact fun hσ => .binary b (ih₁ hσ) (ih₂ hσ)
  | the _ _ iht ihe => exact fun hσ => .the (iht hσ) (ihe hσ)
  | app _ _ ihf iha => exact fun hσ => .app (ihf hσ) (iha hσ)
  | indAbsurd _ _ iht ihm => exact fun hσ => .indAbsurd (iht hσ) (ihm hσ)
  | trans _ _ ihl ihr => exact fun hσ => .trans (ihl hσ) (ihr hσ)
  | cong _ _ iht ihf => exact fun hσ => .cong (iht hσ) (ihf hσ)
  | equal _ _ _ iht ihl ihr => exact fun hσ => .equal (iht hσ) (ihl hσ) (ihr hσ)
  | fold f _ _ _ iht ihb ihs => exact fun hσ => .fold f (iht hσ) (ihb hσ) (ihs hσ)
  | transport k _ _ _ iht ihm ihb => exact fun hσ => .transport k (iht hσ) (ihm hσ) (ihb hσ)
  | induct i _ _ _ _ iht ihm ihb ihs =>
      exact fun hσ => .induct i (iht hσ) (ihm hσ) (ihb hσ) (ihs hσ)
  | indVec _ _ _ _ _ ihn iht ihm ihb ihs =>
      exact fun hσ => .indVec (ihn hσ) (iht hσ) (ihm hσ) (ihb hσ) (ihs hσ)

/-- An expression expands itself, if its free names stand for themselves. -/
theorem Expands.refl {strict : Prop} (e : Expr) {σ : Placing} (h : ∀ x ∈ e.freeNames, σ (.var x) x) :
    Expands strict σ e e := by
  have alike : Alike Eq Eq e e := .refl (fun _ => rfl) e fun _ => rfl
  have whole : Expands strict (fun a x => a = .var x) e e :=
    alike.expands (fun _ _ _ hx => hx) fun x x' hx => congrArg Expr.var hx
  refine whole.narrow ?_
  rintro _ x rfl sub
  exact h x (sub (.head _))

/-- After substitution, what was put in stands for the names it was put in for. -/
theorem Expr.expands_subst (e : Expr) : ∀ {τ : Name → Expr} {σ : Placing},
    (∀ z ∈ e.freeNames, σ (τ z) z) → Expands False σ (e.subst τ) e := by
  have left : ∀ {P : Name → Prop} {p q : List Name}, (∀ z ∈ p ++ q, P z) → ∀ z ∈ p, P z :=
    fun h z hz => h z (List.mem_append_left _ hz)
  have right : ∀ {P : Name → Prop} {p q : List Name}, (∀ z ∈ p ++ q, P z) → ∀ z ∈ q, P z :=
    fun h z hz => h z (List.mem_append_right _ hz)
  have under : ∀ {τ : Name → Expr} {σ : Placing} {y : Name} {b : Expr},
      (∀ z ∈ b.freeNames.filter (· ≠ y), σ (τ z) z) →
        ∀ z ∈ b.freeNames, σ.under (b.binderFor τ y) y (inScope τ y (b.binderFor τ y) z) z := by
    intro τ σ y b h z hz
    by_cases hy : z = y
    · exact .inl ⟨if_pos hy, hy⟩
    · have other : z ∈ b.freeNames.filter (· ≠ y) := List.mem_filter.2 ⟨hz, decide_eq_true hy⟩
      refine .inr ⟨hy, ?_, ?_⟩
      · rw [inScope, if_neg hy]
        exact fun captured => Style.ofHints_pick_notMem _ _ (List.mem_flatMap.2 ⟨z, other, captured⟩)
      · rw [inScope, if_neg hy]
        exact h z other
  induction e with
  | var x => exact fun h => .var (h x (.head _))
  | quote a => exact fun _ => .quote a
  | const c => exact fun _ => .const c
  | todo => exact fun _ => .todo
  | malformed m => exact fun _ => .malformed m
  | unary u _ ih => exact fun h => .unary u (ih h)
  | proj p _ ih => exact fun h => .proj p (ih h)
  | lam y _ ih => exact fun h => .lam False.elim (ih (under h))
  | quant q y _ _ ihd ihr => exact fun h => .quant q False.elim (ihd (left h)) (ihr (under (right h)))
  | binary b _ _ ih₁ ih₂ => exact fun h => .binary b (ih₁ (left h)) (ih₂ (right h))
  | the _ _ iht ihe => exact fun h => .the (iht (left h)) (ihe (right h))
  | app _ _ ihf iha => exact fun h => .app (ihf (left h)) (iha (right h))
  | indAbsurd _ _ iht ihm => exact fun h => .indAbsurd (iht (left h)) (ihm (right h))
  | trans _ _ ihl ihr => exact fun h => .trans (ihl (left h)) (ihr (right h))
  | cong _ _ iht ihf => exact fun h => .cong (iht (left h)) (ihf (right h))
  | equal _ _ _ iht ihl ihr =>
      exact fun h => .equal (iht (left h)) (ihl (left (right h))) (ihr (right (right h)))
  | fold f _ _ _ iht ihb ihs =>
      exact fun h => .fold f (iht (left h)) (ihb (left (right h))) (ihs (right (right h)))
  | transport k _ _ _ iht ihm ihb =>
      exact fun h => .transport k (iht (left h)) (ihm (left (right h))) (ihb (right (right h)))
  | induct i _ _ _ _ iht ihm ihb ihs =>
      exact fun h => .induct i (iht (left h)) (ihm (left (right h))) (ihb (left (right (right h))))
        (ihs (right (right (right h))))
  | indVec _ _ _ _ _ ihn iht ihm ihb ihs =>
      exact fun h => .indVec (ihn (left h)) (iht (left (right h))) (ihm (left (right (right h))))
        (ihb (left (right (right (right h))))) (ihs (right (right (right (right h)))))

end TypeKernel
