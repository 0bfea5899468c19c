/-
# TypeKernel.Proofs.Nameless — expressions without the names of binders

The nameless form of an expression gives every bound variable as the depth of its binder, forgets the
names of binders and keeps those of free variables. All elements of `Absurd` are the same, so every
`(the Absurd _)` becomes one constant.

α-equivalence is equality of nameless forms: whenever the comparison has an answer it is the right
one (`compares`), and it has one unless it meets two unknown forms (`alphaUnder_answers`). Both are
shown by induction over two expressions at once (`twin`).
-/
import TypeKernel.Expr.Alpha

namespace TypeKernel

set_option autoImplicit false

/-- The head of a form, without its parts. -/
inductive Head where
  | quote (atom : String)
  | const (c : Const)
  | unary (u : Unary)
  | binary (b : Binary)
  | equal
  | quant (q : Quantifier)
  | lam
  | the
  | app
  | proj (p : Projection)
  | fold (f : Fold)
  | induct (i : Induction)
  | transport (k : Transport)
  | indAbsurd
  | indVec
  | trans
  | cong
  | todo
  | malformed (m : Malformed)
  deriving DecidableEq, Repr

/-- Expressions in which binders have no names. -/
inductive Nameless where
  | bound (depth : Nat)
  | free (x : Name)
  /-- Any element of `Absurd`. -/
  | impossible
  | leaf (h : Head)
  | one (h : Head) (a : Nameless)
  | two (h : Head) (a b : Nameless)
  | three (h : Head) (a b c : Nameless)
  | four (h : Head) (a b c d : Nameless)
  | five (h : Head) (a b c d e : Nameless)
  deriving DecidableEq, Repr

/-- The head of a nameless form; a variable has none. -/
def Nameless.head : Nameless → Option Head
  | .bound _ | .free _ => none
  | .impossible => some .the
  | .leaf h | .one h _ | .two h _ _ | .three h _ _ _ | .four h _ _ _ _ | .five h _ _ _ _ _ => some h

namespace Nameless

variable {h : Head} {a a' b b' c c' d d' e e' : Nameless}

theorem one_inj : one h a = one h a' ↔ a = a' := by
  simp

theorem two_inj : two h a b = two h a' b' ↔ a = a' ∧ b = b' := by
  simp

theorem three_inj : three h a b c = three h a' b' c' ↔ a = a' ∧ b = b' ∧ c = c' := by
  simp

theorem four_inj : four h a b c d = four h a' b' c' d' ↔ a = a' ∧ b = b' ∧ c = c' ∧ d = d' := by
  simp

theorem five_inj :
    five h a b c d e = five h a' b' c' d' e' ↔ a = a' ∧ b = b' ∧ c = c' ∧ d = d' ∧ e = e' := by
  simp

end Nameless

namespace Expr

/-- A variable below the given binders. -/
def namelessVar (ls : Depths) (x : Name) : Nameless :=
  match ls.lookup x with
  | some depth => .bound depth
  | none => .free x

/-- The nameless form of an expression below the given binders. -/
def namelessUnder (ls : Depths) (depth : Nat) : Expr → Nameless
  | .var x => namelessVar ls x
  | .quote a => .leaf (.quote a)
  | .const c => .leaf (.const c)
  | .unary u e => .one (.unary u) (e.namelessUnder ls depth)
  | .binary b e₁ e₂ => .two (.binary b) (e₁.namelessUnder ls depth) (e₂.namelessUnder ls depth)
  | .equal t l r =>
      .three .equal (t.namelessUnder ls depth) (l.namelessUnder ls depth)
        (r.namelessUnder ls depth)
  | .quant q x d r =>
      .two (.quant q) (d.namelessUnder ls depth)
        (r.namelessUnder ((x, depth) :: ls) (depth + 1))
  | .lam x b => .one .lam (b.namelessUnder ((x, depth) :: ls) (depth + 1))
  | .the t e =>
      if t = .absurd then .impossible
      else .two .the (t.namelessUnder ls depth) (e.namelessUnder ls depth)
  | .app f a => .two .app (f.namelessUnder ls depth) (a.namelessUnder ls depth)
  | .proj p t => .one (.proj p) (t.namelessUnder ls depth)
  | .fold f t b s =>
      .three (.fold f) (t.namelessUnder ls depth) (b.namelessUnder ls depth)
        (s.namelessUnder ls depth)
  | .induct i t m b s =>
      .four (.induct i) (t.namelessUnder ls depth) (m.namelessUnder ls depth)
        (b.namelessUnder ls depth) (s.namelessUnder ls depth)
  | .transport k t m b =>
      .three (.transport k) (t.namelessUnder ls depth) (m.namelessUnder ls depth)
        (b.namelessUnder ls depth)
  | .indAbsurd t m => .two .indAbsurd (t.namelessUnder ls depth) (m.namelessUnder ls depth)
  | .indVec n t m b s =>
      .five .indVec (n.namelessUnder ls depth) (t.namelessUnder ls depth)
        (m.namelessUnder ls depth) (b.namelessUnder ls depth) (s.namelessUnder ls depth)
  | .trans l r => .two .trans (l.namelessUnder ls depth) (r.namelessUnder ls depth)
  | .cong t f => .two .cong (t.namelessUnder ls depth) (f.namelessUnder ls depth)
  | .todo => .leaf .todo
  | .malformed m => .leaf (.malformed m)

/-- The nameless form of an expression. -/
def nameless (e : Expr) : Nameless :=
  e.namelessUnder [] 0

theorem sameVar_eq (ls rs : Depths) (x y : Name) :
    sameVar ls rs x y = true ↔ namelessVar ls x = namelessVar rs y := by
  unfold sameVar namelessVar
  cases ls.lookup x <;> cases rs.lookup y <;> simp

theorem andCompare_eq_some {p q : Option Bool} {b : Bool} (h : andCompare p q = some b) :
    (p = some true ∧ q = some b) ∨ (p = some false ∧ b = false) := by
  cases p with
  | none => cases h
  | some a =>
      cases a with
      | true => exact .inl ⟨rfl, h⟩
      | false => exact .inr ⟨rfl, by cases h; rfl⟩

/-- The answer of a comparison, if it has one, says whether `P` holds. -/
def Decides (answer : Option Bool) (P : Prop) : Prop :=
  ∀ b, answer = some b → (b = true ↔ P)

theorem Decides.of_iff {p : Option Bool} {P Q : Prop} (h : Decides p P) (same : P ↔ Q) : Decides p Q :=
  fun b hb => (h b hb).trans same

/-- A comparison that is made on a condition that holds. -/
theorem Decides.of_pos {c : Prop} [Decidable c] {p q : Option Bool} {P : Prop} (hc : c)
    (h : Decides p P) : Decides (if c then p else q) P := by
  rwa [if_pos hc]

theorem Decides.and {p q : Option Bool} {P Q : Prop} (hp : Decides p P) (hq : Decides q Q) :
    Decides (andCompare p q) (P ∧ Q) := by
  intro b h
  rcases andCompare_eq_some h with ⟨h₁, h₂⟩ | ⟨h₁, rfl⟩
  · rw [hq b h₂, and_iff_right ((hp _ h₁).1 rfl)]
  · simp [← hp _ h₁]

/-- The head of an expression; a variable has none. -/
def head : Expr → Option Head
  | .var _ => none
  | .quote a => some (.quote a)
  | .const c => some (.const c)
  | .unary u _ => some (.unary u)
  | .binary b _ _ => some (.binary b)
  | .equal _ _ _ => some .equal
  | .quant q _ _ _ => some (.quant q)
  | .lam _ _ => some .lam
  | .the _ _ => some .the
  | .app _ _ => some .app
  | .proj p _ => some (.proj p)
  | .fold f _ _ _ => some (.fold f)
  | .induct i _ _ _ _ => some (.induct i)
  | .transport k _ _ _ => some (.transport k)
  | .indAbsurd _ _ => some .indAbsurd
  | .indVec _ _ _ _ _ => some .indVec
  | .trans _ _ => some .trans
  | .cong _ _ => some .cong
  | .todo => some .todo
  | .malformed m => some (.malformed m)

theorem namelessUnder_the_absurd (ls : Depths) (depth : Nat) (e : Expr) :
    (Expr.the .absurd e).namelessUnder ls depth = .impossible :=
  if_pos rfl

theorem namelessUnder_the {t : Expr} (h : t ≠ .absurd) (ls : Depths) (depth : Nat) (e : Expr) :
    (Expr.the t e).namelessUnder ls depth =
      .two .the (t.namelessUnder ls depth) (e.namelessUnder ls depth) :=
  if_neg h

theorem head_namelessUnder (ls : Depths) (depth : Nat) (e : Expr) :
    (e.namelessUnder ls depth).head = e.head := by
  cases e with
  | var x =>
      change (namelessVar ls x).head = none
      unfold namelessVar
      split <;> rfl
  | the t e =>
      by_cases h : t = .absurd
      · rw [h, namelessUnder_the_absurd]
        rfl
      · rw [namelessUnder_the h]
        rfl
  | _ => rfl

theorem namelessUnder_eq_absurd {ls : Depths} {depth : Nat} {t : Expr}
    (h : t.namelessUnder ls depth = .leaf (.const .absurd)) : t = .absurd := by
  have head : t.head = some (.const .absurd) := by rw [← head_namelessUnder ls depth, h, Nameless.head]
  cases t with
  | const c =>
      cases head
      rfl
  | _ => cases head

theorem namelessUnder_the_congr {ls rs : Depths} {depth : Nat} {t t' e e' : Expr}
    (ht : t.namelessUnder ls depth = t'.namelessUnder rs depth)
    (he : e.namelessUnder ls depth = e'.namelessUnder rs depth) :
    (Expr.the t e).namelessUnder ls depth = (Expr.the t' e').namelessUnder rs depth := by
  by_cases h : t = .absurd
  · subst h
    rw [namelessUnder_eq_absurd ht.symm, namelessUnder_the_absurd, namelessUnder_the_absurd]
  · have h' : t' ≠ .absurd := by
      rintro rfl
      exact h (namelessUnder_eq_absurd ht)
    rw [namelessUnder_the h, namelessUnder_the h', ht, he]

/-- Induction over two expressions at once, as far as their heads agree. -/
theorem twin {P : Expr → Expr → Prop}
    (apart : ∀ e e', e.head ≠ e'.head → P e e')
    (var : ∀ x x', P (.var x) (.var x'))
    (quote : ∀ a, P (.quote a) (.quote a))
    (const : ∀ c, P (.const c) (.const c))
    (unary : ∀ u e e', P e e' → P (.unary u e) (.unary u e'))
    (binary : ∀ b e₁ e₂ e₁' e₂', P e₁ e₁' → P e₂ e₂' → P (.binary b e₁ e₂) (.binary b e₁' e₂'))
    (equal : ∀ t l r t' l' r', P t t' → P l l' → P r r' → P (.equal t l r) (.equal t' l' r'))
    (quant : ∀ q x d r x' d' r', P d d' → P r r' → P (.quant q x d r) (.quant q x' d' r'))
    (lam : ∀ x b x' b', P b b' → P (.lam x b) (.lam x' b'))
    (the : ∀ t e t' e', P t t' → P e e' → P (.the t e) (.the t' e'))
    (app : ∀ f a f' a', P f f' → P a a' → P (.app f a) (.app f' a'))
    (proj : ∀ p t t', P t t' → P (.proj p t) (.proj p t'))
    (fold : ∀ f t b s t' b' s', P t t' → P b b' → P s s' → P (.fold f t b s) (.fold f t' b' s'))
    (induct : ∀ i t m b s t' m' b' s', P t t' → P m m' → P b b' → P s s' →
      P (.induct i t m b s) (.induct i t' m' b' s'))
    (transport : ∀ k t m b t' m' b', P t t' → P m m' → P b b' →
      P (.transport k t m b) (.transport k t' m' b'))
    (indAbsurd : ∀ t m t' m', P t t' → P m m' → P (.indAbsurd t m) (.indAbsurd t' m'))
    (indVec : ∀ n t m b s n' t' m' b' s', P n n' → P t t' → P m m' → P b b' → P s s' →
      P (.indVec n t m b s) (.indVec n' t' m' b' s'))
    (trans : ∀ l r l' r', P l l' → P r r' → P (.trans l r) (.trans l' r'))
    (cong : ∀ t f t' f', P t t' → P f f' → P (.cong t f) (.cong t' f'))
    (todo : P .todo .todo)
    (malformed : ∀ m, P (.malformed m) (.malformed m)) (e e' : Expr) : P e e' := by
  -- Only pairs with one head are left.
  have sameHead : ∀ {e e' : Expr}, (e.head = e'.head → P e e') → P e e' := by
    intro e e' h
    by_cases same : e.head = e'.head
    · exact h same
    · exact apart e e' same
  induction e generalizing e' <;> refine sameHead fun same => ?_ <;> cases e' <;> cases same
  case var.var.refl x x' => exact var x x'
  case quote.quote.refl a => exact quote a
  case const.const.refl c => exact const c
  case unary.unary.refl ih _ => exact unary _ _ _ (ih _)
  case binary.binary.refl ih₁ ih₂ _ _ => exact binary _ _ _ _ _ (ih₁ _) (ih₂ _)
  case equal.equal.refl ih₁ ih₂ ih₃ _ _ _ => exact equal _ _ _ _ _ _ (ih₁ _) (ih₂ _) (ih₃ _)
  case quant.quant.refl ih₁ ih₂ _ _ _ => exact quant _ _ _ _ _ _ _ (ih₁ _) (ih₂ _)
  case lam.lam.refl ih _ _ => exact lam _ _ _ _ (ih _)
  case the.the.refl ih₁ ih₂ _ _ => exact the _ _ _ _ (ih₁ _) (ih₂ _)
  case app.app.refl ih₁ ih₂ _ _ => exact app _ _ _ _ (ih₁ _) (ih₂ _)
  case proj.proj.refl ih _ => exact proj _ _ _ (ih _)
  case fold.fold.refl ih₁ ih₂ ih₃ _ _ _ => exact fold _ _ _ _ _ _ _ (ih₁ _) (ih₂ _) (ih₃ _)
  case induct.induct.refl ih₁ ih₂ ih₃ ih₄ _ _ _ _ =>
    exact induct _ _ _ _ _ _ _ _ _ (ih₁ _) (ih₂ _) (ih₃ _) (ih₄ _)
  case transport.transport.refl ih₁ ih₂ ih₃ _ _ _ =>
    exact transport _ _ _ _ _ _ _ (ih₁ _) (ih₂ _) (ih₃ _)
  case indAbsurd.indAbsurd.refl ih₁ ih₂ _ _ => exact indAbsurd _ _ _ _ (ih₁ _) (ih₂ _)
  case indVec.indVec.refl ih₁ ih₂ ih₃ ih₄ ih₅ _ _ _ _ _ =>
    exact indVec _ _ _ _ _ _ _ _ _ _ (ih₁ _) (ih₂ _) (ih₃ _) (ih₄ _) (ih₅ _)
  case trans.trans.refl ih₁ ih₂ _ _ => exact trans _ _ _ _ (ih₁ _) (ih₂ _)
  case cong.cong.refl ih₁ ih₂ _ _ => exact cong _ _ _ _ (ih₁ _) (ih₂ _)
  case todo.todo.refl => exact todo
  case malformed.malformed.refl m => exact malformed m

theorem alphaUnder_of_head_ne {ls rs : Depths} {depth : Nat} {e e' : Expr}
    (h : e.head ≠ e'.head) : alphaUnder ls rs depth e e' = some false := by
  unfold alphaUnder
  split <;> simp_all [head]

/-- A comparison of two expressions decides whether their nameless forms are equal. -/
def Compares (e e' : Expr) : Prop :=
  ∀ (ls rs : Depths) (depth : Nat),
    Decides (alphaUnder ls rs depth e e') (e.namelessUnder ls depth = e'.namelessUnder rs depth)

theorem compares_the {t t' e e' : Expr} (ht : Compares t t') (he : Compares e e') :
    Compares (.the t e) (.the t' e') := by
  intro ls rs depth
  by_cases both : t = .absurd ∧ t' = .absurd
  · obtain ⟨rfl, rfl⟩ := both
    intro b h
    cases h
    exact iff_of_true rfl rfl
  · have compared : alphaUnder ls rs depth (.the t e) (.the t' e') =
        andCompare (alphaUnder ls rs depth t t') (alphaUnder ls rs depth e e') := if_neg both
    rw [compared]
    refine ((ht ls rs depth).and (he ls rs depth)).of_iff ?_
    -- Only one of the types can be `Absurd` now, and then neither side of the equivalence holds.
    by_cases h : t = .absurd
    · subst h
      have h' : t' ≠ .absurd := fun h' => both ⟨rfl, h'⟩
      rw [namelessUnder_the_absurd, namelessUnder_the h']
      exact iff_of_false (fun parts => h' (namelessUnder_eq_absurd parts.1.symm)) (by simp)
    · by_cases h' : t' = .absurd
      · subst h'
        rw [namelessUnder_the_absurd, namelessUnder_the h]
        exact iff_of_false (fun parts => h (namelessUnder_eq_absurd parts.1)) (by simp)
      · rw [namelessUnder_the h, namelessUnder_the h', Nameless.two_inj]

/-- Whatever the comparison answers is right. -/
theorem compares (e e' : Expr) : Compares e e' := by
  induction e, e' using twin with
  | apart e e' ne =>
      intro ls rs depth b h
      have differ : e.namelessUnder ls depth ≠ e'.namelessUnder rs depth := fun heq =>
        ne (by rw [← head_namelessUnder ls depth e, heq, head_namelessUnder])
      rw [alphaUnder_of_head_ne ne] at h
      cases h
      simp [differ]
  | var x y =>
      intro ls rs depth b h
      cases h
      exact sameVar_eq ls rs x y
  | quote | const =>
      intro ls rs depth b h
      cases h
      exact iff_of_true (beq_self_eq_true _) rfl
  | todo =>
      intro ls rs depth b h
      cases h
      exact iff_of_true rfl rfl
  | malformed m =>
      intro ls rs depth b h
      cases m with
      | unknown => cases h
      | _ =>
          cases h
          exact iff_of_true (beq_self_eq_true _) rfl
  | unary _ _ _ ih | proj _ _ _ ih =>
      exact fun ls rs depth => ((ih ls rs depth).of_pos rfl).of_iff Nameless.one_inj.symm
  | lam x b x' b' ih =>
      exact fun ls rs depth => (ih _ _ _).of_iff Nameless.one_inj.symm
  | quant q x d r x' d' r' ihd ihr =>
      exact fun ls rs depth =>
        (((ihd ls rs depth).and (ihr _ _ _)).of_pos rfl).of_iff Nameless.two_inj.symm
  | the t e t' e' iht ihe => exact compares_the iht ihe
  | binary _ _ _ _ _ ih₁ ih₂ =>
      exact fun ls rs depth =>
        (((ih₁ ls rs depth).and (ih₂ ls rs depth)).of_pos rfl).of_iff Nameless.two_inj.symm
  | app _ _ _ _ ih₁ ih₂ | indAbsurd _ _ _ _ ih₁ ih₂ | trans _ _ _ _ ih₁ ih₂ | cong _ _ _ _ ih₁ ih₂ =>
      exact fun ls rs depth => ((ih₁ ls rs depth).and (ih₂ ls rs depth)).of_iff Nameless.two_inj.symm
  | equal _ _ _ _ _ _ ih₁ ih₂ ih₃ =>
      exact fun ls rs depth => ((ih₁ ls rs depth).and
        ((ih₂ ls rs depth).and (ih₃ ls rs depth))).of_iff Nameless.three_inj.symm
  | fold _ _ _ _ _ _ _ ih₁ ih₂ ih₃ | transport _ _ _ _ _ _ _ ih₁ ih₂ ih₃ =>
      exact fun ls rs depth => (((ih₁ ls rs depth).and
        ((ih₂ ls rs depth).and (ih₃ ls rs depth))).of_pos rfl).of_iff Nameless.three_inj.symm
  | induct _ _ _ _ _ _ _ _ _ ih₁ ih₂ ih₃ ih₄ =>
      exact fun ls rs depth => (((ih₁ ls rs depth).and ((ih₂ ls rs depth).and
        ((ih₃ ls rs depth).and (ih₄ ls rs depth)))).of_pos rfl).of_iff Nameless.four_inj.symm
  | indVec _ _ _ _ _ _ _ _ _ _ ih₁ ih₂ ih₃ ih₄ ih₅ =>
      exact fun ls rs depth => ((ih₁ ls rs depth).and ((ih₂ ls rs depth).and ((ih₃ ls rs depth).and
        ((ih₄ ls rs depth).and (ih₅ ls rs depth))))).of_iff Nameless.five_inj.symm

/-- No part is an unknown form. -/
def Known : Expr → Prop
  | .malformed m => m ≠ .unknown
  | .var _ | .quote _ | .const _ | .todo => True
  | .unary _ e => e.Known
  | .binary _ e₁ e₂ => e₁.Known ∧ e₂.Known
  | .equal t l r => t.Known ∧ l.Known ∧ r.Known
  | .quant _ _ d r => d.Known ∧ r.Known
  | .lam _ b => b.Known
  | .the t e => t.Known ∧ e.Known
  | .app f a => f.Known ∧ a.Known
  | .proj _ t => t.Known
  | .fold _ t b s => t.Known ∧ b.Known ∧ s.Known
  | .induct _ t m b s => t.Known ∧ m.Known ∧ b.Known ∧ s.Known
  | .transport _ t m b => t.Known ∧ m.Known ∧ b.Known
  | .indAbsurd t m => t.Known ∧ m.Known
  | .indVec n t m b s => n.Known ∧ t.Known ∧ m.Known ∧ b.Known ∧ s.Known
  | .trans l r => l.Known ∧ r.Known
  | .cong t f => t.Known ∧ f.Known

theorem isSome_andCompare {p q : Option Bool} (hp : p.isSome) (hq : q.isSome) :
    (andCompare p q).isSome := by
  cases p with
  | none => cases hp
  | some b => cases b with
    | true => exact hq
    | false => rfl

theorem isSome_of_pos {c : Prop} [Decidable c] {p q : Option Bool} (hc : c) (hp : p.isSome) :
    (if c then p else q).isSome := by
  rwa [if_pos hc]

/-- A comparison has an answer, unless both sides have unknown parts. -/
theorem alphaUnder_answers {ls rs : Depths} {depth : Nat} {e e' : Expr} (h : e.Known) :
    (alphaUnder ls rs depth e e').isSome := by
  induction e, e' using twin generalizing ls rs depth with
  | apart e e' ne =>
      rw [alphaUnder_of_head_ne ne]
      rfl
  | var | quote | const | todo => rfl
  | malformed m =>
      cases m with
      | unknown => exact (h rfl).elim
      | _ => rfl
  | unary _ _ _ ih | proj _ _ _ ih => exact isSome_of_pos rfl (ih h)
  | lam _ _ _ _ ih => exact ih h
  | quant _ _ _ _ _ _ _ ih₁ ih₂ | binary _ _ _ _ _ ih₁ ih₂ =>
      exact isSome_of_pos rfl (isSome_andCompare (ih₁ h.1) (ih₂ h.2))
  | the t e t' e' ih₁ ih₂ =>
      by_cases both : t = .absurd ∧ t' = .absurd
      · exact isSome_of_pos both rfl
      · have compared : alphaUnder ls rs depth (.the t e) (.the t' e') =
            andCompare (alphaUnder ls rs depth t t') (alphaUnder ls rs depth e e') := if_neg both
        rw [compared]
        exact isSome_andCompare (ih₁ h.1) (ih₂ h.2)
  | app _ _ _ _ ih₁ ih₂ | indAbsurd _ _ _ _ ih₁ ih₂ | trans _ _ _ _ ih₁ ih₂ | cong _ _ _ _ ih₁ ih₂ =>
      exact isSome_andCompare (ih₁ h.1) (ih₂ h.2)
  | equal _ _ _ _ _ _ ih₁ ih₂ ih₃ =>
      exact isSome_andCompare (ih₁ h.1) (isSome_andCompare (ih₂ h.2.1) (ih₃ h.2.2))
  | fold _ _ _ _ _ _ _ ih₁ ih₂ ih₃ | transport _ _ _ _ _ _ _ ih₁ ih₂ ih₃ =>
      exact isSome_of_pos rfl
        (isSome_andCompare (ih₁ h.1) (isSome_andCompare (ih₂ h.2.1) (ih₃ h.2.2)))
  | induct _ _ _ _ _ _ _ _ _ ih₁ ih₂ ih₃ ih₄ =>
      exact isSome_of_pos rfl (isSome_andCompare (ih₁ h.1) (isSome_andCompare (ih₂ h.2.1)
        (isSome_andCompare (ih₃ h.2.2.1) (ih₄ h.2.2.2))))
  | indVec _ _ _ _ _ _ _ _ _ _ ih₁ ih₂ ih₃ ih₄ ih₅ =>
      exact isSome_andCompare (ih₁ h.1) (isSome_andCompare (ih₂ h.2.1) (isSome_andCompare
        (ih₃ h.2.2.1) (isSome_andCompare (ih₄ h.2.2.2.1) (ih₅ h.2.2.2.2))))

theorem nameless_eq_of_alphaEquiv {e e' : Expr} (h : e.alphaEquiv e' = some true) :
    e.nameless = e'.nameless :=
  (compares e e' [] [] 0 true h).1 rfl

theorem alphaEquiv_of_nameless_eq {e e' : Expr} (known : e.Known) (h : e.nameless = e'.nameless) :
    e.alphaEquiv e' = some true := by
  have answers : (alphaUnder [] [] 0 e e').isSome := alphaUnder_answers known
  obtain ⟨b, hb⟩ := Option.isSome_iff_exists.1 answers
  rw [alphaEquiv, hb, (compares e e' [] [] 0 b hb).2 h]

end Expr

end TypeKernel
