/-
# TypeKernel.Proofs.Renamed — renamed expressions are compared and searched alike

Expressions that differ in names only (`Alike`) have one head, contain corresponding variables, and are
equal up to renaming to corresponding expressions. So the questions that checking asks about expressions
(are two normal forms the same, does a range mention its variable) have one answer on both sides, as long
as different names on one side correspond to different names on the other.
-/
import TypeKernel.Expr.Scope
import TypeKernel.Proofs.Matches
import TypeKernel.Proofs.Nameless

namespace TypeKernel

set_option autoImplicit false

open TypeKernel.Expr

variable {B C V W : Pairing} {e e' : Expr}

theorem Resembles.head_eq (h : Alike B V e e') : e.head = e'.head := by
  cases h with
  | foldAnnotated ha | indAbsurdAnnotated ha | congAnnotated ha => exact ha.elim
  | _ => rfl

theorem Resembles.absurd_iff (h : Alike B V e e') : e = .absurd ↔ e' = .absurd := by
  cases h with
  | foldAnnotated ha | indAbsurdAnnotated ha | congAnnotated ha => exact ha.elim
  | const c => exact .rfl
  | _ => exact ⟨nofun, nofun⟩

/-- Corresponding names are bound at the same depths. -/
def Pairing.SameDepths (V : Pairing) (ls ls' : Depths) : Prop :=
  ∀ x x', V x x' → ls.lookup x = ls'.lookup x'

theorem Pairing.SameDepths.under {ls ls' : Depths} (h : V.SameDepths ls ls') (x x' : Name)
    (depth : Nat) : (V.under x x').SameDepths ((x, depth) :: ls) ((x', depth) :: ls') := by
  rintro z z' (⟨rfl, rfl⟩ | ⟨hz, hz', hv⟩)
  · simp
  · simp [List.lookup_cons, beq_false_of_ne hz, beq_false_of_ne hz', h z z' hv]

/-- Names that are free below the given binders are equal on one side if they are on the other. -/
def Pairing.FreeAlike (V W : Pairing) (ls rs : Depths) : Prop :=
  ∀ x x' y y', V x x' → W y y' → ls.lookup x = none → rs.lookup y = none → (x = y ↔ x' = y')

theorem Pairing.FreeAlike.under {ls rs : Depths} (h : V.FreeAlike W ls rs) (x x' y y' : Name)
    (depth : Nat) :
    (V.under x x').FreeAlike (W.under y y') ((x, depth) :: ls) ((y, depth) :: rs) := by
  rintro z z' w w' (⟨rfl, rfl⟩ | ⟨hz, hz', hv⟩) (⟨rfl, rfl⟩ | ⟨hw, hw', hw''⟩) hl hr
  · simp at hl
  · simp at hl
  · simp at hr
  · simp only [List.lookup_cons, beq_false_of_ne hz, beq_false_of_ne hw] at hl hr
    exact h z z' w w' hv hw'' hl hr

theorem Expr.sameVar_congr {ls ls' rs rs' : Depths} (hl : V.SameDepths ls ls')
    (hr : W.SameDepths rs rs') (hf : V.FreeAlike W ls rs) {x x' y y' : Name} (hx : V x x')
    (hy : W y y') : sameVar ls rs x y = sameVar ls' rs' x' y' := by
  have free := hf x x' y y' hx hy
  unfold sameVar
  rw [← hl x x' hx, ← hr y y' hy]
  cases hx : ls.lookup x with
  | some i => rfl
  | none =>
      cases hy : rs.lookup y with
      | some j => rfl
      | none => exact Bool.eq_iff_iff.2 (by simp [free hx hy])

/-- What is alike an expression, by its form. -/
def Expr.Counterpart (B V : Pairing) : Expr → Expr → Prop
  | .var x, f => ∃ y, f = .var y ∧ V x y
  | .unary u e, f => ∃ e', f = .unary u e' ∧ Alike B V e e'
  | .binary b e₁ e₂, f => ∃ e₁' e₂', f = .binary b e₁' e₂' ∧ Alike B V e₁ e₁' ∧ Alike B V e₂ e₂'
  | .equal t l r, f => ∃ t' l' r', f = .equal t' l' r' ∧ Alike B V t t' ∧ Alike B V l l' ∧ Alike B V r r'
  | .quant q x d r, f => ∃ y d' r', f = .quant q y d' r' ∧ Alike B V d d' ∧ Alike B (V.under x y) r r'
  | .lam x b, f => ∃ y b', f = .lam y b' ∧ Alike B (V.under x y) b b'
  | .the t e, f => ∃ t' e', f = .the t' e' ∧ Alike B V t t' ∧ Alike B V e e'
  | .app g a, f => ∃ g' a', f = .app g' a' ∧ Alike B V g g' ∧ Alike B V a a'
  | .proj p t, f => ∃ t', f = .proj p t' ∧ Alike B V t t'
  | .fold k t b s, f => ∃ t' b' s', f = .fold k t' b' s' ∧ Alike B V t t' ∧ Alike B V b b' ∧ Alike B V s s'
  | .induct i t m b s, f => ∃ t' m' b' s', f = .induct i t' m' b' s' ∧ Alike B V t t' ∧ Alike B V m m' ∧
      Alike B V b b' ∧ Alike B V s s'
  | .transport k t m b, f => ∃ t' m' b', f = .transport k t' m' b' ∧ Alike B V t t' ∧ Alike B V m m' ∧
      Alike B V b b'
  | .indAbsurd t m, f => ∃ t' m', f = .indAbsurd t' m' ∧ Alike B V t t' ∧ Alike B V m m'
  | .indVec n t m b s, f => ∃ n' t' m' b' s', f = .indVec n' t' m' b' s' ∧ Alike B V n n' ∧
      Alike B V t t' ∧ Alike B V m m' ∧ Alike B V b b' ∧ Alike B V s s'
  | .trans l r, f => ∃ l' r', f = .trans l' r' ∧ Alike B V l l' ∧ Alike B V r r'
  | .cong t g, f => ∃ t' g', f = .cong t' g' ∧ Alike B V t t' ∧ Alike B V g g'
  | e, f => f = e

theorem Resembles.counterpart (h : Alike B V e e') : e.Counterpart B V e' := by
  cases h with
  | foldAnnotated ha | indAbsurdAnnotated ha | congAnnotated ha => exact ha.elim
  | quote | const | todo | malformed => rfl
  | var h | unary _ h | proj _ h => exact ⟨_, rfl, h⟩
  | lam _ h => exact ⟨_, _, rfl, h⟩
  | quant _ _ hd hr => exact ⟨_, _, _, rfl, hd, hr⟩
  | binary _ h₁ h₂ | the h₁ h₂ | app h₁ h₂ | indAbsurd h₁ h₂ | trans h₁ h₂ | cong h₁ h₂ =>
      exact ⟨_, _, rfl, h₁, h₂⟩
  | equal h₁ h₂ h₃ | fold _ h₁ h₂ h₃ | transport _ h₁ h₂ h₃ => exact ⟨_, _, _, rfl, h₁, h₂, h₃⟩
  | induct _ h₁ h₂ h₃ h₄ => exact ⟨_, _, _, _, rfl, h₁, h₂, h₃, h₄⟩
  | indVec h₁ h₂ h₃ h₄ h₅ => exact ⟨_, _, _, _, _, rfl, h₁, h₂, h₃, h₄, h₅⟩

theorem Resembles.alphaUnder (h : Alike B V e e') : ∀ {W : Pairing} {f f' : Expr}
    {ls ls' rs rs' : Depths} (depth : Nat), Alike C W f f' → V.SameDepths ls ls' →
      W.SameDepths rs rs' → V.FreeAlike W ls rs →
        Expr.alphaUnder ls rs depth e f = Expr.alphaUnder ls' rs' depth e' f' := by
  intro W f f' ls ls' rs rs' depth hf hl hr free
  induction e, f using twin generalizing V W e' f' ls ls' rs rs' depth with
  | apart e f ne =>
      have ne' : e'.head ≠ f'.head := by rwa [← h.head_eq, ← hf.head_eq]
      rw [alphaUnder_of_head_ne ne, alphaUnder_of_head_ne ne']
  | var x y =>
      obtain ⟨_, rfl, hx⟩ := h.counterpart
      obtain ⟨_, rfl, hy⟩ := hf.counterpart
      exact congrArg some (sameVar_congr hl hr free hx hy)
  | quote | const | todo =>
      cases h.counterpart
      cases hf.counterpart
      rfl
  | malformed m =>
      cases h.counterpart
      cases hf.counterpart
      cases m <;> rfl
  | unary _ _ _ ih | proj _ _ _ ih =>
      obtain ⟨_, rfl, h₁⟩ := h.counterpart
      obtain ⟨_, rfl, g₁⟩ := hf.counterpart
      simp only [Expr.alphaUnder, ih h₁ depth g₁ hl hr free]
  | lam x b y c ih =>
      obtain ⟨x', _, rfl, hb⟩ := h.counterpart
      obtain ⟨y', _, rfl, gb⟩ := hf.counterpart
      simp only [Expr.alphaUnder, ih hb (depth + 1) gb (hl.under x x' depth) (hr.under y y' depth)
        (free.under x x' y y' depth)]
  | quant q x d r y c s ihd ihr =>
      obtain ⟨x', _, _, rfl, hd, hs⟩ := h.counterpart
      obtain ⟨y', _, _, rfl, gd, gs⟩ := hf.counterpart
      simp only [Expr.alphaUnder, ihd hd depth gd hl hr free, ihr hs (depth + 1) gs
        (hl.under x x' depth) (hr.under y y' depth) (free.under x x' y y' depth)]
  | the t e s f iht ihe =>
      obtain ⟨_, _, rfl, ht, he⟩ := h.counterpart
      obtain ⟨_, _, rfl, gt, ge⟩ := hf.counterpart
      simp only [Expr.alphaUnder, iht ht depth gt hl hr free, ihe he depth ge hl hr free, ht.absurd_iff,
        gt.absurd_iff]
  | binary _ _ _ _ _ ih₁ ih₂ | app _ _ _ _ ih₁ ih₂ | indAbsurd _ _ _ _ ih₁ ih₂ | trans _ _ _ _ ih₁ ih₂
  | cong _ _ _ _ ih₁ ih₂ =>
      obtain ⟨_, _, rfl, h₁, h₂⟩ := h.counterpart
      obtain ⟨_, _, rfl, g₁, g₂⟩ := hf.counterpart
      simp only [Expr.alphaUnder, ih₁ h₁ depth g₁ hl hr free, ih₂ h₂ depth g₂ hl hr free]
  | equal _ _ _ _ _ _ ih₁ ih₂ ih₃ | fold _ _ _ _ _ _ _ ih₁ ih₂ ih₃
  | transport _ _ _ _ _ _ _ ih₁ ih₂ ih₃ =>
      obtain ⟨_, _, _, rfl, h₁, h₂, h₃⟩ := h.counterpart
      obtain ⟨_, _, _, rfl, g₁, g₂, g₃⟩ := hf.counterpart
      simp only [Expr.alphaUnder, ih₁ h₁ depth g₁ hl hr free, ih₂ h₂ depth g₂ hl hr free,
        ih₃ h₃ depth g₃ hl hr free]
  | induct i _ _ _ _ _ _ _ _ ih₁ ih₂ ih₃ ih₄ =>
      obtain ⟨_, _, _, _, rfl, h₁, h₂, h₃, h₄⟩ := h.counterpart
      obtain ⟨_, _, _, _, rfl, g₁, g₂, g₃, g₄⟩ := hf.counterpart
      simp only [Expr.alphaUnder, ih₁ h₁ depth g₁ hl hr free, ih₂ h₂ depth g₂ hl hr free,
        ih₃ h₃ depth g₃ hl hr free, ih₄ h₄ depth g₄ hl hr free]
  | indVec _ _ _ _ _ _ _ _ _ _ ih₁ ih₂ ih₃ ih₄ ih₅ =>
      obtain ⟨_, _, _, _, _, rfl, h₁, h₂, h₃, h₄, h₅⟩ := h.counterpart
      obtain ⟨_, _, _, _, _, rfl, g₁, g₂, g₃, g₄, g₅⟩ := hf.counterpart
      simp only [Expr.alphaUnder, ih₁ h₁ depth g₁ hl hr free, ih₂ h₂ depth g₂ hl hr free,
        ih₃ h₃ depth g₃ hl hr free, ih₄ h₄ depth g₄ hl hr free, ih₅ h₅ depth g₅ hl hr free]

/-- Different names correspond to different names. -/
def Pairing.OneToOne (V : Pairing) : Prop :=
  ∀ x x' y y', V x x' → V y y' → (x = y ↔ x' = y')

theorem Resembles.alphaEquiv {f f' : Expr} (he : Alike B V e e') (hf : Alike C V f f')
    (one : V.OneToOne) : e.alphaEquiv f = e'.alphaEquiv f' :=
  he.alphaUnder 0 hf (fun _ _ _ => rfl) (fun _ _ _ => rfl) fun x x' y y' hx hy _ _ =>
    one x x' y y' hx hy

theorem Resembles.occursFree (h : Alike B V e e') {y y' : Name}
    (fresh : ∀ x x', B x x' → x ≠ y ∧ x' ≠ y') (same : ∀ x x', V x x' → (x = y ↔ x' = y')) :
    e.occursFree y = e'.occursFree y' := by
  have under : ∀ {V : Pairing} {x x' : Name}, B x x' → (∀ z z', V z z' → (z = y ↔ z' = y')) →
      ∀ z z', V.under x x' z z' → (z = y ↔ z' = y') := by
    rintro V x x' hx same z z' (⟨rfl, rfl⟩ | ⟨-, -, hz⟩)
    · have away := fresh _ _ hx
      exact iff_of_false away.1 away.2
    · exact same z z' hz
  induction h with
  | foldAnnotated ha | indAbsurdAnnotated ha | congAnnotated ha => exact ha.elim
  | var hx => exact congrArg some (Bool.eq_iff_iff.2 (by simp [same _ _ hx]))
  | quote | const | todo => rfl
  | malformed m => cases m <;> rfl
  | unary _ _ ih | proj _ _ ih => exact ih same
  | binary _ _ _ ih₁ ih₂ | the _ _ ih₁ ih₂ | app _ _ ih₁ ih₂ | indAbsurd _ _ ih₁ ih₂
  | trans _ _ ih₁ ih₂ | cong _ _ ih₁ ih₂ => simp only [Expr.occursFree, ih₁ same, ih₂ same]
  | equal _ _ _ ih₁ ih₂ ih₃ | fold _ _ _ _ ih₁ ih₂ ih₃ | transport _ _ _ _ ih₁ ih₂ ih₃ =>
      simp only [Expr.occursFree, ih₁ same, ih₂ same, ih₃ same]
  | induct _ _ _ _ _ ih₁ ih₂ ih₃ ih₄ =>
      simp only [Expr.occursFree, ih₁ same, ih₂ same, ih₃ same, ih₄ same]
  | indVec _ _ _ _ _ ih₁ ih₂ ih₃ ih₄ ih₅ =>
      simp only [Expr.occursFree, ih₁ same, ih₂ same, ih₃ same, ih₄ same, ih₅ same]
  | quant q hx _ _ ihd ihr =>
      have away := fresh _ _ hx
      simp only [Expr.occursFree, ihd same, ihr (under hx same), away.1, away.2, if_false]
  | lam hx _ ih =>
      have away := fresh _ _ hx
      simp only [Expr.occursFree, ih (under hx same), away.1, away.2, if_false]

theorem Expr.orSearch_eq_false {p q : Option Bool} :
    Expr.orSearch p q = some false ↔ p = some false ∧ q = some false := by
  cases p with
  | none => simp [orSearch]
  | some b => cases b <;> simp [orSearch]

/-- Only names that occur need correspond to anything. -/
theorem Resembles.narrow {P : Prop} (h : Resembles P B V e e') :
    ∀ {W : Pairing}, (∀ x x', V x x' → e.occursFree x ≠ some false → W x x') →
      Resembles P B W e e' := by
  -- Below a binder of the same name a name does not occur.
  have under : ∀ {V W : Pairing} {x x' : Name} {b : Expr},
      (∀ z z', V z z' → (if x = z then some false else b.occursFree z) ≠ some false → W z z') →
      ∀ z z', V.under x x' z z' → b.occursFree z ≠ some false → W.under x x' z z' := by
    rintro V W x x' b hV z z' (here | ⟨hz, hz', hv⟩) occurs
    · exact .inl here
    · exact .inr ⟨hz, hz', hV z z' hv (by rwa [if_neg (Ne.symm hz)])⟩
  have left : ∀ {p q : Option Bool}, p ≠ some false → Expr.orSearch p q ≠ some false :=
    fun no heq => no (Expr.orSearch_eq_false.1 heq).1
  have right : ∀ {p q : Option Bool}, q ≠ some false → Expr.orSearch p q ≠ some false :=
    fun no heq => no (Expr.orSearch_eq_false.1 heq).2
  induction h with
  | var hx => exact fun hV => .var (hV _ _ hx (by simp [Expr.occursFree]))
  | quote a => exact fun _ => .quote a
  | const c => exact fun _ => .const c
  | todo => exact fun _ => .todo
  | malformed m => exact fun _ => .malformed m
  | unary u _ ih => exact fun hV => .unary u (ih hV)
  | proj p _ ih => exact fun hV => .proj p (ih hV)
  | lam hx hb ih => exact fun hV => .lam hx (ih (under hV))
  | quant q hx _ hr ihd ihr =>
      intro W hV
      exact .quant q hx (ihd fun x x' hx no => hV x x' hx (left no))
        (ihr (under fun x x' hx no => hV x x' hx (right no)))
  | binary b _ _ ih₁ ih₂ =>
      intro W hV
      exact .binary b (ih₁ fun x x' hx no => hV x x' hx (left no))
        (ih₂ fun x x' hx no => hV x x' hx (right no))
  | equal _ _ _ iht ihl ihr =>
      intro W hV
      exact .equal (iht fun x x' hx no => hV x x' hx (left no))
        (ihl fun x x' hx no => hV x x' hx (right (left no)))
        (ihr fun x x' hx no => hV x x' hx (right (right no)))
  | the _ _ iht ihe =>
      intro W hV
      exact .the (iht fun x x' hx no => hV x x' hx (left no))
        (ihe fun x x' hx no => hV x x' hx (right no))
  | app _ _ ihf iha =>
      intro W hV
      exact .app (ihf fun x x' hx no => hV x x' hx (left no))
        (iha fun x x' hx no => hV x x' hx (right no))
  | fold f _ _ _ iht ihb ihs =>
      intro W hV
      exact .fold f (iht fun x x' hx no => hV x x' hx (left no))
        (ihb fun x x' hx no => hV x x' hx (right (left no)))
        (ihs fun x x' hx no => hV x x' hx (right (right no)))
  | induct i _ _ _ _ iht ihm ihb ihs =>
      intro W hV
      exact .induct i (iht fun x x' hx no => hV x x' hx (left no))
        (ihm fun x x' hx no => hV x x' hx (right (left no)))
        (ihb fun x x' hx no => hV x x' hx (right (right (left no))))
        (ihs fun x x' hx no => hV x x' hx (right (right (right no))))
  | transport k _ _ _ iht ihm ihb =>
      intro W hV
      exact .transport k (iht fun x x' hx no => hV x x' hx (left no))
        (ihm fun x x' hx no => hV x x' hx (right (left no)))
        (ihb fun x x' hx no => hV x x' hx (right (right no)))
  | indAbsurd _ _ iht ihm =>
      intro W hV
      exact .indAbsurd (iht fun x x' hx no => hV x x' hx (left no))
        (ihm fun x x' hx no => hV x x' hx (right no))
  | indVec _ _ _ _ _ ihn iht ihm ihb ihs =>
      intro W hV
      exact .indVec (ihn fun x x' hx no => hV x x' hx (left no))
        (iht fun x x' hx no => hV x x' hx (right (left no)))
        (ihm fun x x' hx no => hV x x' hx (right (right (left no))))
        (ihb fun x x' hx no => hV x x' hx (right (right (right (left no)))))
        (ihs fun x x' hx no => hV x x' hx (right (right (right (right no)))))
  | trans _ _ ihl ihr =>
      intro W hV
      exact .trans (ihl fun x x' hx no => hV x x' hx (left no))
        (ihr fun x x' hx no => hV x x' hx (right no))
  | cong _ _ iht ihf =>
      intro W hV
      exact .cong (iht fun x x' hx no => hV x x' hx (left no))
        (ihf fun x x' hx no => hV x x' hx (right no))
  | foldAnnotated ha f bare _ _ _ iht ihb ihs =>
      intro W hV
      exact .foldAnnotated ha f bare (iht fun x x' hx no => hV x x' hx (left no))
        (ihb fun x x' hx no => hV x x' hx (right (left no)))
        (ihs fun x x' hx no => hV x x' hx (right (right no)))
  | indAbsurdAnnotated ha bare _ _ iht ihm =>
      intro W hV
      exact .indAbsurdAnnotated ha bare (iht fun x x' hx no => hV x x' hx (left no))
        (ihm fun x x' hx no => hV x x' hx (right no))
  | congAnnotated ha bare _ _ iht ihf =>
      intro W hV
      exact .congAnnotated ha bare (iht fun x x' hx no => hV x x' hx (left no))
        (ihf fun x x' hx no => hV x x' hx (right no))

/-- A name that does not occur need not correspond to anything. -/
theorem Resembles.without {P : Prop} (h : Resembles P B V e e') {y : Name} {W : Pairing}
    (no : e.occursFree y = some false) (hV : ∀ x x', V x x' → x ≠ y → W x x') :
    Resembles P B W e e' :=
  h.narrow fun x x' hx occurs => hV x x' hx fun heq => occurs (heq ▸ no)

end TypeKernel
