/-
# TypeKernel.Proofs.ReadsAlike — matching values read back alike

Values that match read back as expressions with one nameless form, whatever styles the two readings
use. In particular the styles may choose different names for binders, because a fresh name is none
that the values mention.
-/
import TypeKernel.Proofs.Nameless
import TypeKernel.Proofs.Reads
import TypeKernel.Proofs.SameAnswer

namespace TypeKernel

set_option autoImplicit false

/-- A style that names binders apart from the names in use. -/
def Style.Fresh (σ : Style) : Prop :=
  ∀ X hint, σ.pick X hint ∉ X

/-- Tasks that match. -/
inductive Task.Matches (K : Correspondence) : Task → Task → Prop
  | value {A A' v v'} (hA : Both K A A') (hv : Both K v v') :
      Task.Matches K (.value A v) (.value A' v')
  | element {A A' v v'} (hA : Both K A A') (hv : Both K v v') :
      Task.Matches K (.element A v) (.element A' v')
  | canonical {A A' v v'} (hA : Both K A A') (hv : Both K v v') :
      Task.Matches K (.canonical A v) (.canonical A' v')
  | type {v v'} (hv : Both K v v') : Task.Matches K (.type v) (.type v')
  | former {v v'} (hv : Both K v v') : Task.Matches K (.former v) (.former v')
  | neutral {e e'} (he : TypeKernel.Matches K (.neutral e) (.neutral e')) :
      Task.Matches K (.neutral e) (.neutral e')

/-- A correspondence in which the free variables are among the names in use and corresponding ones have
one nameless form. -/
structure Correspondence.Aligned (K : Correspondence) (X X' : List Name) (ls ls' : Expr.Depths) :
    Prop where
  plain : K.Plain
  used : ∀ x x', K.names x x' → x ∈ X ∧ x' ∈ X'
  same : ∀ x x', K.names x x' → Expr.namelessVar ls x = Expr.namelessVar ls' x'

theorem Expr.namelessVar_cons_self (ls : Depths) (y : Name) (depth : Nat) :
    namelessVar ((y, depth) :: ls) y = .bound depth := by
  simp [namelessVar]

theorem Expr.namelessVar_cons_of_ne (ls : Depths) {y z : Name} (depth : Nat) (h : z ≠ y) :
    namelessVar ((y, depth) :: ls) z = namelessVar ls z := by
  simp [namelessVar, List.lookup_cons, beq_false_of_ne h]

theorem Correspondence.Aligned.bind {K : Correspondence} {X X' : List Name} {ls ls' : Expr.Depths}
    (h : K.Aligned X X' ls ls') {y y' : Name} (hy : y ∉ X) (hy' : y' ∉ X') (depth : Nat) :
    (K.bind y y').Aligned (y :: X) (y' :: X') ((y, depth) :: ls) ((y', depth) :: ls') where
  plain := h.plain
  used := by
    rintro z z' (hz | ⟨rfl, rfl⟩)
    · exact ⟨.tail _ (h.used z z' hz).1, .tail _ (h.used z z' hz).2⟩
    · exact ⟨.head _, .head _⟩
  same := by
    rintro z z' (hz | ⟨rfl, rfl⟩)
    · have hne : z ≠ y := fun heq => hy (heq ▸ (h.used z z' hz).1)
      have hne' : z' ≠ y' := fun heq => hy' (heq ▸ (h.used z z' hz).2)
      rw [Expr.namelessVar_cons_of_ne ls depth hne, Expr.namelessVar_cons_of_ne ls' depth hne']
      exact h.same z z' hz
    · rw [Expr.namelessVar_cons_self, Expr.namelessVar_cons_self]

theorem Expr.namelessUnder_annotate (σ : Style) (ls : Depths) (depth : Nat) (t e : Expr) :
    (σ.annotate t e).namelessUnder ls depth = (Expr.the t e).namelessUnder ls depth := by
  by_cases h : t = .absurd <;> simp [Style.annotate, namelessUnder, h]

theorem byForm_congr {K : Correspondence} {A A' : Value} (h : Both K A A') :
    A.byForm = A'.byForm := by
  cases h with
  | quant q _ _ _ => cases q <;> rfl
  | _ => rfl

open TypeKernel.Expr in
/-- Matching tasks read back as expressions with one nameless form. -/
theorem Reads.nameless {σ τ : Style} (hσ : σ.Fresh) (hτ : τ.Fresh) {X : List Name} {t : Task}
    {n : Expr} (h : Reads σ X t n) {K : Correspondence} {X' : List Name} {t' : Task} {n' : Expr}
    {ls ls' : Depths} {depth : Nat} (h' : Reads τ X' t' n') (m : t.Matches K t')
    (al : K.Aligned X X' ls ls') : n.namelessUnder ls depth = n'.namelessUnder ls' depth := by
  induction h generalizing K X' t' n' ls ls' depth with
  | value hA _ ih =>
      cases m with | value mA mv =>
        obtain ⟨_, hA', h'⟩ := h'.inversion
        have mA' := (byName_answer (.force mA) al.plain).both hA hA'
        exact ih h' (.element mA' mv) al
  | univ _ ih =>
      cases m with | element mA mv =>
        cases mA using Both.byForm with | const =>
        exact ih h'.inversion (.type mv) al
  | @lam _ _ _ _ _ _ y _ _ _ hf hy hB hb _ ih =>
      cases m with | element mA mv =>
        cases mA using Both.byForm with | quant _ _ md mr =>
        obtain ⟨_, y', _, _, _, rfl, hf', hy', hB', hb', hn'⟩ := h'.inversion
        have mf := (byName_answer (.force mv) al.plain).both hf hf'
        have al' := al.bind (hy ▸ hσ _ _) (hy' ▸ hτ _ _) depth
        have my := Both.ofVar md y y'
        have mB := (byName_answer (.apply (mr.mono (K.le_bind _ _)) my) al'.plain).both hB hB'
        have mb := (byName_answer.call (mf.mono (K.le_bind _ _)) my al'.plain).both hb hb'
        simp only [namelessUnder, ih hn' (.value mB mb) al']
  | cons ha hb _ hB _ ihl ihn =>
      cases m with | element mA mv =>
        cases mA using Both.byForm with | quant _ _ md mr =>
        obtain ⟨_, _, _, _, _, rfl, ha', hb', hl', hB', hn'⟩ := h'.inversion
        have ma := (byName_answer.project .car mv al.plain).both ha ha'
        have mb := (byName_answer.project .cdr mv al.plain).both hb hb'
        have mB := (byName_answer (.apply mr ma) al.plain).both hB hB'
        simp only [namelessUnder, ihl hl' (.value md ma) al, ihn hn' (.value mB mb) al]
  | sole =>
      cases m with | element mA mv =>
        cases mA using Both.byForm with | const =>
        cases h'.inversion
        rfl
  | absurd hv _ ih =>
      cases m with | element mA mv =>
        cases mA using Both.byForm with | const =>
        obtain ⟨_, _, _, rfl, _⟩ := h'.inversion
        simp [namelessUnder]
  | byForm hA hv _ ih =>
      cases m with | element mA mv =>
        rw [byForm_congr mA] at hA
        cases h' with
        | byForm _ hv' h' =>
          have mv' := (byName_answer (.force mv) al.plain).both hv hv'
          exact ih h' (.canonical mA mv') al
        | _ => cases hA
  | stuck _ ih =>
      cases m with | canonical mA mv =>
        cases mv using Both.byForm with | neutral _ me =>
        exact ih h'.inversion (.neutral me) al
  | zero =>
      cases m with | canonical mA mv =>
        cases mv using Both.byForm with | const =>
        cases h'.inversion
        rfl
  | quote =>
      cases m with | canonical mA mv =>
        cases mv using Both.byForm with | quote =>
        cases h'.inversion
        rfl
  | nil =>
      cases m with | canonical mA mv =>
        cases mA using Both.byForm with | unary _ _ =>
        cases mv using Both.byForm with | const =>
        cases h'.inversion
        rfl
  | vecNil =>
      cases m with | canonical mA mv =>
        cases mA using Both.byForm with | binary _ _ _ =>
        cases mv using Both.byForm with | const =>
        cases h'.inversion
        rfl
  | add1 _ ih =>
      cases m with | canonical mA mv =>
        cases mA using Both.byForm with | const =>
        cases mv using Both.byForm with | unary _ mw =>
        obtain ⟨_, rfl, hn'⟩ := h'.inversion
        simp only [namelessUnder, ih hn' (.value (.const _) mw) al]
  | listCons _ _ ih ihs =>
      cases m with | canonical mA mv =>
        cases mA using Both.byForm with | unary _ mE =>
        cases mv using Both.byForm with | binary _ mv mvs =>
        obtain ⟨_, _, rfl, h', hs'⟩ := h'.inversion
        simp only [namelessUnder, ih h' (.value mE mv) al, ihs hs' (.value (.unary .list mE) mvs) al]
  | vecCons hk _ _ ih ihs =>
      cases m with | canonical mA mv =>
        cases mA using Both.byForm with | binary _ mE mk =>
        cases mv using Both.byForm with | binary _ mv mvs =>
        obtain ⟨_, _, _, rfl, hk', h', hs'⟩ := h'.inversion
        cases (byName_answer (.force mk) al.plain).both hk hk' using Both.byForm with | unary _ mk' =>
        simp only [namelessUnder, ih h' (.value mE mv) al, ihs hs' (.value (.binary .vec mE mk') mvs) al]
  | left _ ih =>
      cases m with | canonical mA mv =>
        cases mA using Both.byForm with | binary _ ml _ =>
        cases mv using Both.byForm with | unary _ mw =>
        obtain ⟨_, rfl, hn'⟩ := h'.inversion
        simp only [namelessUnder, ih hn' (.value ml mw) al]
  | right _ ih =>
      cases m with | canonical mA mv =>
        cases mA using Both.byForm with | binary _ _ mr =>
        cases mv using Both.byForm with | unary _ mw =>
        obtain ⟨_, rfl, hn'⟩ := h'.inversion
        simp only [namelessUnder, ih hn' (.value mr mw) al]
  | same _ ih =>
      cases m with | canonical mA mv =>
        cases mA using Both.byForm with | equal mT _ _ =>
        cases mv using Both.byForm with | unary _ mw =>
        obtain ⟨_, rfl, hn'⟩ := h'.inversion
        simp only [namelessUnder, ih hn' (.value mT mw) al]
  | type hA _ ih =>
      cases m with | type mA =>
        obtain ⟨_, hA', h'⟩ := h'.inversion
        have mA' := (byName_answer (.force mA) al.plain).both hA hA'
        exact ih h' (.former mA') al
  | const hc =>
      cases m with | former mA =>
        cases mA using Both.byForm with | const =>
        cases h'.inversion
        rfl
  | quant hy _ hB _ ihd ihr =>
      cases m with | former mA =>
        cases mA using Both.byForm with | quant _ _ md mr =>
        obtain ⟨_, _, _, _, rfl, hy', hd', hB', hr'⟩ := h'.inversion
        have al' := al.bind (hy ▸ hσ _ _) (hy' ▸ hτ _ _) depth
        have mB := (byName_answer (.apply (mr.mono (K.le_bind _ _)) (Both.ofVar md _ _))
          al'.plain).both hB hB'
        simp only [namelessUnder, ihd hd' (.type md) al, ihr hr' (.type mB) al']
  | list _ ih =>
      cases m with | former mA =>
        cases mA using Both.byForm with | unary _ mE =>
        obtain ⟨_, rfl, hn'⟩ := h'.inversion
        simp only [namelessUnder, ih hn' (.type mE) al]
  | vec _ _ ih ihk =>
      cases m with | former mA =>
        cases mA using Both.byForm with | binary _ mE mk =>
        obtain ⟨_, _, rfl, h', hk'⟩ := h'.inversion
        simp only [namelessUnder, ih h' (.type mE) al, ihk hk' (.value (.const _) mk) al]
  | either _ _ ihl ihr =>
      cases m with | former mA =>
        cases mA using Both.byForm with | binary _ ml mr =>
        obtain ⟨_, _, rfl, hl', hr'⟩ := h'.inversion
        simp only [namelessUnder, ihl hl' (.type ml) al, ihr hr' (.type mr) al]
  | equal _ _ _ iht ihl ihr =>
      cases m with | former mA =>
        cases mA using Both.byForm with | equal mT ml mr =>
        obtain ⟨_, _, _, rfl, ht', hl', hr'⟩ := h'.inversion
        simp only [namelessUnder, iht ht' (.type mT) al, ihl hl' (.value mT ml) al,
          ihr hr' (.value mT mr) al]
  | stuckType _ ih =>
      cases m with | former mA =>
        cases mA using Both.byForm with | neutral _ me =>
        exact ih h'.inversion (.neutral me) al
  | var x =>
      cases m with | neutral me =>
        cases me using Matches.stuckByForm with | var hx =>
        cases h'.inversion
        exact al.same _ _ hx
  | app _ _ ihf iha =>
      cases m with | neutral me =>
        cases me using Matches.stuckByForm with | app mf md ma =>
        obtain ⟨_, _, rfl, hf', ha'⟩ := h'.inversion
        simp only [namelessUnder, ihf hf' (.neutral mf) al, iha ha' (.value md ma) al]
  | proj p _ ih =>
      cases m with | neutral me =>
        cases me using Matches.stuckByForm with | proj _ mt =>
        obtain ⟨_, rfl, hn'⟩ := h'.inversion
        simp only [namelessUnder, ih hn' (.neutral mt) al]
  | fold f _ _ _ _ iht ihB ihb ihs =>
      cases m with | neutral me =>
        cases me using Matches.stuckByForm with | fold _ mt mB mb mS ms =>
        obtain ⟨_, _, _, _, rfl, ht', hB', hb', hs'⟩ := h'.inversion
        have eb : (Expr.the _ _).namelessUnder ls depth = (Expr.the _ _).namelessUnder ls' depth :=
          namelessUnder_the_congr (ihB hB' (.type mB) al) (ihb hb' (.value mB mb) al)
        rw [← namelessUnder_annotate σ, ← namelessUnder_annotate τ] at eb
        simp only [namelessUnder]
        rw [iht ht' (.neutral mt) al, eb, ihs hs' (.value mS ms) al]
  | induct i _ _ _ _ iht ihm ihb ihs =>
      cases m with | neutral me =>
        cases me using Matches.stuckByForm with | induct _ mt mM mm mB mb mS ms =>
        obtain ⟨_, _, _, _, rfl, ht', hm', hb', hs'⟩ := h'.inversion
        simp only [namelessUnder, iht ht' (.neutral mt) al, ihm hm' (.value mM mm) al,
          ihb hb' (.value mB mb) al, ihs hs' (.value mS ms) al]
  | transport k _ _ _ iht ihm ihb =>
      cases m with | neutral me =>
        cases me using Matches.stuckByForm with | transport _ mt mM mm mB mb =>
        obtain ⟨_, _, _, rfl, ht', hm', hb'⟩ := h'.inversion
        simp only [namelessUnder, iht ht' (.neutral mt) al, ihm hm' (.value mM mm) al,
          ihb hb' (.value mB mb) al]
  | indAbsurd _ _ iht ihm =>
      cases m with | neutral me =>
        cases me using Matches.stuckByForm with | indAbsurd mt _ mm =>
        obtain ⟨_, _, rfl, ht', hm'⟩ := h'.inversion
        simp [namelessUnder, ihm hm' (.type mm) al]
  | indVec _ _ _ _ _ ihk iht ihm ihb ihs =>
      cases m with | neutral me =>
        cases me using Matches.stuckByForm with | indVec mN mk mt mM mm mB mb mS ms =>
        obtain ⟨_, _, _, _, _, rfl, hk', ht', hm', hb', hs'⟩ := h'.inversion
        simp only [namelessUnder, ihk hk' (.value mN mk) al, iht ht' (.neutral mt) al,
          ihm hm' (.value mM mm) al, ihb hb' (.value mB mb) al, ihs hs' (.value mS ms) al]
  | trans _ _ ihl ihr =>
      cases m with | neutral me =>
        cases me using Matches.stuckByForm with | trans mL ml mR mr =>
        obtain ⟨_, _, rfl, hl', hr'⟩ := h'.inversion
        simp only [namelessUnder, ihl hl' (.value mL ml) al, ihr hr' (.value mR mr) al]
  | cong _ _ _ iht ihF ihf =>
      cases m with | neutral me =>
        cases me using Matches.stuckByForm with | cong mt mF mf =>
        obtain ⟨_, _, _, rfl, ht', hF', hf'⟩ := h'.inversion
        have ef : (Expr.the _ _).namelessUnder ls depth = (Expr.the _ _).namelessUnder ls' depth :=
          namelessUnder_the_congr (ihF hF' (.type mF) al) (ihf hf' (.value mF mf) al)
        rw [← namelessUnder_annotate σ, ← namelessUnder_annotate τ] at ef
        simp only [namelessUnder]
        rw [iht ht' (.neutral mt) al, ef]

theorem Expr.known_element (σ : Style) {n : Expr} (h : n.Known) : (σ.element n).Known := by
  rw [Style.element]
  split
  · exact h
  · trivial

theorem Expr.known_annotate (σ : Style) {t e : Expr} (ht : t.Known) (he : e.Known) :
    (σ.annotate t e).Known := by
  refine ⟨ht, ?_⟩
  split
  · exact known_element σ he
  · exact he

theorem Reads.known {σ : Style} {X : List Name} {t : Task} {n : Expr} (h : Reads σ X t n) :
    n.Known := by
  induction h with
  | absurd _ _ ih => exact ⟨trivial, Expr.known_element σ ih⟩
  | indAbsurd _ _ iht ihm => exact ⟨⟨trivial, Expr.known_element σ iht⟩, ihm⟩
  | fold _ _ _ _ _ iht ihB ihb ihs => exact ⟨iht, Expr.known_annotate σ ihB ihb, ihs⟩
  | cong _ _ _ iht ihF ihf => exact ⟨iht, Expr.known_annotate σ ihF ihf⟩
  | _ => simp_all [Expr.Known]

theorem Reads.alphaEquiv {σ τ : Style} (hσ : σ.Fresh) (hτ : τ.Fresh) {X X' : List Name} {t t' : Task}
    {n n' : Expr} (h : Reads σ X t n) (h' : Reads τ X' t' n') {K : Correspondence}
    (m : t.Matches K t') (al : K.Aligned X X' [] []) : n.alphaEquiv n' = some true :=
  Expr.alphaEquiv_of_nameless_eq h.known (h.nameless hσ hτ h' m al)

/-! ## A style without choices

If names depend only on the place of a binder and every element of `Absurd` is given as one variable,
expressions with one nameless form are equal.
-/

/-- Names by place, and `b` for every element of `Absurd`. -/
def Style.byPlace (b : Name) : Style where
  pick X _ := "x" ++ Text.subscriptNumeral (firstUnused X "x" X.length 0)
  impossible := some b

theorem Style.byPlace_fresh (b : Name) : (Style.byPlace b).Fresh :=
  fun X _ => firstUnused_notMem X "x" 0

theorem Style.ofHints_fresh : Style.ofHints.Fresh :=
  Style.ofHints_pick_notMem

namespace Expr

/-- Binders are named by their place and elements of `Absurd` are given as `b`. -/
def Placed (b : Name) : List Name → Expr → Prop
  | _, .var _ => True
  | _, .quote _ => True
  | _, .const _ => True
  | X, .unary _ e => e.Placed b X
  | X, .binary _ e₁ e₂ => e₁.Placed b X ∧ e₂.Placed b X
  | X, .equal t l r => t.Placed b X ∧ l.Placed b X ∧ r.Placed b X
  | X, .quant _ x d r => x = (Style.byPlace b).pick X "" ∧ d.Placed b X ∧ r.Placed b (x :: X)
  | X, .lam x e => x = (Style.byPlace b).pick X "" ∧ e.Placed b (x :: X)
  | X, .the t e => (t = .absurd → e = .var b) ∧ t.Placed b X ∧ e.Placed b X
  | X, .app f a => f.Placed b X ∧ a.Placed b X
  | X, .proj _ t => t.Placed b X
  | X, .fold _ t c s => t.Placed b X ∧ c.Placed b X ∧ s.Placed b X
  | X, .induct _ t m c s => t.Placed b X ∧ m.Placed b X ∧ c.Placed b X ∧ s.Placed b X
  | X, .transport _ t m c => t.Placed b X ∧ m.Placed b X ∧ c.Placed b X
  | X, .indAbsurd t m => t.Placed b X ∧ m.Placed b X
  | X, .indVec n t m c s =>
      n.Placed b X ∧ t.Placed b X ∧ m.Placed b X ∧ c.Placed b X ∧ s.Placed b X
  | X, .trans l r => l.Placed b X ∧ r.Placed b X
  | X, .cong t f => t.Placed b X ∧ f.Placed b X
  | _, .todo => True
  | _, .malformed _ => True

/-- Below these binders a nameless variable comes from one name only. -/
structure OneName (ls : Depths) (depth : Nat) : Prop where
  inj : ∀ x x', namelessVar ls x = namelessVar ls x' → x = x'
  below : ∀ x i, namelessVar ls x = .bound i → i < depth

theorem OneName.nil : OneName [] 0 :=
  ⟨fun _ _ h => by simpa [namelessVar] using h, fun _ _ h => by simp [namelessVar] at h⟩

theorem OneName.cons {ls : Depths} {depth : Nat} (h : OneName ls depth) (y : Name) :
    OneName ((y, depth) :: ls) (depth + 1) where
  inj x x' hx := by
    by_cases hy : x = y <;> by_cases hy' : x' = y
    · rw [hy, hy']
    · rw [hy, namelessVar_cons_self, namelessVar_cons_of_ne ls depth hy'] at hx
      exact (Nat.lt_irrefl depth (h.below x' depth hx.symm)).elim
    · rw [hy', namelessVar_cons_self, namelessVar_cons_of_ne ls depth hy] at hx
      exact (Nat.lt_irrefl depth (h.below x depth hx)).elim
    · rw [namelessVar_cons_of_ne ls depth hy, namelessVar_cons_of_ne ls depth hy'] at hx
      exact h.inj x x' hx
  below x i hx := by
    by_cases hy : x = y
    · rw [hy, namelessVar_cons_self] at hx
      cases hx
      exact Nat.lt_succ_self depth
    · rw [namelessVar_cons_of_ne ls depth hy] at hx
      exact Nat.lt_succ_of_lt (h.below x i hx)

/-- Expressions in the style without choices are told apart by their nameless forms. -/
theorem Placed.eq {b : Name} (n : Expr) : ∀ {n' : Expr} {X : List Name} {ls : Depths} {depth : Nat},
    n.Placed b X → n'.Placed b X → OneName ls depth →
      n.namelessUnder ls depth = n'.namelessUnder ls depth → n = n' := by
  intro n'
  induction n, n' using twin with
  | apart n n' ne =>
      intro X ls depth _ _ _ h
      refine (ne ?_).elim
      rw [← head_namelessUnder ls depth n, h, head_namelessUnder]
  | var x y =>
      intro X ls depth _ _ one h
      rw [one.inj x y h]
  | quote | const | todo | malformed =>
      intros
      rfl
  | unary _ _ _ ih | proj _ _ _ ih =>
      intro X ls depth p p' one h
      simp only [namelessUnder, Nameless.one.injEq, true_and] at h
      rw [ih p p' one h]
  | lam x e x' e' ih =>
      intro X ls depth p p' one h
      obtain ⟨rfl, pe⟩ := p
      obtain ⟨rfl, pe'⟩ := p'
      simp only [namelessUnder, Nameless.one.injEq, true_and] at h
      rw [ih pe pe' (one.cons _) h]
  | quant q x d r x' d' r' ihd ihr =>
      intro X ls depth p p' one h
      obtain ⟨rfl, pd, pr⟩ := p
      obtain ⟨rfl, pd', pr'⟩ := p'
      simp only [namelessUnder, Nameless.two.injEq, true_and] at h
      rw [ihd pd pd' one h.1, ihr pr pr' (one.cons _) h.2]
  | the t e t' e' iht ihe =>
      intro X ls depth p p' one h
      simp only [namelessUnder] at h
      by_cases ht : t = .absurd <;> by_cases ht' : t' = .absurd
      · rw [p.1 ht, p'.1 ht', ht, ht']
      · simp [ht, ht'] at h
      · simp [ht, ht'] at h
      · simp only [ht, ht', if_false, Nameless.two.injEq, true_and] at h
        rw [iht p.2.1 p'.2.1 one h.1, ihe p.2.2 p'.2.2 one h.2]
  | binary _ _ _ _ _ ih₁ ih₂ | app _ _ _ _ ih₁ ih₂ | indAbsurd _ _ _ _ ih₁ ih₂ | trans _ _ _ _ ih₁ ih₂
  | cong _ _ _ _ ih₁ ih₂ =>
      intro X ls depth p p' one h
      simp only [namelessUnder, Nameless.two.injEq, true_and] at h
      rw [ih₁ p.1 p'.1 one h.1, ih₂ p.2 p'.2 one h.2]
  | equal _ _ _ _ _ _ ih₁ ih₂ ih₃ | fold _ _ _ _ _ _ _ ih₁ ih₂ ih₃
  | transport _ _ _ _ _ _ _ ih₁ ih₂ ih₃ =>
      intro X ls depth p p' one h
      simp only [namelessUnder, Nameless.three.injEq, true_and] at h
      rw [ih₁ p.1 p'.1 one h.1, ih₂ p.2.1 p'.2.1 one h.2.1, ih₃ p.2.2 p'.2.2 one h.2.2]
  | induct _ _ _ _ _ _ _ _ _ ih₁ ih₂ ih₃ ih₄ =>
      intro X ls depth p p' one h
      simp only [namelessUnder, Nameless.four.injEq, true_and] at h
      rw [ih₁ p.1 p'.1 one h.1, ih₂ p.2.1 p'.2.1 one h.2.1, ih₃ p.2.2.1 p'.2.2.1 one h.2.2.1,
        ih₄ p.2.2.2 p'.2.2.2 one h.2.2.2]
  | indVec _ _ _ _ _ _ _ _ _ _ ih₁ ih₂ ih₃ ih₄ ih₅ =>
      intro X ls depth p p' one h
      simp only [namelessUnder, Nameless.five.injEq, true_and] at h
      rw [ih₁ p.1 p'.1 one h.1, ih₂ p.2.1 p'.2.1 one h.2.1, ih₃ p.2.2.1 p'.2.2.1 one h.2.2.1,
        ih₄ p.2.2.2.1 p'.2.2.2.1 one h.2.2.2.1, ih₅ p.2.2.2.2 p'.2.2.2.2 one h.2.2.2.2]

end Expr

theorem Expr.placed_annotate {b : Name} {X : List Name} {t e : Expr} (ht : t.Placed b X)
    (he : e.Placed b X) : ((Style.byPlace b).annotate t e).Placed b X := by
  by_cases h : t = .absurd
  · simp [Style.annotate, Style.element, Style.byPlace, Placed, h]
  · simp [Style.annotate, Placed, h, ht, he]

/-- Reading in the style without choices gives an expression in that style. -/
theorem Reads.placed {b : Name} {X : List Name} {t : Task} {n : Expr}
    (h : Reads (.byPlace b) X t n) : n.Placed b X := by
  induction h with
  | lam hf hy hB hb _ ih => exact ⟨hy, ih⟩
  | quant hy _ hB _ ihd ihr => exact ⟨hy, ihd, ihr⟩
  | absurd hv _ ih => exact ⟨fun _ => rfl, trivial, trivial⟩
  | indAbsurd _ _ iht ihm => exact ⟨⟨fun _ => rfl, trivial, trivial⟩, ihm⟩
  | fold f _ hB hb _ iht ihB ihb ihs => exact ⟨iht, Expr.placed_annotate ihB ihb, ihs⟩
  | cong _ _ _ iht ihF ihf => exact ⟨iht, Expr.placed_annotate ihF ihf⟩
  | _ => simp_all [Expr.Placed]

end TypeKernel
