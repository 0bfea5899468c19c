/-
# TypeKernel.Proofs.Hygiene — elaboration only renames binders and annotates

An elaborated expression differs from its source in the names of binders and in the annotations that
evaluation needs, and in nothing else. `Expr.bare` forgets those annotations, on both sides; what is left
is the same up to a consistent renaming of bound variables, with every free variable under its own name.

A binder receives a name that the context does not use, and below it the context uses that name. So
what has to be kept through the induction is that the elaborated name of every free source name is in
use: the fresh name of a binder then differs from all of them, and nothing is captured. A free name
that the context does not bind can be captured (`subscripted_name_captured`), which is why the main
theorem asks that the context binds them all.
-/
import TypeKernel.Proofs.Elaboration
import TypeKernel.Proofs.Fresh
import TypeKernel.Proofs.Matches
import TypeKernel.Proofs.Scope

namespace TypeKernel

set_option autoImplicit false

namespace Expr

/-- An expression without its outermost annotation. -/
def dropThe : Expr → Expr
  | .the _ e => e
  | e => e

/-- An expression without the annotations that elaboration may add: one around the base of a fold, one
around the target of `ind-Absurd`, and one around the function of `cong`. -/
def bare : Expr → Expr
  | .var x => .var x
  | .quote a => .quote a
  | .const c => .const c
  | .unary u e => .unary u e.bare
  | .binary b e₁ e₂ => .binary b e₁.bare e₂.bare
  | .equal t l r => .equal t.bare l.bare r.bare
  | .quant q x d r => .quant q x d.bare r.bare
  | .lam x b => .lam x b.bare
  | .the t e => .the t.bare e.bare
  | .app f a => .app f.bare a.bare
  | .proj p t => .proj p t.bare
  | .fold f t b s => .fold f t.bare b.bare.dropThe s.bare
  | .induct i t mo b s => .induct i t.bare mo.bare b.bare s.bare
  | .transport k t mo b => .transport k t.bare mo.bare b.bare
  | .indAbsurd t mo => .indAbsurd t.bare.dropThe mo.bare
  | .indVec k t mo b s => .indVec k.bare t.bare mo.bare b.bare s.bare
  | .trans l r => .trans l.bare r.bare
  | .cong t f => .cong t.bare f.bare.dropThe
  | .todo => .todo
  | .malformed item => .malformed item

/-- Expressions that are equal up to a consistent renaming of bound variables. Binders may have any
names; a free variable stands for itself. -/
def SameUpToBinders (e e' : Expr) : Prop :=
  Alike (fun _ _ => True) Eq e e'

theorem orSearch_of_left {p q : Option Bool} (h : p = some true) : orSearch p q = some true := by
  rw [h]
  rfl

theorem orSearch_of_right {p q : Option Bool} (known : p.isSome) (h : q = some true) :
    orSearch p q = some true := by
  cases p with
  | none => cases known
  | some b => cases b with
    | true => rfl
    | false => exact h

theorem isSome_orSearch {p q : Option Bool} (hp : p.isSome) (hq : q.isSome) :
    (orSearch p q).isSome := by
  cases p with
  | none => cases hp
  | some b => cases b with
    | true => rfl
    | false => exact hq

end Expr

/-- Annotations around either side do not matter to `dropThe`. -/
theorem Alike.dropThe {B V : Pairing} {e e' : Expr} (h : Alike B V e e') :
    Alike B V e.dropThe e'.dropThe := by
  cases h with
  | the _ he => exact he
  | var hx => exact .var hx
  | quote a => exact .quote a
  | const c => exact .const c
  | unary u he => exact .unary u he
  | binary b h₁ h₂ => exact .binary b h₁ h₂
  | equal ht hl hr => exact .equal ht hl hr
  | quant q hx hd hr => exact .quant q hx hd hr
  | lam hx hb => exact .lam hx hb
  | app hf ha => exact .app hf ha
  | proj p ht => exact .proj p ht
  | fold f ht hb hs => exact .fold f ht hb hs
  | induct i ht hm hb hs => exact .induct i ht hm hb hs
  | transport k ht hm hb => exact .transport k ht hm hb
  | indAbsurd ht hm => exact .indAbsurd ht hm
  | indVec hn ht hm hb hs => exact .indVec hn ht hm hb hs
  | trans hl hr => exact .trans hl hr
  | cong ht hf => exact .cong ht hf
  | todo => exact .todo
  | malformed item => exact .malformed item
  | foldAnnotated added | indAbsurdAnnotated added | congAnnotated added => exact added.elim

theorem Expr.dropThe_of_ne_the {e : Expr} (h : ∀ t c, e ≠ .the t c) : e.bare.dropThe = e.bare := by
  cases e with
  | the t c => exact (h t c rfl).elim
  | _ => rfl

theorem Resembles.bare {P : Prop} {B V : Pairing} {e e' : Expr} (h : Resembles P B V e e') :
    Alike B V e.bare e'.bare := by
  induction h with
  | var hx => exact .var hx
  | quote a => exact .quote a
  | const c => exact .const c
  | unary u _ ih => exact .unary u ih
  | binary b _ _ ih₁ ih₂ => exact .binary b ih₁ ih₂
  | equal _ _ _ iht ihl ihr => exact .equal iht ihl ihr
  | quant q hx _ _ ihd ihr => exact .quant q hx ihd ihr
  | lam hx _ ih => exact .lam hx ih
  | the _ _ iht ihe => exact .the iht ihe
  | app _ _ ihf iha => exact .app ihf iha
  | proj p _ ih => exact .proj p ih
  | fold f _ _ _ iht ihb ihs => exact .fold f iht ihb.dropThe ihs
  | induct i _ _ _ _ iht ihm ihb ihs => exact .induct i iht ihm ihb ihs
  | transport k _ _ _ iht ihm ihb => exact .transport k iht ihm ihb
  | indAbsurd _ _ iht ihm => exact .indAbsurd iht.dropThe ihm
  | indVec _ _ _ _ _ ihn iht ihm ihb ihs => exact .indVec ihn iht ihm ihb ihs
  | trans _ _ ihl ihr => exact .trans ihl ihr
  | cong _ _ iht ihf => exact .cong iht ihf.dropThe
  | todo => exact .todo
  | malformed item => exact .malformed item
  | foldAnnotated _ f ne _ _ _ iht ihb ihs =>
      simp only [Expr.bare, Expr.dropThe_of_ne_the ne]
      exact .fold f iht ihb ihs
  | indAbsurdAnnotated _ ne _ _ iht ihm =>
      simp only [Expr.bare, Expr.dropThe_of_ne_the ne]
      exact .indAbsurd iht ihm
  | congAnnotated _ ne _ _ iht ihf =>
      simp only [Expr.bare, Expr.dropThe_of_ne_the ne]
      exact .cong iht ihf

/-- What checking accepts has known parts only, so the search for a free name has an answer. -/
theorem Elaborated.occursFree_isSome {Γ : Context} {r : Renaming} {e core : Expr}
    (h : Elaborated Γ r e core) (x : Name) : (e.occursFree x).isSome := by
  have under : ∀ {z : Name} {o : Option Bool}, o.isSome →
      (if z = x then some false else o).isSome := fun {z o} known => by
    split
    · rfl
    · exact known
  induction h with
  | var | quote | const => rfl
  | unary _ _ ih | proj _ _ ih => exact ih
  | binary _ _ _ ih₁ ih₂ | the _ _ ih₁ ih₂ | app _ _ ih₁ ih₂ | indAbsurd _ _ ih₁ ih₂
  | trans _ _ ih₁ ih₂ | cong _ _ _ ih₁ ih₂ => exact Expr.isSome_orSearch ih₁ ih₂
  | equal _ _ _ ih₁ ih₂ ih₃ | fold _ _ _ _ _ ih₁ ih₂ ih₃ | transport _ _ _ _ ih₁ ih₂ ih₃ =>
      exact Expr.isSome_orSearch ih₁ (Expr.isSome_orSearch ih₂ ih₃)
  | induct _ _ _ _ _ ih₁ ih₂ ih₃ ih₄ =>
      exact Expr.isSome_orSearch ih₁ (Expr.isSome_orSearch ih₂ (Expr.isSome_orSearch ih₃ ih₄))
  | indVec _ _ _ _ _ ih₁ ih₂ ih₃ ih₄ ih₅ =>
      exact Expr.isSome_orSearch ih₁ (Expr.isSome_orSearch ih₂
        (Expr.isSome_orSearch ih₃ (Expr.isSome_orSearch ih₄ ih₅)))
  | quant _ _ _ _ ihd ihe => exact Expr.isSome_orSearch ihd (under ihe)
  | lam _ _ ih => exact under ih

/-- What holds of all names that two searches in a row find holds of those that either finds. -/
theorem Expr.forall_of_orSearch {P : Name → Prop} {first second : Name → Option Bool}
    (known : ∀ x, (first x).isSome) (h : ∀ x, orSearch (first x) (second x) = some true → P x) :
    (∀ x, first x = some true → P x) ∧ ∀ x, second x = some true → P x :=
  ⟨fun x free => h x (orSearch_of_left free), fun x free => h x (orSearch_of_right (known x) free)⟩

/-- The elaborated names of the free names are in use, and `V` pairs each free name with its
elaborated name. -/
def NamesKept (Γ : Context) (r : Renaming) (V : Pairing) (e : Expr) : Prop :=
  ∀ x, e.occursFree x = some true → r.rename x ∈ Γ.names ∧ V x (r.rename x)

/-- Entering a binder: its fresh name is none of the names in use, so it captures none of them. -/
theorem NamesKept.under {Γ : Context} {r : Renaming} {V : Pairing} {x y : Name} {type : Value}
    {b : Expr} (fresh : Γ.fresh x = .ok y)
    (h : ∀ z, z ≠ x → b.occursFree z = some true → r.rename z ∈ Γ.names ∧ V z (r.rename z)) :
    NamesKept (Γ.bindFree y type) (r.extend x y) (V.under x y) b := by
  intro z free
  rw [Context.names_bindFree]
  by_cases here : z = x
  · subst here
    rw [Renaming.rename_extend_self]
    exact ⟨.head _, .inl ⟨rfl, rfl⟩⟩
  · obtain ⟨used, paired⟩ := h z here free
    rw [Renaming.rename_extend_of_ne r y here]
    have apart : r.rename z ≠ y := fun same => Context.fresh_notMem fresh (same ▸ used)
    exact ⟨.tail _ used, .inr ⟨here, apart, paired⟩⟩

/-- An argument that is not annotated is elaborated to one that is not either, before its annotation is
added. -/
theorem Elaborated.ne_the {Γ : Context} {r : Renaming} {e core : Expr} (h : Elaborated Γ r e core)
    (bare : ∀ t c, core ≠ .the t c) : ∀ t c, e ≠ .the t c := by
  rintro t c rfl
  cases h with
  | the _ _ => exact bare _ _ rfl

/-- Either an argument is annotated already, or its annotation is added. -/
theorem Expr.annotate_cases (e t : Expr) :
    (e.annotate t = e) ∨ (e.annotate t = .the t e ∧ ∀ a c, e ≠ .the a c) := by
  cases e with
  | the a c => exact .inl rfl
  | _ => exact .inr ⟨rfl, nofun⟩

/-- Elaboration keeps the form of an expression up to binders and added annotations. -/
theorem Elaborated.resembles {Γ : Context} {r : Renaming} {e core : Expr}
    (h : Elaborated Γ r e core) :
    ∀ {V : Pairing}, NamesKept Γ r V e → Resembles True (fun _ _ => True) V e core := by
  induction h with
  | @var Γ r x b found usable =>
      intro V kept
      exact .var (kept x (by simp [Expr.occursFree])).2
  | quote => exact fun _ => .quote _
  | const c => exact fun _ => .const c
  | unary u _ ih => exact fun kept => .unary u (ih kept)
  | proj p _ ih => exact fun kept => .proj p (ih kept)
  | binary b h₁ _ ih₁ ih₂ =>
      intro V kept
      obtain ⟨k₁, k₂⟩ := Expr.forall_of_orSearch h₁.occursFree_isSome kept
      exact .binary b (ih₁ k₁) (ih₂ k₂)
  | the ht _ iht ihe =>
      intro V kept
      obtain ⟨kt, ke⟩ := Expr.forall_of_orSearch ht.occursFree_isSome kept
      exact .the (iht kt) (ihe ke)
  | app hf _ ihf iha =>
      intro V kept
      obtain ⟨kf, ka⟩ := Expr.forall_of_orSearch hf.occursFree_isSome kept
      exact .app (ihf kf) (iha ka)
  | trans ha _ iha ihb =>
      intro V kept
      obtain ⟨ka, kb⟩ := Expr.forall_of_orSearch ha.occursFree_isSome kept
      exact .trans (iha ka) (ihb kb)
  | indAbsurd ht _ iht ihm =>
      intro V kept
      obtain ⟨kt, km⟩ := Expr.forall_of_orSearch ht.occursFree_isSome kept
      rcases Expr.annotate_cases _ .absurd with same | ⟨added, bare⟩
      · rw [same]
        exact .indAbsurd (iht kt) (ihm km)
      · rw [added]
        exact .indAbsurdAnnotated trivial (ht.ne_the bare) (iht kt) (ihm km)
  | cong a ht hf iht ihf =>
      intro V kept
      obtain ⟨kt, kf⟩ := Expr.forall_of_orSearch ht.occursFree_isSome kept
      rcases Expr.annotate_cases _ a with same | ⟨added, bare⟩
      · rw [same]
        exact .cong (iht kt) (ihf kf)
      · rw [added]
        exact .congAnnotated trivial (hf.ne_the bare) (iht kt) (ihf kf)
  | equal ht ha _ iht iha ihb =>
      intro V kept
      obtain ⟨kt, rest⟩ := Expr.forall_of_orSearch ht.occursFree_isSome kept
      obtain ⟨ka, kb⟩ := Expr.forall_of_orSearch ha.occursFree_isSome rest
      exact .equal (iht kt) (iha ka) (ihb kb)
  | fold f a ht hb _ iht ihb ihs =>
      intro V kept
      obtain ⟨kt, rest⟩ := Expr.forall_of_orSearch ht.occursFree_isSome kept
      obtain ⟨kb, ks⟩ := Expr.forall_of_orSearch hb.occursFree_isSome rest
      rcases Expr.annotate_cases _ a with same | ⟨added, bare⟩
      · rw [same]
        exact .fold f (iht kt) (ihb kb) (ihs ks)
      · rw [added]
        exact .foldAnnotated trivial f (hb.ne_the bare) (iht kt) (ihb kb) (ihs ks)
  | transport k ht hm _ iht ihm ihb =>
      intro V kept
      obtain ⟨kt, rest⟩ := Expr.forall_of_orSearch ht.occursFree_isSome kept
      obtain ⟨km, kb⟩ := Expr.forall_of_orSearch hm.occursFree_isSome rest
      exact .transport k (iht kt) (ihm km) (ihb kb)
  | induct i ht hm hb _ iht ihm ihb ihs =>
      intro V kept
      obtain ⟨kt, rest⟩ := Expr.forall_of_orSearch ht.occursFree_isSome kept
      obtain ⟨km, rest⟩ := Expr.forall_of_orSearch hm.occursFree_isSome rest
      obtain ⟨kb, ks⟩ := Expr.forall_of_orSearch hb.occursFree_isSome rest
      exact .induct i (iht kt) (ihm km) (ihb kb) (ihs ks)
  | indVec hk ht hm hb _ ihk iht ihm ihb ihs =>
      intro V kept
      obtain ⟨kk, rest⟩ := Expr.forall_of_orSearch hk.occursFree_isSome kept
      obtain ⟨kt, rest⟩ := Expr.forall_of_orSearch ht.occursFree_isSome rest
      obtain ⟨km, rest⟩ := Expr.forall_of_orSearch hm.occursFree_isSome rest
      obtain ⟨kb, ks⟩ := Expr.forall_of_orSearch hb.occursFree_isSome rest
      exact .indVec (ihk kk) (iht kt) (ihm km) (ihb kb) (ihs ks)
  | quant q fresh hd _ ihd ihe =>
      intro V kept
      obtain ⟨kd, ke⟩ := Expr.forall_of_orSearch hd.occursFree_isSome kept
      refine .quant q trivial (ihd kd) (ihe (NamesKept.under fresh fun z ne free => ke z ?_))
      rw [if_neg (Ne.symm ne), free]
  | lam fresh _ ih =>
      intro V kept
      refine .lam trivial (ih (NamesKept.under fresh fun z ne free => kept z ?_))
      simp only [Expr.occursFree, if_neg (Ne.symm ne), free]

/-- Elaboration keeps the form of an expression up to binders and annotations. -/
theorem Elaborated.alike {Γ : Context} {r : Renaming} {e core : Expr} (h : Elaborated Γ r e core)
    {V : Pairing} (kept : NamesKept Γ r V e) : Alike (fun _ _ => True) V e.bare core.bare :=
  (h.resembles kept).bare

/-- One of the judgments elaborates a source expression of the context to `core`. -/
inductive Elaborates (n : Nat) (Γ : Context) (e core : Expr) : Prop where
  | synthesized {s s' : Session} {type : Value} :
      (synthesize n Γ e .empty : ByNeed _) s = .ok (core, type) s' → Elaborates n Γ e core
  | checked {s s' : Session} {expected : Value} :
      (check n Γ e expected .empty : ByNeed _) s = .ok core s' → Elaborates n Γ e core
  | formed {s s' : Session} :
      (isType n Γ e .empty : ByNeed _) s = .ok core s' → Elaborates n Γ e core

theorem Elaborates.elaborated {n : Nat} {Γ : Context} {e core : Expr}
    (h : Elaborates n Γ e core) : Elaborated Γ .empty e core := by
  have judged := judge_elaborates (m := ByNeed) n e
  cases h with
  | synthesized h => exact judged.synth _ ⟨_, _, h⟩
  | checked h => exact judged.check _ ⟨_, _, h⟩
  | formed h => exact judged.isType _ ⟨_, _, h⟩

/-- Up to the annotations that evaluation needs, an elaborated expression is its source with other
names for the binders. Free variables keep their names and none is captured. -/
theorem elaboration_sameUpToBinders {n : Nat} {Γ : Context} {e core : Expr}
    (h : Elaborates n Γ e core) (bound : ∀ x, e.occursFree x = some true → x ∈ Γ.names) :
    Expr.SameUpToBinders e.bare core.bare :=
  h.elaborated.alike fun x free => ⟨bound x free, rfl⟩

/-- `(which-Nat x zero (λ (x) x))`. -/
def shadowingStep : Expr :=
  .fold .whichNat (.var "x") .zero (.lam "x" (.var "x"))

/-- With `x` in scope the binder of the step is renamed and the base is annotated. -/
theorem shadowingStep_sameUpToBinders :
    Elaborates 9 oneNumber shadowingStep
        (.fold .whichNat (.var "x") (.the .nat .zero) (.lam "x₁" (.var "x₁"))) ∧
      (∀ x, shadowingStep.occursFree x = some true → x ∈ oneNumber.names) ∧
      Expr.SameUpToBinders (.fold .whichNat (.var "x") .zero (.lam "x" (.var "x")))
        (.fold .whichNat (.var "x") .zero (.lam "x₁" (.var "x₁"))) := by
  have elaborates : Elaborates 9 oneNumber shadowingStep
      (.fold .whichNat (.var "x") (.the .nat .zero) (.lam "x₁" (.var "x₁"))) :=
    .synthesized (s := .empty) (by rfl)
  have bound : ∀ x, shadowingStep.occursFree x = some true → x ∈ oneNumber.names := by
    intro x free
    by_cases here : "x" = x
    · exact here ▸ .head _
    · simp [shadowingStep, Expr.occursFree, Expr.orSearch, here, beq_false_of_ne here] at free
  exact ⟨elaborates, bound, elaboration_sameUpToBinders elaborates bound⟩

end TypeKernel
