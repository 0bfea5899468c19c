/-
# TypeKernel.Proofs.Meaning — elaboration preserves meaning

An expression and its elaborated form are evaluated to values that match: their closures hold code with
other names for binders, and on the elaborated side with more annotations. An annotation matters only when
an eliminator is stuck, and there evaluation of the source fails. So whenever both have a normal form, it is
the same up to the names of binders.
-/
import TypeKernel.Proofs.Hygiene
import TypeKernel.Proofs.Tidy

namespace TypeKernel

set_option autoImplicit false

open Machine

/-- Binders have any names, annotations are added on the right, and the free variables are in `N`. -/
def Correspondence.elaboration (N : Name → Prop) : Correspondence where
  binders _ _ := True
  families _ _ := trivial
  names x y := x = y ∧ N x
  cells _ _ _ _ _ _ := True
  annotated := True
  outer := none

namespace Correspondence

variable {N : Name → Prop}

theorem within_le_elaboration : (within N).Le (elaboration N) :=
  ⟨fun _ _ _ => trivial, fun _ _ h => h, fun _ _ _ _ _ _ h => h, False.elim, fun _ h => h⟩

theorem elaboration_aligned {X : List Name} (h : ∀ x, N x → x ∈ X) :
    (elaboration N).Aligned X X [] [] where
  plain _ _ _ _ := trivial
  used := by
    rintro x _ ⟨rfl, hx⟩
    exact ⟨h x hx, h x hx⟩
  same := by
    rintro x _ ⟨rfl, -⟩
    rfl

end Correspondence

/-- By name, an expression and its elaborated form have one normal form, if both have one. -/
theorem Resembles.normal_forms {Γ : Context} (hΓ : Γ.Scoped) {e core : Expr}
    (h : Resembles True (fun _ _ => True) (Γ.env.pairing Γ.env) e core) {A v w : Value}
    (hA : A.Within Γ.BindsFree) (hv : Evals Γ.env e v) (hw : Evals Γ.env core w) {n₁ n₂ : Expr}
    (h₁ : Reads .ofHints Γ.names (.value A v) n₁) (h₂ : Reads .ofHints Γ.names (.value A w) n₂) :
    n₁.alphaEquiv n₂ = some true := by
  have le := Correspondence.within_le_elaboration (N := Γ.BindsFree)
  have al := Correspondence.elaboration_aligned (N := Γ.BindsFree) fun _ hx => hx.mem_names
  have values := (byName_answer (.eval (hΓ.env.mono le) h) al.plain).both hv hw
  exact h₁.alphaEquiv Style.ofHints_fresh Style.ofHints_fresh h₂ (.value (hA.mono le) values) al

/-- In some session that follows `s` an expression is evaluated, and later on its value is read back at the type
as a normal form. The context and the type are at hand. -/
inductive Normalizes (Γ : Context) (A : Value) (s : Session) (e n : Expr) : Prop
  | intro {s₁ s₂ s₃ s₄ : Session} {ps ps' : List Piece} {k j : Nat} {v : Value}
      (before : History s (handed Γ (some A)) s₁ ps) (eval : (Γ.env.eval k e : ByNeed Value) s₁ = .ok v s₂)
      (between : History s₂ (.value v :: ps) s₃ ps') (read : (readBack j Γ A v : ByNeed Expr) s₃ = .ok n s₄) :
      Normalizes Γ A s e n

theorem Normalizes.reads {Γ Γ' : Context} {A A' : Value} {e n : Expr} {s : Session}
    (h : Normalizes Γ A s e n) {K : Correspondence} (rem : Remembers K s) (hΓ : Γ.Matches K Γ')
    (hA : Both K A A') : ∃ v, Evals Γ'.env e v ∧ Reads .ofHints Γ'.names (.value A' v) n := by
  obtain ⟨before, eval, between, read⟩ := h
  cases rem.eq_erase hA
  obtain ⟨K₁, le₁, rem₁, held₁⟩ := before.held rem (.cons hA (hΓ.held rem))
  obtain ⟨K₂, le₂, rem₂, v', mv, hv'⟩ := Yields.eval rem₁.exact (hΓ.mono le₁) e _ _ _ rem₁ eval
  cases rem₂.eq_erase mv
  obtain ⟨K₃, le₃, rem₃, -⟩ := between.held rem₂ (.cons mv (held₁.mono le₂))
  have mA := hA.mono (le₁.trans (le₂.trans le₃))
  obtain ⟨_, _, _, reads⟩ := Yields.readings rem₃.exact hΓ.names (.value mA (mv.mono le₃)) _ _ _ rem₃ read
  exact ⟨_, hv', reads⟩

/-- In an established context, let an expression that mentions only names of the context have an elaborated
form. If both have a normal form at the type that was found, each normalized at some time later on, then the two
differ at most in the names of bound variables. -/
theorem elaboration_preserves_meaning {Γ : Context} {n : Nat} {s s' : Session} {e core : Expr}
    {T : Value} (hΓ : Established s Γ)
    (h : (synthesize n Γ e .empty : ByNeed (Expr × Value)) s = .ok (core, T) s')
    (bound : ∀ x, e.occursFree x = some true → x ∈ Γ.names) {n₁ n₂ : Expr}
    (h₁ : Normalizes Γ T s' e n₁) (h₂ : Normalizes Γ T s' core n₂) : n₁.alphaEquiv n₂ = some true := by
  obtain ⟨K, Γ', rem, mΓ, adm⟩ := hΓ.admitted
  obtain ⟨K', le, rem', T', mT, hj⟩ := Yields.synthesize .empty rem.exact mΓ _ _ _ rem h
  have hΓ' := adm.scoped
  have wT := (hj.stays Discipline.kernel_local hΓ' trivial).found
  have elaborated : Elaborated Γ .empty e core := (Elaborates.synthesized h).elaborated
  have resembles := elaborated.resembles (V := Γ'.env.pairing Γ'.env) fun x free =>
    ⟨bound x free, hΓ'.env.pairing (fun _ _ hx => hx) rfl x⟩
  obtain ⟨v, hv, reads⟩ := h₁.reads rem' (mΓ.mono le) mT
  obtain ⟨w, hw, reads'⟩ := h₂.reads rem' (mΓ.mono le) mT
  exact resembles.normal_forms hΓ' wT hv hw reads reads'

/-- `(the (Π ((x Nat)) Nat) (λ (x) (which-Nat (add1 x) x (λ (x) x))))`. -/
def roundabout : Expr :=
  .the (.pi "x" .nat .nat)
    (.lam "x" (.fold .whichNat (.add1 (.var "x")) (.var "x") (.lam "x" (.var "x"))))

/-- The elaborated form, where all binders have other names and the base is annotated. -/
def roundaboutCore : Expr :=
  .the (.pi "x₁" .nat .nat)
    (.lam "x₁" (.fold .whichNat (.add1 (.var "x₁")) (.the .nat (.var "x₁")) (.lam "x₂" (.var "x₂"))))

/-- With a variable `x`, the source and its elaborated form have the normal form `(λ (x₁) x₁)`. -/
theorem roundabout_meaning : ∃ Γ s₁ s₂ T, Established s₁ Γ ∧
    (synthesize 9 Γ roundabout .empty : ByNeed (Expr × Value)) s₁ = .ok (roundaboutCore, T) s₂ ∧
    Normalizes Γ T s₂ roundabout (.lam "x₁" (.var "x₁")) ∧
    Normalizes Γ T s₂ roundaboutCore (.lam "x₁" (.var "x₁")) ∧
    Expr.alphaEquiv (.lam "x₁" (.var "x₁")) (.lam "x₁" (.var "x₁")) = some true := by
  have established := (Established.empty .empty).add (n := 9) (e := .free "x" .nat) (by decide) rfl
  have bound : ∀ x, roundabout.occursFree x = some true → x ∈ oneNumber.names := by
    intro x free
    by_cases here : "x" = x
    · exact here ▸ .head _
    · simp [roundabout, Expr.occursFree, Expr.orSearch, here, beq_false_of_ne here] at free
  refine ⟨_, _, _, _, established, rfl, .intro .start (k := 9) rfl .start (j := 9) rfl,
    .intro .start (k := 9) rfl .start (j := 9) rfl, ?_⟩
  exact elaboration_preserves_meaning established (n := 9) (e := roundabout) rfl bound
    (.intro .start (k := 9) rfl .start (j := 9) rfl) (.intro .start (k := 9) rfl .start (j := 9) rfl)

end TypeKernel
