/-
# TypeKernel.Proofs.Scope — which free names an accepted expression may have

Checking gives every binder a name that is fresh in the context, and looks up a source name without
a binder of its own in that same context. The context then also holds the names given to enclosing
binders, so a source name that happens to be one of these is taken for that binder's variable. This
module says exactly when that happens.

* `Expr.Captured` describes it on the source alone: the name occurs, outside every source binder for
  it, below a binder that receives it as its fresh name.
* `free_name_visible_iff_not_captured`: a free name of an accepted expression is a variable or a
  definition of the context if and only if it is not captured.
* `subscripted_name_captured`: capture happens. With `x` in scope, `(λ (x) x₁)` is accepted as a
  function from `Nat` to `Nat` although nothing binds `x₁`.
-/
import TypeKernel.Proofs.Elaboration
import TypeKernel.Proofs.Fresh

namespace TypeKernel

set_option autoImplicit false

/-- The newest binding of a name is a variable or a definition. -/
def Context.Visible (Γ : Context) (x : Name) : Prop :=
  ∃ b, Γ.lookup x = some b ∧ b.isClaim = false

/-- `x` occurs, outside every binder for it, where a binder has been given the name `x`. The names in
use are `used`; those of them given to enclosing binders are `given`. -/
def Expr.Captured (x : Name) (used given : List Name) : Expr → Prop
  | .var z => z = x ∧ x ∈ given
  | .quote _ | .const _ | .todo | .malformed _ => False
  | .unary _ e => e.Captured x used given
  | .binary _ e₁ e₂ => e₁.Captured x used given ∨ e₂.Captured x used given
  | .equal t l r =>
      t.Captured x used given ∨ l.Captured x used given ∨ r.Captured x used given
  | .quant _ z d r =>
      d.Captured x used given ∨
        (z ≠ x ∧ ∃ y, freshAmong used z = .ok y ∧ r.Captured x (y :: used) (y :: given))
  | .lam z b => z ≠ x ∧ ∃ y, freshAmong used z = .ok y ∧ b.Captured x (y :: used) (y :: given)
  | .the t e => t.Captured x used given ∨ e.Captured x used given
  | .app f a => f.Captured x used given ∨ a.Captured x used given
  | .proj _ t => t.Captured x used given
  | .fold _ t b s =>
      t.Captured x used given ∨ b.Captured x used given ∨ s.Captured x used given
  | .induct _ t m b s =>
      t.Captured x used given ∨ m.Captured x used given ∨ b.Captured x used given ∨
        s.Captured x used given
  | .transport _ t m b =>
      t.Captured x used given ∨ m.Captured x used given ∨ b.Captured x used given
  | .indAbsurd t m => t.Captured x used given ∨ m.Captured x used given
  | .indVec n t m b s =>
      n.Captured x used given ∨ t.Captured x used given ∨ m.Captured x used given ∨
        b.Captured x used given ∨ s.Captured x used given
  | .trans l r => l.Captured x used given ∨ r.Captured x used given
  | .cong t f => t.Captured x used given ∨ f.Captured x used given

/-- One of the judgments accepts an expression of the context. -/
inductive Accepted (n : Nat) (Γ : Context) (e : Expr) : Prop where
  | synthesized {s s' : Session} {core : Expr} {type : Value} :
      (synthesize n Γ e .empty : ByNeed _) s = .ok (core, type) s' → Accepted n Γ e
  | checked {s s' : Session} {expected : Value} {core : Expr} :
      (check n Γ e expected .empty : ByNeed _) s = .ok core s' → Accepted n Γ e
  | formed {s s' : Session} {core : Expr} :
      (isType n Γ e .empty : ByNeed _) s = .ok core s' → Accepted n Γ e

theorem Accepted.elaborated {n : Nat} {Γ : Context} {e : Expr} (h : Accepted n Γ e) :
    ∃ core, Elaborated Γ .empty e core := by
  have judged := judge_elaborates (m := ByNeed) n e
  cases h with
  | synthesized h => exact ⟨_, judged.synth _ ⟨_, _, h⟩⟩
  | checked h => exact ⟨_, judged.check _ ⟨_, _, h⟩⟩
  | formed h => exact ⟨_, judged.isType _ ⟨_, _, h⟩⟩

/-! ## Contexts below binders -/

/-- `Δ` is `Γ` below binders that were given the names in `given`. -/
structure Below (Γ : Context) (given : List Name) (Δ : Context) : Prop where
  names : Δ.names = given ++ Γ.names
  apart : ∀ y ∈ given, y ∉ Γ.names
  lookup : ∀ x, x ∉ given → Δ.lookup x = Γ.lookup x

namespace Below

variable {Γ Δ : Context} {given : List Name}

theorem refl (Γ : Context) : Below Γ [] Γ where
  names := rfl
  apart := by simp
  lookup _ _ := rfl

theorem bind (below : Below Γ given Δ) {x y : Name} (type : Value) (fresh : Δ.fresh x = .ok y) :
    Below Γ (y :: given) (Δ.bindFree y type) where
  names := by rw [Context.names_bindFree, below.names, List.cons_append]
  apart z mem := by
    rcases List.mem_cons.1 mem with rfl | mem
    · have := Context.fresh_notMem fresh
      rw [below.names, List.mem_append] at this
      exact fun h => this (.inr h)
    · exact below.apart z mem
  lookup z notGiven := by
    rw [List.mem_cons, not_or] at notGiven
    rw [← below.lookup z notGiven.2]
    simp [Context.lookup, Context.bindFree, List.lookup_cons, beq_false_of_ne notGiven.1]

end Below

/-! ## Free names -/

theorem orSearch_eq_true {first second : Option Bool}
    (h : Expr.orSearch first second = some true) : first = some true ∨ second = some true := by
  match first with
  | none => simp [Expr.orSearch] at h
  | some true => exact .inl rfl
  | some false => exact .inr h

/-- What two searches in a row find, one of them finds. -/
theorem or_of_orSearch {first second : Option Bool} {P Q R : Prop}
    (h : Expr.orSearch first second = some true) (left : first = some true → P ∨ R)
    (right : second = some true → Q ∨ R) : (P ∨ Q) ∨ R := by
  rcases orSearch_eq_true h with h | h
  · exact (left h).imp_left .inl
  · exact (right h).imp_left .inr

theorem Renaming.rename_of_lookup_none {r : Renaming} {x : Name} (h : r.pairs.lookup x = none) :
    r.rename x = x := by
  simp [rename, h]

theorem Renaming.lookup_extend_of_ne {r : Renaming} {x y z : Name} (ne : z ≠ x)
    (h : r.pairs.lookup x = none) : (r.extend z y).pairs.lookup x = none := by
  simp [extend, List.lookup_cons, beq_false_of_ne (Ne.symm ne), h]

/-- The scope of a binder: what holds of it under the name given to the binder gives what holds of the
binding form. -/
theorem captured_under {b : Expr} {x y z : Name} {Γ Δ : Context} {given : List Name}
    (fresh : Δ.fresh z = .ok y)
    (scope : z ≠ x → b.occursFree x = some true → b.Captured x (y :: Δ.names) (y :: given) ∨ Γ.Visible x)
    (free : (if z = x then some false else b.occursFree x) = some true) :
    (z ≠ x ∧ ∃ y, freshAmong Δ.names z = .ok y ∧ b.Captured x (y :: Δ.names) (y :: given)) ∨
      Γ.Visible x := by
  split at free
  · simp at free
  · rename_i ne
    rcases scope ne free with captured | visible
    · exact .inl ⟨ne, y, fresh, captured⟩
    · exact .inr visible

/-- A free name of an elaborated expression that no renaming touches is captured or visible outside the
binders. -/
theorem captured_or_visible {Γ Δ : Context} {given : List Name} {r : Renaming} {x : Name}
    {e core : Expr} (h : Elaborated Δ r e core) (below : Below Γ given Δ)
    (unmapped : r.pairs.lookup x = none) (free : e.occursFree x = some true) :
    e.Captured x Δ.names given ∨ Γ.Visible x := by
  induction h generalizing given with
  | @var Δ r z b found usable =>
      have here : z = x := by simpa [Expr.occursFree] using free
      subst here
      rw [Renaming.rename_of_lookup_none unmapped] at found
      by_cases mem : z ∈ given
      · exact .inl ⟨rfl, mem⟩
      · rw [below.lookup z mem] at found
        exact .inr ⟨b, found, usable⟩
  | quote | const => simp [Expr.occursFree] at free
  | unary _ _ ih | proj _ _ ih => exact ih below unmapped free
  | binary _ _ _ ih₁ ih₂ | the _ _ ih₁ ih₂ | app _ _ ih₁ ih₂ | indAbsurd _ _ ih₁ ih₂
  | trans _ _ ih₁ ih₂ | cong _ _ _ ih₁ ih₂ =>
      exact or_of_orSearch free (ih₁ below unmapped) (ih₂ below unmapped)
  | quant _ fresh _ _ ihd ihe =>
      refine or_of_orSearch free (ihd below unmapped) (captured_under fresh fun ne => ?_)
      exact ihe (below.bind _ fresh) (Renaming.lookup_extend_of_ne ne unmapped)
  | lam fresh _ ih =>
      refine captured_under fresh (fun ne => ?_) free
      exact ih (below.bind _ fresh) (Renaming.lookup_extend_of_ne ne unmapped)
  | equal _ _ _ ih₁ ih₂ ih₃ | fold _ _ _ _ _ ih₁ ih₂ ih₃ | transport _ _ _ _ ih₁ ih₂ ih₃ =>
      exact or_of_orSearch free (ih₁ below unmapped) fun free =>
        or_of_orSearch free (ih₂ below unmapped) (ih₃ below unmapped)
  | induct _ _ _ _ _ ih₁ ih₂ ih₃ ih₄ =>
      exact or_of_orSearch free (ih₁ below unmapped) fun free =>
        or_of_orSearch free (ih₂ below unmapped) fun free =>
          or_of_orSearch free (ih₃ below unmapped) (ih₄ below unmapped)
  | indVec _ _ _ _ _ ih₁ ih₂ ih₃ ih₄ ih₅ =>
      exact or_of_orSearch free (ih₁ below unmapped) fun free =>
        or_of_orSearch free (ih₂ below unmapped) fun free =>
          or_of_orSearch free (ih₃ below unmapped) fun free =>
            or_of_orSearch free (ih₄ below unmapped) (ih₅ below unmapped)

/-- Names given to binders are new, so a name of the context is never captured. -/
theorem Expr.Captured.notMem {x : Name} {outer : List Name} {e : Expr} {used given : List Name}
    (kept : outer ⊆ used) (apart : ∀ y ∈ given, y ∉ outer) (h : e.Captured x used given) :
    x ∉ outer := by
  induction e generalizing used given with
  | var z => exact apart x h.2
  | quote | const | todo | malformed => exact h.elim
  | unary _ _ ih | proj _ _ ih => exact ih kept apart h
  | binary _ _ _ ih₁ ih₂ | the _ _ ih₁ ih₂ | app _ _ ih₁ ih₂ | indAbsurd _ _ ih₁ ih₂
  | trans _ _ ih₁ ih₂ | cong _ _ ih₁ ih₂ =>
      rcases h with h | h
      · exact ih₁ kept apart h
      · exact ih₂ kept apart h
  | equal _ _ _ ih₁ ih₂ ih₃ | fold _ _ _ _ ih₁ ih₂ ih₃ | transport _ _ _ _ ih₁ ih₂ ih₃ =>
      rcases h with h | h | h
      · exact ih₁ kept apart h
      · exact ih₂ kept apart h
      · exact ih₃ kept apart h
  | induct _ _ _ _ _ ih₁ ih₂ ih₃ ih₄ =>
      rcases h with h | h | h | h
      · exact ih₁ kept apart h
      · exact ih₂ kept apart h
      · exact ih₃ kept apart h
      · exact ih₄ kept apart h
  | indVec _ _ _ _ _ ih₁ ih₂ ih₃ ih₄ ih₅ =>
      rcases h with h | h | h | h | h
      · exact ih₁ kept apart h
      · exact ih₂ kept apart h
      · exact ih₃ kept apart h
      · exact ih₄ kept apart h
      · exact ih₅ kept apart h
  | quant _ _ _ _ ih₁ ih₂ =>
      rcases h with h | ⟨-, y, fresh, h⟩
      · exact ih₁ kept apart h
      · refine ih₂ (List.subset_cons_of_subset y kept) ?_ h
        exact List.forall_mem_cons.2 ⟨fun mem => freshAmong_notMem fresh (kept mem), apart⟩
  | lam _ _ ih =>
      obtain ⟨-, y, fresh, h⟩ := h
      refine ih (List.subset_cons_of_subset y kept) ?_ h
      exact List.forall_mem_cons.2 ⟨fun mem => freshAmong_notMem fresh (kept mem), apart⟩

theorem Context.Visible.mem_names {Γ : Context} {x : Name} (h : Γ.Visible x) : x ∈ Γ.names := by
  obtain ⟨b, found, -⟩ := h
  exact mem_names_of_lookup found

/-- A free name of an accepted expression is a variable or a definition of the context, unless it is
captured; and then it is neither. -/
theorem free_name_visible_iff_not_captured {n : Nat} {Γ : Context} {e : Expr} {x : Name}
    (accepted : Accepted n Γ e) (free : e.occursFree x = some true) :
    Γ.Visible x ↔ ¬ e.Captured x Γ.names [] := by
  constructor
  · intro visible captured
    exact captured.notMem (List.Subset.refl _) (by simp) visible.mem_names
  · intro notCaptured
    obtain ⟨core, elaborated⟩ := accepted.elaborated
    rcases captured_or_visible elaborated (Below.refl Γ) rfl free with captured | visible
    · exact absurd captured notCaptured
    · exact visible

/-- The context of one number `x`. -/
def oneNumber : Context :=
  Context.empty.bindFree "x" .nat

/-- `(the (Π ((y Nat)) Nat) (λ (x) x₁))`. -/
def subscriptedBody : Expr :=
  .the (.pi "y" .nat .nat) (.lam "x" (.var "x₁"))

theorem subscriptedBody_accepted : Accepted 9 oneNumber subscriptedBody :=
  .synthesized (s := .empty) (by rfl)

/-- Accepted expressions can have free names that the context does not bind. -/
theorem subscripted_name_captured :
    Accepted 9 oneNumber subscriptedBody ∧ subscriptedBody.occursFree "x₁" = some true ∧
      ¬ oneNumber.Visible "x₁" := by
  refine ⟨subscriptedBody_accepted, by decide, ?_⟩
  rintro ⟨b, found, -⟩
  cases found

/-- The binder `x` receives the name `x₁`, and that alone makes the free `x₁` acceptable. -/
theorem subscripted_name_visible_iff :
    Accepted 9 oneNumber subscriptedBody ∧ subscriptedBody.occursFree "x₁" = some true ∧
      (oneNumber.Visible "x₁" ↔ ¬ subscriptedBody.Captured "x₁" ["x"] []) :=
  ⟨subscriptedBody_accepted, by decide,
    free_name_visible_iff_not_captured subscriptedBody_accepted (by decide)⟩

end TypeKernel
