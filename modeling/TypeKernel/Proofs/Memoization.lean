/-
# TypeKernel.Proofs.Memoization — cells cannot be observed

By need a delayed value is evaluated at most once: its cell holds the result, is shared by everything that
refers to it, and may be filled in the middle of an evaluation that fails later on. By name a delayed value
is evaluated again each time it is forced. Nobody sees the difference. An expression, whether it was checked
or not, has the same normal form either way, or fails with the same error (`memoization_unobservable`), and
what was done in the session before makes no difference either.

The bound on nested steps is the only thing that shows, because looking into a cell takes fewer steps than
evaluating again. So by need the outcome is there within the steps that it takes by name, and an outcome by
need is the outcome by name from some number of steps on.
-/
import TypeKernel.Proofs.History

namespace TypeKernel

set_option autoImplicit false

/-- How a computation ends that is started in the session `s`. -/
def ByNeed.outcome {α : Type} (x : ByNeed α) (s : Session) : ByName α :=
  match x s with
  | .ok a _ => .ok a
  | .error reason _ => .error reason

/-- The normal form, at a type, of the value that an expression has in a context. -/
def normalForm {m : Type → Type} [Machine m] (n : Nat) (Γ : Context) (A : Value)
    (e : Expr) : m Expr := do
  let v ← Γ.env.eval n e
  readBack n Γ A v

namespace Follows

variable {α : Type} {P : Pairing → Prop} {E : Leaves} {n : Nat} {K : Correspondence} {y : Nat → ByName α}
  {x : ByNeed α} {s : Session}

theorem eventually (h : Follows P E n K Same y (x s)) (ends : x.outcome s ≠ .error .exhausted) :
    ∃ N, ∀ k, N ≤ k → y k = x.outcome s := by
  unfold ByNeed.outcome at ends ⊢
  cases hx : x s with
  | ok a s' =>
      rw [hx] at h
      obtain ⟨_, _, _, _, rfl, settles⟩ := h
      exact settles.eventually
  | error reason s' =>
      rw [hx] at h ends
      cases reason with
      | failed e => exact h.2.eventually
      | exhausted => exact (ends rfl).elim

/-- What ends by name ends by need within the same number of steps. -/
theorem within (h : Follows P E n K Same y (x s)) (ends : y n ≠ .error .exhausted) :
    x.outcome s = y n := by
  unfold ByNeed.outcome
  cases hx : x s with
  | ok a s' =>
      rw [hx] at h
      obtain ⟨_, _, _, _, rfl, settles⟩ := h
      exact (settles.within.resolve_left ends).symm
  | error reason s' =>
      rw [hx] at h
      cases reason with
      | failed e => exact (h.2.within.resolve_left ends).symm
      | exhausted => exact h.2.symm

end Follows

/-- Normal forms by need follow normal forms by name, in contexts and at types that match. -/
theorem byNeed_normalForm {K : Correspondence} (hK : K.Exact) {Γ Γ' : Context} (hΓ : Γ.Matches K Γ')
    {A A' : Value} (hA : Both K A A') (n : Nat) (e : Expr) :
    (byNeed n).rel K Same (normalForm n Γ A e) fun i => normalForm i Γ' A' e := by
  refine byNeed_bind (byNeed_run n (hΓ.eval hK e)) fun K' v v' le hK' hv => ?_
  exact byNeed_readings n hK' hΓ.names (.value (hA.mono le) hv)

/-- Normal forms in a session, with what is at hand there, follow those by name. -/
theorem History.normalForm {s₀ s : Session} {ps : List Piece} (h : History s₀ [] s ps) {Γ : Context}
    {A : Value} (hΓ : Γ.pieces ⊆ ps) (hA : .value A ∈ ps) (n : Nat) (e : Expr) :
    ∃ K, Follows (fun B => ∀ x, B x x) .faithful n K Same (fun i => TypeKernel.normalForm i Γ.erase A.erase e)
      ((TypeKernel.normalForm n Γ A e : ByNeed Expr) s) := by
  obtain ⟨K, -, rem, held⟩ := h.held (.start s₀) (List.forall_mem_nil _)
  have matched := (held.of_subset hΓ).context
  exact ⟨K, byNeed_normalForm rem.exact matched (held _ hA) n e s rem⟩

/-- Memoization cannot be observed. Whatever was done in a session, evaluating an expression and reading
its value back ends there as it does by name, with every delayed value evaluated again each time. And
whatever is done in between, doing it again later ends in the same way. -/
theorem memoization_unobservable {s₀ s : Session} {ps : List Piece} (h : History s₀ [] s ps)
    {Γ : Context} {A : Value} (hΓ : Γ.pieces ⊆ ps) (hA : .value A ∈ ps) (e : Expr) :
    (∀ n, ByNeed.outcome (normalForm n Γ A e) s ≠ .error .exhausted →
      ∃ N, ∀ k, N ≤ k →
        normalForm k Γ.erase A.erase e = ByNeed.outcome (normalForm n Γ A e) s) ∧
    (∀ n, (normalForm n Γ.erase A.erase e : ByName Expr) ≠ .error .exhausted →
      ByNeed.outcome (normalForm n Γ A e) s = normalForm n Γ.erase A.erase e) ∧
    ∀ {s' : Session} {ps' : List Piece}, History s ps s' ps' →
      ∀ n, ByNeed.outcome (normalForm n Γ A e) s ≠ .error .exhausted →
        ∃ N, ∀ k, N ≤ k →
          ByNeed.outcome (normalForm k Γ A e) s' = ByNeed.outcome (normalForm n Γ A e) s := by
  have eventually : ∀ n, ByNeed.outcome (normalForm n Γ A e) s ≠ .error .exhausted →
      ∃ N, ∀ k, N ≤ k →
        normalForm k Γ.erase A.erase e = ByNeed.outcome (normalForm n Γ A e) s := by
    intro n ends
    obtain ⟨_, follows⟩ := h.normalForm hΓ hA n e
    exact follows.eventually ends
  refine ⟨eventually, fun n ends => ?_, fun {s' ps'} h' n ends => ?_⟩
  · obtain ⟨_, follows⟩ := h.normalForm hΓ hA n e
    exact follows.within ends
  -- Both sessions follow the one computation by name.
  · obtain ⟨N, byName⟩ := eventually n ends
    refine ⟨N, fun k hk => ?_⟩
    have inside := h'.subset
    obtain ⟨_, follows⟩ := (h.trans h').normalForm (List.Subset.trans hΓ inside) (inside hA) k e
    rw [← byName k hk] at ends ⊢
    exact follows.within ends

/-- The first part of a number, which checking would refuse. -/
def brokenPair : Expr :=
  .proj .car .zero

/-- A context that defines `x` as the value of this expression, still delayed. -/
def brokenContext : Context :=
  ⟨[("x", .definition .nat (.delayed 0 .empty brokenPair))]⟩

/-- A cell that was forced in vain is forced in vain again, with the same error as without cells. -/
theorem brokenPair_fails_alike : ∃ s s' reason,
    (run 9 (.force (.delayed 0 .empty brokenPair)) : ByNeed Value) s = .error reason s' ∧
    ByNeed.outcome (normalForm 9 brokenContext .nat (.var "x")) s = .error reason ∧
    ∃ N, ∀ k, N ≤ k →
      ByNeed.outcome (normalForm k brokenContext .nat (.var "x")) s' = .error reason ∧
      normalForm k brokenContext.erase .nat (.var "x") = (.error reason : ByName Expr) := by
  let cell : Piece := .value (.delayed 0 .empty brokenPair)
  have suspended : History .empty [] Session.empty.allocate [cell, .env .empty] :=
    .done (.build .start rfl (List.nil_subset _)) (List.Subset.refl _)
      (rfl : (Act.suspend .empty brokenPair).perform .empty = _)
  have parts : (Piece.env brokenContext.env).parts ⊆ [cell, .env .empty] := by
    simp [show (Piece.env brokenContext.env).parts = [.env .empty, cell] from rfl]
  have atHand := (suspended.build rfl parts).build (p := .value .nat) rfl (List.nil_subset _)
  have pieces : brokenContext.pieces ⊆ [.value .nat, .env brokenContext.env, cell, .env .empty] := by
    simp [show brokenContext.pieces = [.env brokenContext.env, .value .nat, cell] from rfl]
  have held : [cell] ⊆ [.value .nat, .env brokenContext.env, cell, .env .empty] := by simp
  have forced := History.stopped .start held
    (rfl : (Act.answer 9 (.force (.delayed 0 .empty brokenPair))).perform Session.empty.allocate = _)
  obtain ⟨byName, -, later⟩ := memoization_unobservable atHand pieces (.head _) (.var "x")
  obtain ⟨N, hN⟩ := byName 9 nofun
  obtain ⟨M, hM⟩ := later forced 9 nofun
  exact ⟨Session.empty.allocate, _, _, rfl, rfl, max N M, fun k hk => ⟨hM k (by omega), hN k (by omega)⟩⟩

end TypeKernel
