/-
# TypeKernel.Proofs.BetaNormal — read-back gives normal forms

Whatever was evaluated in a context reads back as an expression in which nothing can be reduced, whether it was
checked or not (`readBack_normal`). Neutral forms see to that by their construction, except for a chain of two
proofs, which could hold any two values. Evaluation builds a chain only when at least one of the proofs is stuck.
By name, everything that evaluation comes across has only such chains (`Guard.byName_run`), and what is read back
by need is what is read back by name.
-/
import TypeKernel.Proofs.Composed
import TypeKernel.Proofs.NormalForms

namespace TypeKernel

set_option autoImplicit false

open Machine

/-! ## By name -/

/-- All chains of proofs are as evaluation builds them. Any cell may be mentioned: by name no cell holds a
result. -/
def Bounds.chains : Bounds where
  cells _ := True
  full _ := False
  proper := True

/-- Computations by name, which have nothing but their results. -/
def Guard.byName : Guard ByName Bounds.chains.invariant where
  keeps x Q := ∀ a, x = .ok a → Q a
  pure h _ ha := Except.ok.inj ha ▸ h
  bind h hf b hb := by
    obtain ⟨a, ha, hb⟩ := Returns.bind (m := ByName) hb
    exact hf a (h a ha) b hb
  imp h hPQ a ha := hPQ a (h a ha)
  stop _ _ := nofun
  suspend hρ _ hv := Except.ok.inj hv ▸ .delayed trivial fun _ => hρ

theorem Guard.byName_run (n : Nat) : Guard.byName.Asks (run n) := by
  induction n with
  | zero => exact fun _ _ => nofun
  | succ n ih =>
      refine ih.step fun {c ρ e} hv => ?_
      rw [Eval.force_delayed]
      exact Guard.byName.bind (ih.eval (hv.entries id)) fun _ hw => ih.force hw

theorem Bounds.chains_answer {r : Request} (hr : Bounds.chains.invariant.Permits r) {v : Value} (h : answer r = .ok v) :
    Bounds.chains.Allows v := by
  obtain ⟨n, hn⟩ := run_of_answer h
  exact ((Guard.byName_run n) hr v (hn n (Nat.le_refl n))).1

/-! ## By need -/

/-- The values of a composed context, and those that were evaluated on the way, are proper. -/
theorem Composed.proper {Γ : Context} {s : Session} {vs : List Value} (h : Composed Γ s vs) :
    (∀ xs, Bounds.chains.Covers Γ.env.erase xs) ∧ ∀ v ∈ vs, Bounds.chains.Allows v.erase := by
  induction h with
  | start s => exact ⟨fun _ _ _ => nofun, List.forall_mem_nil _⟩
  | @eval _ _ _ _ e _ _ composed hv ih =>
      obtain ⟨env, values⟩ := ih
      obtain ⟨K, Γ', rem, en⟩ := composed.enclosed
      obtain ⟨K', -, rem', v', mv, hv'⟩ := Yields.eval rem.exact en.context e _ _ _ rem hv
      have sameEnv := Piece.env.inj (rem.eq_erase (en.context.env_exact rem.exact))
      have sameValue := Piece.value.inj (rem'.eq_erase mv)
      subst sameValue
      rw [sameEnv] at hv'
      refine ⟨env, List.forall_mem_cons.2 ⟨?_, values⟩⟩
      exact Bounds.chains_answer (r := .eval _ e) (env e.freeNames) hv'
  | free _ x hT ih => exact ⟨fun _ => (ih.1 _).extend fun _ => .ofVar x (ih.2 _ hT), ih.2⟩
  | claim _ x hT ih => exact ih
  | definition _ x hT hv ih =>
      rw [Context.env_bindDefinition]
      exact ⟨fun _ => (ih.1 _).extend fun _ => ih.2 _ hv, ih.2⟩
  | after _ later ih => exact ih

/-- A reading by need gives what a reading of proper values by name gives. -/
theorem Faithful.forms {K : Correspondence} {s s' : Session} (rem : Remembers K s) {r r' : Reading}
    (hr : r.Matches K r') (proper : r'.pieces.Forall Bounds.chains.Admits) {n : Nat} {Γ : Context} {e : Expr}
    (h : (readings n Γ r : ByNeed Expr) s = .ok e s') : r'.Forms e := by
  obtain ⟨_, _, _, _, rfl, M, returns⟩ := (byNeed_readings n rem.exact rfl hr s rem).ok h
  exact Guard.byName.readings Bounds.Admits.var Guard.byName_run M proper _ (returns M (Nat.le_refl M)) trivial

/-- Read-back gives β-normal forms. This holds of values, types and neutral forms that were evaluated in a
context, well-typed or not, and in whatever context they are read back. -/
theorem readBack_normal {Γ : Context} {s : Session} {vs : List Value} (hΓ : Composed Γ s vs) {T v : Value}
    (hT : T ∈ vs) (hv : v ∈ vs) (Δ : Context) :
    (∀ n e s', (readBack n Δ T v : ByNeed Expr) s = .ok e s' → e.isNormal = true) ∧
    (∀ n e s', (readBackType n Δ T : ByNeed Expr) s = .ok e s' → e.isNormal = true) ∧
    ∀ k A stuck s₁, (v.force k : ByNeed Value) s = .ok (.neutral A stuck) s₁ →
      ∀ n e s', (readBackNeutral n Δ stuck : ByNeed Expr) s₁ = .ok e s' →
        e.isStuck = true ∧ e.isNormal = true := by
  obtain ⟨-, values⟩ := hΓ.proper
  obtain ⟨K, Γ', rem, en⟩ := hΓ.enclosed
  have held := en.held rem
  have atHand : ∀ {w}, w ∈ vs → Both K w w.erase := fun hw =>
    held _ (List.mem_append_right _ (List.mem_map_of_mem hw))
  refine ⟨fun n e s' h => ?_, fun n e s' h => ?_, fun k A stuck s₁ forced n e s' h => ?_⟩
  · exact (rem.forms (.value (atHand hT) (atHand hv)) ⟨values T hT, values v hv⟩ h).normal
  · exact (rem.forms (.type (atHand hT)) (values T hT) h).normal
  · obtain ⟨K₁, w', -, rem₁, mw, M, returns⟩ := (byNeed_run k (.force (atHand hv)) s rem).ok forced
    have proper : Bounds.chains.Allows w' :=
      Bounds.chains_answer (r := .force _) (values v hv) (answer_of_run (returns M (Nat.le_refl M)))
    cases mw with
    | neutral _ mstuck =>
        have forms := rem₁.forms (.neutral mstuck) (proper.parts rfl).2 h
        exact ⟨forms.stuck rfl, forms.normal⟩

/-- A variable `p` proves `0 = 0`. The chain of `p` with the trivial proof is not reduced to `p`: it is its own
normal form. -/
theorem chain_normal : ∃ T v, Composed (Context.empty.bindFree "p" T) .empty [v, T] ∧
    (readBack 9 (Context.empty.bindFree "p" T) T v : ByNeed Expr) .empty =
      .ok (.trans (.var "p") (.same .zero)) .empty ∧
    (Expr.trans (.var "p") (.same .zero)).isNormal = true := by
  have type := (Composed.start .empty).eval (n := 9) (e := .equal .nat .zero .zero) rfl
  have composed := (type.free "p" (.head _)).eval (n := 9) (e := .trans (.var "p") (.same .zero)) rfl
  refine ⟨_, _, composed, rfl, ?_⟩
  let Γ := Context.empty.bindFree "p" (.equal (.const .nat) (.const .zero) (.const .zero))
  exact (readBack_normal composed (.tail _ (.head _)) (.head _) Γ).1 9 _ .empty rfl

end TypeKernel
