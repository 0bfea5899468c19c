/-
# TypeKernel.Proofs.Visibility — what evaluation sees of a context

Checking looks a name up in the context, evaluation in the context's environment. The two are different
views of one history of bindings: a claim is a binding for checking and nothing for evaluation, it may
hide an older binding from the one and not from the other, and a definition removes the claims of its
name from wherever they stand.

Where checking uses a binding, the views agree. `Context.Coherent` says so for all names together; one
binding operation keeps it (`Coherent.put`), so it holds after any number of them (`Built.coherent`).

* `lookup_put`, `get?_env_put` — what one operation does to either view
* `synthesize_var_iff` — a variable is accepted exactly at the type of a binding that has a value
* `lookup_agrees_with_environment` — the value of an accepted variable is that of the binding found
-/
import Mathlib.Logic.Basic
import TypeKernel.Check.Basic
import TypeKernel.Machine.ByNeed

namespace TypeKernel

set_option autoImplicit false

open Machine

/-- What evaluation sees of a binding of `x`. -/
def Binding.value? (x : Name) : Binding → Option Value
  | .free type => some (.ofVar x type)
  | .definition _ value => some value
  | .claim _ => none

theorem Binding.value?_eq_none {x : Name} {b : Binding} : b.value? x = none ↔ b.isClaim = true := by
  cases b <;> simp [value?, isClaim]

namespace Context

/-- Bind a name, by the operation for this kind of binding. -/
def put (Γ : Context) (x : Name) : Binding → Context
  | .free type => Γ.bindFree x type
  | .definition type value => Γ.bindDefinition x type value
  | .claim type => Γ.bindClaim x type

/-- The contexts that binding operations produce, in any order and with names repeated at will. -/
inductive Built : Context → Prop
  | empty : Built .empty
  | put {Γ : Context} (h : Built Γ) (x : Name) (b : Binding) : Built (Γ.put x b)

/-- A name that is claimed at most. -/
def OnlyClaims (Γ : Context) (x : Name) : Prop :=
  ∀ b, (x, b) ∈ Γ.bindings → b.isClaim = true

/-! ## One operation -/

theorem lookup_filter_claims {x y : Name} (ne : y ≠ x) (bs : List (Name × Binding)) :
    (bs.filter fun (z, b) => !(z == x && b.isClaim)).lookup y = bs.lookup y := by
  induction bs with
  | nil => rfl
  | cons p bs ih =>
      obtain ⟨z, b⟩ := p
      by_cases dropped : z = x ∧ b.isClaim = true
      · have other : (y == z) = false := by simpa [dropped.1] using ne
        rw [List.filter_cons_of_neg (by simpa using dropped), List.lookup_cons, other]
        exact ih
      · have stays : z ≠ x ∨ b.isClaim = false := by
          simpa only [not_and_or, Bool.not_eq_true] using dropped
        rw [List.filter_cons_of_pos (by simpa using stays), List.lookup_cons, List.lookup_cons, ih]

/-- A binding is found under its name and leaves every other name alone. -/
theorem lookup_put (Γ : Context) (x : Name) (b : Binding) (y : Name) :
    (Γ.put x b).lookup y = if y = x then some b else Γ.lookup y := by
  by_cases same : y = x
  · subst same
    cases b <;> simp [put, lookup, bindFree, bindClaim, bindDefinition]
  · have other : (y == x) = false := by simpa using same
    rw [if_neg same]
    cases b with
    | definition T v =>
        show List.lookup y (_ :: _) = _
        rw [List.lookup_cons, other]
        exact lookup_filter_claims same Γ.bindings
    | free T => simp [put, lookup, bindFree, List.lookup_cons, other]
    | claim T => simp [put, lookup, bindClaim, List.lookup_cons, other]

/-- A claim has no value that a definition would have to replace. -/
theorem env_bindDefinition {Γ : Context} {x : Name} {T v : Value} :
    (Γ.bindDefinition x T v).env = Γ.env.extend x v := by
  have kept : ∀ bs : List (Name × Binding),
      envOf (bs.filter fun (y, b) => !(y == x && b.isClaim)) = envOf bs := by
    intro bs
    induction bs with
    | nil => rfl
    | cons p bs ih =>
        obtain ⟨y, b⟩ := p
        cases b with
        | claim T =>
            by_cases hy : y = x
            · simpa [hy, Binding.isClaim, envOf] using ih
            · simpa [hy, Binding.isClaim, envOf] using ih
        | _ => simpa [Binding.isClaim, envOf] using ih
  exact congrArg (Env.extend · x v) (kept Γ.bindings)

/-- A definition drops claims of its own name only. -/
theorem names_subset_bindDefinition {Γ : Context} {x : Name} {T v : Value} :
    Γ.names ⊆ (Γ.bindDefinition x T v).names := by
  intro y hy
  by_cases heq : y = x
  · exact heq ▸ .head _
  · obtain ⟨⟨_, b⟩, hb, rfl⟩ := List.mem_map.1 hy
    refine .tail _ (List.mem_map.2 ⟨_, List.mem_filter.2 ⟨hb, ?_⟩, rfl⟩)
    simp [heq]

/-- A binding with a value is seen under its name; a claim lets the older value through. -/
theorem get?_env_put (Γ : Context) (x : Name) (b : Binding) (y : Name) :
    (Γ.put x b).env.get? y =
      if y = x then (b.value? x).or (Γ.env.get? y) else Γ.env.get? y := by
  have extended : ∀ v : Value, (Γ.env.extend x v).get? y =
      if y = x then (some v).or (Γ.env.get? y) else Γ.env.get? y := by
    intro v
    simp [Env.get?, eq_comm]
  cases b with
  | free T => exact extended (.ofVar x T)
  | definition T v =>
      show (Γ.bindDefinition x T v).env.get? y = _
      rw [env_bindDefinition]
      exact extended v
  | claim T =>
      show Γ.env.get? y = _
      simp [Binding.value?]

/-- An operation leaves a name with claims at most if there was no more before, and it adds no more. -/
theorem onlyClaims_put (Γ : Context) (x : Name) (b : Binding) (y : Name) :
    (Γ.put x b).OnlyClaims y ↔ (y = x → b.isClaim = true) ∧ Γ.OnlyClaims y := by
  have added : ∀ bs : List (Name × Binding), (∀ c, (y, c) ∈ (x, b) :: bs → c.isClaim = true) ↔
      (y = x → b.isClaim = true) ∧ ∀ c, (y, c) ∈ bs → c.isClaim = true := by
    intro bs
    simp only [List.mem_cons, Prod.mk.injEq, or_imp, forall_and]
    constructor
    · rintro ⟨here, there⟩
      exact ⟨fun same => here b ⟨same, rfl⟩, there⟩
    · rintro ⟨here, there⟩
      refine ⟨?_, there⟩
      rintro c ⟨same, rfl⟩
      exact here same
  cases b with
  | free T => exact added Γ.bindings
  | claim T => exact added Γ.bindings
  | definition T v =>
      -- The bindings that a definition removes are claims, so they do not count.
      refine (added _).trans (and_congr_right fun _ => ?_)
      simp only [List.mem_filter, OnlyClaims]
      constructor
      · intro kept c mem
        by_cases claim : c.isClaim = true
        · exact claim
        · exact kept c ⟨mem, by simp [claim]⟩
      · intro all c mem
        exact all c mem.1

/-! ## Any number of operations -/

/-- Evaluation sees the binding that checking finds, and sees a name unless it is claimed at most. -/
structure Coherent (Γ : Context) : Prop where
  seen {x : Name} {b : Binding} {v : Value} :
    Γ.lookup x = some b → b.value? x = some v → Γ.env.get? x = some v
  unseen (x : Name) : Γ.env.get? x = none ↔ Γ.OnlyClaims x

theorem Coherent.empty : Context.empty.Coherent where
  seen found := by simp [lookup, Context.empty] at found
  unseen x := by simp [OnlyClaims, Context.empty, env, envOf]

theorem Coherent.put {Γ : Context} (h : Γ.Coherent) (x : Name) (b : Binding) :
    (Γ.put x b).Coherent where
  seen {y c v} found value := by
    rw [lookup_put] at found
    rw [get?_env_put]
    by_cases same : y = x
    · rw [if_pos same] at found ⊢
      cases found
      subst same
      rw [value, Option.some_or]
    · rw [if_neg same] at found ⊢
      exact h.seen found value
  unseen y := by
    rw [get?_env_put, onlyClaims_put, ← h.unseen y]
    by_cases same : y = x
    · simp [same, Option.or_eq_none_iff, Binding.value?_eq_none]
    · simp [same]

theorem Built.coherent {Γ : Context} (h : Γ.Built) : Γ.Coherent := by
  induction h with
  | empty => exact .empty
  | put _ x b ih => exact ih.put x b

end Context

/-! ## Variables -/

/-- A variable is accepted exactly where its binding has a value, at the type of that binding. -/
theorem synthesize_var_iff (n : Nat) (Γ : Context) (r : Renaming) (y : Name) (s : Session)
    (core : Expr) (T : Value) :
    (∃ s', (synthesize n Γ (.var y) r : ByNeed (Expr × Value)) s = .ok (core, T) s') ↔
      core = .var (r.rename y) ∧ ∃ b v, Γ.lookup (r.rename y) = some b ∧ b.type = T ∧
        b.value? (r.rename y) = some v := by
  simp only [synthesize, judge, Check.var, Check.ofSynthesis, Bind.bind, EStateM.bind, report]
  rcases Γ.lookup (r.rename y) with _ | (type | ⟨type, value⟩ | type)
  · simp [reject, stop]
  · simp [pure, EStateM.pure, Binding.type, Binding.value?, eq_comm]
  · simp [pure, EStateM.pure, Binding.type, Binding.value?, eq_comm]
  · simp [reject, stop, Binding.value?]

theorem Env.eval_var {ρ : Env} {x : Name} {v : Value} (found : ρ.get? x = some v) (n : Nat)
    (s : Session) : (ρ.eval (n + 1) (.var x) : ByNeed Value) s = .ok v s := by
  rw [Env.eval, run, Eval.step, Eval.evaluate, found]
  rfl

/-- Checking and evaluation agree on every name of a context, whatever operations produced it: a
variable found free stands for itself, a defined name for its value, and a name that is claimed at most
for nothing. A variable is accepted at a type if and only if the binding found has this type and
evaluation finds the value of that binding. Binding a name changes what is found under that name only. -/
theorem lookup_agrees_with_environment {Γ : Context} (built : Γ.Built) (x : Name) :
    (∀ T, Γ.lookup x = some (.free T) → Γ.env.get? x = some (.ofVar x T)) ∧
    (∀ T v, Γ.lookup x = some (.definition T v) → Γ.env.get? x = some v) ∧
    (Γ.env.get? x = none ↔ Γ.OnlyClaims x) ∧
    (∀ n r y s core T, r.rename y = x →
      ((∃ s', (synthesize n Γ (.var y) r : ByNeed (Expr × Value)) s = .ok (core, T) s') ↔
        core = .var x ∧ ∃ b v, Γ.lookup x = some b ∧ b.type = T ∧ b.value? x = some v ∧
          ∀ k s', (Γ.env.eval (k + 1) core : ByNeed Value) s' = .ok v s')) ∧
    ∀ y b, x ≠ y → (Γ.put y b).lookup x = Γ.lookup x := by
  have coherent := built.coherent
  refine ⟨fun T found => coherent.seen found rfl, fun T v found => coherent.seen found rfl,
    coherent.unseen x, ?_, fun y b ne => (Γ.lookup_put y b x).trans (if_neg ne)⟩
  rintro n r y s core T rfl
  rw [synthesize_var_iff]
  constructor
  · rintro ⟨rfl, b, v, found, type, value⟩
    exact ⟨rfl, b, v, found, type, value, Env.eval_var (coherent.seen found value)⟩
  · rintro ⟨core, b, v, found, type, value, -⟩
    exact ⟨core, b, v, found, type, value⟩

/-- `x` is claimed, then defined, and `y` is bound free in between and claimed afterwards. A binder that
was renamed to `x` evaluates to the definition, and `y` has lost its type to the claim but not its
value. -/
theorem definition_behind_claim_agrees :
    ∃ Γ : Context, Γ.Built ∧ Γ.lookup "x" = some (.definition .nat .zero) ∧
      Γ.env.get? "x" = some .zero ∧
      (∃ s', (synthesize 0 Γ (.var "a") (Renaming.empty.extend "a" "x") : ByNeed (Expr × Value)) .empty =
        .ok (.var "x", .nat) s') ∧
      (Γ.put "y" (.claim .atom)).lookup "x" = Γ.lookup "x" ∧
      Γ.lookup "y" = some (.claim .univ) ∧ Γ.env.get? "y" = some (.ofVar "y" .atom) := by
  have built : Context.Built ((((Context.empty.put "x" (.claim .nat)).put "y" (.free .atom)).put "x"
      (.definition .nat .zero)).put "y" (.claim .univ)) :=
    (((Context.Built.empty.put _ _).put _ _).put _ _).put _ _
  have defined : Context.lookup ((((Context.empty.put "x" (.claim .nat)).put "y" (.free .atom)).put "x"
      (.definition .nat .zero)).put "y" (.claim .univ)) "x" = some (.definition .nat .zero) := rfl
  obtain ⟨-, value, -, accepted, others⟩ := lookup_agrees_with_environment built "x"
  have seen := value .nat .zero defined
  refine ⟨_, built, defined, seen, ?_, others "y" _ (by decide), rfl, rfl⟩
  refine (accepted 0 _ "a" .empty _ _ rfl).2 ⟨rfl, _, _, defined, rfl, rfl, ?_⟩
  exact Env.eval_var seen

end TypeKernel
