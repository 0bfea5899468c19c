/-
# TypeKernel.Proofs.TrackedByName — checking under other names

By name, checking one expression in one context tracks checking another expression in another context, if
they differ only in names (`Tracking.byName`). The names in use differ, so different fresh names are chosen,
and where one side finds a fresh name the other may need a numeral that is too long. Apart from this the other
side returns if the one side does, and what they return differs only in the names of binders.
-/
import TypeKernel.Proofs.Attains
import TypeKernel.Proofs.CheckedByNeed
import TypeKernel.Proofs.Tidy

namespace TypeKernel

set_option autoImplicit false

open Machine

/-! ## Computations that end -/

/-- Computations that end with a result that satisfies `P`, or with a numeral that is too long, unless they are
`strict`. -/
def Reaches {β : Type} (strict : Prop) (P : β → Prop) (y : Nat → ByName β) : Prop :=
  (∃ b, P b ∧ ∃ N, ∀ i, N ≤ i → y i = .ok b) ∨
    ¬ strict ∧ ∃ d N, ∀ i, N ≤ i → y i = .error (.failed (.defect (.numeral d)))

namespace Reaches

variable {β γ : Type} {strict : Prop} {P : β → Prop} {Q : γ → Prop} {y : Nat → ByName β}

theorem pure {b : β} (h : P b) : Reaches strict P fun _ => .ok b :=
  .inl ⟨b, h, 0, fun _ _ => rfl⟩

theorem imp {P' : β → Prop} (h : Reaches strict P y) (hP : ∀ b, P b → P' b) : Reaches strict P' y :=
  h.imp_left fun ⟨b, hb, ends⟩ => ⟨b, hP b hb, ends⟩

theorem bind {g : Nat → β → ByName γ} (h : Reaches strict P y)
    (hg : ∀ b, P b → Reaches strict Q fun i => g i b) : Reaches strict Q fun i => y i >>= g i := by
  rcases h with ⟨b, hb, N, ends⟩ | ⟨lax, d, N, fails⟩
  · rcases hg b hb with ⟨c, hc, M, ends'⟩ | ⟨lax, d, M, fails⟩
    · refine .inl ⟨c, hc, max N M, fun i hi => ?_⟩
      exact (ByName.bind_ok (ends i (by omega))).trans (ends' i (by omega))
    · refine .inr ⟨lax, d, max N M, fun i hi => ?_⟩
      exact (ByName.bind_ok (ends i (by omega))).trans (fails i (by omega))
  · refine .inr ⟨lax, d, N, fun i hi => ?_⟩
    simp only [fails i hi]
    rfl

theorem succ {y' : Nat → ByName β} (h : Reaches strict P y) (hy : ∀ i, y' (i + 1) = y i) :
    Reaches strict P y' := by
  have shift : ∀ {N i}, N + 1 ≤ i → ∃ j, N ≤ j ∧ y' i = y j := by
    intro N i hi
    refine ⟨i - 1, by omega, ?_⟩
    rw [← hy, Nat.sub_add_cancel (by omega)]
  rcases h with ⟨b, hb, N, ends⟩ | ⟨lax, d, N, fails⟩
  · refine .inl ⟨b, hb, N + 1, fun i hi => ?_⟩
    obtain ⟨j, hj, h⟩ := shift hi
    rw [h, ends j hj]
  · refine .inr ⟨lax, d, N + 1, fun i hi => ?_⟩
    obtain ⟨j, hj, h⟩ := shift hi
    rw [h, fails j hj]

theorem attains (h : Reaches strict P y) {F : Error → Prop} (hF : ¬ strict → ∀ e, e.IsNumeral → F e) :
    ∃ N, ∀ {α : Type} {K : Correspondence} {x : Nat → ByNeed α} {R : Correspondence → α → β → Prop},
      (∀ n, (byNeed n).rel K R (x n) y) → Attains F N K x fun K' a => ∃ b, P b ∧ R K' a b := by
  have ends : ∃ N, ∀ n, N ≤ n → (∃ b, P b ∧ y n = .ok b) ∨ ∃ e, F e ∧ y n = .error (.failed e) := by
    rcases h with ⟨b, hb, N, ends⟩ | ⟨lax, d, N, fails⟩
    · exact ⟨N, fun n hn => .inl ⟨b, hb, ends n hn⟩⟩
    · exact ⟨N, fun n hn => .inr ⟨_, hF lax _ ⟨d, rfl⟩, fails n hn⟩⟩
  obtain ⟨N, ends⟩ := ends
  exact ⟨N, fun hx => (Attains.of_outcomes hx ends).imp fun _ _ _ ⟨b, hb, hab, _⟩ => ⟨b, hb, hab⟩⟩

end Reaches

/-! ## Tracking by name -/

/-- If the left computation returns, the right one ends. -/
def Leads {α β : Type} (K : Correspondence) (R : α → β → Prop) (x : ByName α) (y : Nat → ByName β) :
    Prop :=
  K.Plain → ¬ K.annotated → ∀ a, x = .ok a → Reaches False (R a) y

theorem Leads.bind {α β γ δ : Type} {K : Correspondence} {R : α → β → Prop} {S : γ → δ → Prop}
    {x : ByName α} {y : Nat → ByName β} {f : α → ByName γ} {g : Nat → β → ByName δ}
    (h : Leads K R x y) (hfg : ∀ a b, R a b → Leads K S (f a) fun i => g i b) :
    Leads K S (x >>= f) fun i => y i >>= g i := by
  intro plain bare c hc
  obtain ⟨a, ha, hc⟩ := Returns.bind (m := ByName) hc
  exact (h plain bare a ha).bind fun b hb => hfg a b hb plain bare c hc

/-- As long as the left side returns, the right side ends as it does. -/
def leading : Simulation Nat ByName ByName where
  rel K R := Leads K (R K)
  pure h _ _ a ha := by
    cases ha
    exact .pure h
  bind h hfg := h.bind fun a b hab => hfg _ a b (.refl _) hab
  fail _ _ _ _ _ ha := nomatch ha
  suspend hρ he plain _ _ ha := by
    cases ha
    exact .pure (.delayed (plain _ _ _ _) hρ he)
  leftFails _ _ _ _ _ _ ha := nomatch ha
  rightAlone annotated _ _ bare := (bare annotated).elim

theorem leading_asks (n : Nat) : leading.Asks (run n) fun i => run i := by
  intro K r r' hr plain bare v hv
  have along := byName_run n hr plain
  rw [hv] at along
  obtain ⟨both, ended⟩ := along
  obtain ⟨v', hv'⟩ := ended.resolve_left bare
  obtain ⟨N, hN⟩ := run_of_answer hv'
  exact .inl ⟨v', both v' hv', N, hN⟩

/-- Runs by name track runs by name under other names. -/
def Tracking.byName : Tracking ByName where
  strict := False
  unit := none
  source _ := True
  rel _ _ _ := leading.rel
  pure := leading.pure
  bind h hfg := h.bind fun a b hab => hfg _ a b (.untracked rfl (.refl _) fun _ _ hx => hx) hab
  fail := leading.fail
  suspend := leading.suspend
  leftFails := leading.leftFails
  rightAlone := leading.rightAlone
  ask hr := leading_asks _ hr
  lower h := h _ (.untracked rfl (.refl _) fun _ _ hx => hx)
  fresh := by
    intro n b K X X' x x' _ _ _ _ _ y hy
    have hy : freshAmong X x = .ok y := Returns.numeral (m := ByName) hy
    cases hy' : freshAmong X' x' with
    | error d => exact .inr ⟨id, d, 0, fun _ _ => rfl⟩
    | ok y' => exact .pure ⟨⟨freshAmong_notMem hy, freshAmong_notMem hy', False.elim⟩, .untracked rfl⟩
  scope _ h plain bare a ha := h plain bare a ha
  report _ _ _ _ a ha := .pure trivial
  reject _ _ _ _ ha := nomatch ha
  exhausted _ _ _ _ ha := nomatch ha
  succ h hy plain bare a ha := (h plain bare a ha).succ hy

/-! ## Contexts under which checking varies -/

/-- Binders may have any names, and only names in `N` are free. -/
def Correspondence.varied (N : Name → Prop) (o : Option Outer) : Correspondence where
  binders _ _ := True
  families _ _ := trivial
  names x y := x = y ∧ N x
  cells _ _ _ _ _ _ := True
  annotated := False
  outer := o

theorem Correspondence.within_le_varied (N : Name → Prop) (o : Option Outer) :
    (within N).Le (varied N o) :=
  ⟨fun _ _ _ => trivial, fun _ _ h => h, fun _ _ _ _ _ _ h => h, fun h => h, nofun⟩

/-- The names of a context, each for itself. -/
def Context.own (Γ : Context) : Pairing :=
  fun x x' => x = x' ∧ x ∈ Γ.names

namespace Context

variable {Γ Δ Δ' : Context} {o : Option Outer}

theorem own_eq (x x' : Name) (h : Γ.own x x') : x = x' := h.1

theorem own_oneToOne : Γ.own.OneToOne := by
  rintro x _ y _ ⟨rfl, _⟩ ⟨rfl, _⟩
  rfl

theorem own_fits {strict : Prop} (left : Γ.names ⊆ Δ.names) (right : Γ.names ⊆ Δ'.names)
    (same : strict → Δ.names = Δ'.names) : Γ.own.Fits strict Δ.names Δ'.names where
  same := same
  equal _ := own_eq
  used _ _ _ h := ⟨left h.2, right (h.1 ▸ h.2)⟩
  one := own_oneToOne

theorem own_of_bindsFree (x x' : Name) (h : (Correspondence.varied Γ.BindsFree o).names x x') :
    Γ.own x x' :=
  ⟨h.1, h.2.mem_names⟩

/-- The environment of a context beside one with a new entry in front. -/
def inFront {y : Name} (hy : y ∉ Γ.names) (v : Value) : Outer where
  left := Γ.env
  right := Γ.env.extend y v
  pairs := Γ.own
  apart := (Nat.ne_of_lt (Nat.lt_succ_self _))
  alike := by
    rintro x _ ⟨rfl, hx⟩
    have hne : y ≠ x := fun heq => hy (heq ▸ hx)
    rw [Env.get?_extend_of_ne _ _ hne]
    cases Γ.env.get? x with
    | none => exact .inl ⟨rfl, rfl, rfl⟩
    | some w => exact .inr ⟨rfl, rfl⟩

namespace Scoped

theorem meets (hΓ : Γ.Scoped) {n b : Nat} : Tracking.byName.Meets n b (.varied Γ.BindsFree none) Γ.own Γ Γ where
  fits := own_fits (List.Subset.refl _) (List.Subset.refl _) False.elim
  names := own_of_bindsFree
  env := hΓ.env.mono (Correspondence.within_le_varied _ _)
  code := by
    rintro x _ ⟨rfl, _⟩
    rw [← (Correspondence.within_le_varied Γ.BindsFree none).pairing hΓ.env]
    exact hΓ.env.pairing (fun _ _ hx => hx) rfl x
  lookup := by
    rintro x _ ⟨rfl, _⟩
    rcases hΓ.bindings.lookup_both x with none | ⟨b, b', hb, hb', hm⟩
    · exact .inl none
    · exact .inr ⟨b, b', hb, hb', hm.mono (Correspondence.within_le_varied _ _)⟩
  room := .untracked rfl
  binders _ _ _ _ := trivial
  source _ _ _ := trivial

theorem lookup_more (hΓ : Γ.Scoped) {y : Name} (hy : y ∉ Γ.names) (b : Binding) (o : Option Outer)
    (x x' : Name) (hx : Γ.own x x') :
    (Γ.lookup x = none ∧ (Context.mk ((y, b) :: Γ.bindings)).lookup x' = none) ∨
      ∃ c c', Γ.lookup x = some c ∧ (Context.mk ((y, b) :: Γ.bindings)).lookup x' = some c' ∧
        c.Matches (.varied Γ.BindsFree o) c' := by
  obtain ⟨rfl, hx⟩ := hx
  have hne : x ≠ y := fun heq => hy (heq ▸ hx)
  have same : (Context.mk ((y, b) :: Γ.bindings)).lookup x = Γ.lookup x := by
    simp [lookup, List.lookup_cons, beq_false_of_ne hne]
  rw [same]
  rcases hΓ.bindings.lookup_both x with none | ⟨c, c', hc, hc', hm⟩
  · exact .inl none
  · exact .inr ⟨c, c', hc, hc', hm.mono (Correspondence.within_le_varied _ _)⟩

theorem env_more (hΓ : Γ.Scoped) {y : Name} (hy : y ∉ Γ.names) (v : Value) :
    TypeKernel.Matches (.varied Γ.BindsFree (some (inFront hy v))) (.env Γ.env)
      (.env (Γ.env.extend y v)) := by
  refine .outer (K := .varied Γ.BindsFree (some (inFront hy v))) rfl ?_
  rintro x _ w w' ⟨rfl, hx⟩ hw hw'
  have hne : y ≠ x := fun heq => hy (heq ▸ hx)
  have hw' : Γ.env.get? x = some w' := (Env.get?_extend_of_ne _ _ hne).symm.trans hw'
  rcases hΓ.env.lookup (hΓ.env.pairing (fun _ _ h => h) rfl x) with
    ⟨hn, _⟩ | ⟨u, u', hu, hu', hm⟩
  · cases hn.symm.trans hw
  · cases hu.symm.trans hw
    cases hu'.symm.trans hw'
    exact hm.mono (Correspondence.within_le_varied _ _)

/-- A scoped context meets itself with one more name, however that is bound. -/
theorem meets_more (hΓ : Γ.Scoped) {y : Name} (hy : y ∉ Γ.names) (b : Binding) :
    ∃ o, ∀ {n k : Nat}, Tracking.byName.Meets n k (.varied Γ.BindsFree o) Γ.own Γ ⟨(y, b) :: Γ.bindings⟩ := by
  have fits : Γ.own.Fits False Γ.names (Context.mk ((y, b) :: Γ.bindings)).names :=
    own_fits (List.Subset.refl _) (List.subset_cons_self _ _) False.elim
  have entry : ∀ v, (Context.mk ((y, b) :: Γ.bindings)).env = Γ.env.extend y v →
      ∃ o, ∀ {n k : Nat},
        Tracking.byName.Meets n k (.varied Γ.BindsFree o) Γ.own Γ ⟨(y, b) :: Γ.bindings⟩ := by
    intro v hv
    refine ⟨some (inFront hy v), ⟨fits, own_of_bindsFree, .untracked rfl⟩, ?_, ?_, hΓ.lookup_more hy b _, ?_, ?_⟩
    · rw [hv]
      exact hΓ.env_more hy v
    · intro x x' hx
      have pairing := Correspondence.pairing_outer
        (K := .varied Γ.BindsFree (some (inFront hy v))) rfl
      rw [hv]
      exact pairing ▸ hx
    · exact fun _ _ _ _ => trivial
    · exact fun _ _ _ => trivial
  cases b with
  | free T => exact entry _ rfl
  | definition T v => exact entry _ rfl
  | claim T =>
      have same := hΓ.meets (n := 0) (b := 0)
      exact ⟨none, ⟨fits, own_of_bindsFree, .untracked rfl⟩, same.env, same.code, hΓ.lookup_more hy _ _,
        fun _ _ _ _ => trivial, fun _ _ _ => trivial⟩

end Scoped

end Context

end TypeKernel
