/-
# TypeKernel.Proofs.ReadByNeed — reading back by need

A run by need tracks a run by name strictly: the values it looks at differ only in their cells and the names
in use are the same. So reading back by need ends as it does by name, with the very same expression.
-/
import TypeKernel.Proofs.Memo
import TypeKernel.Proofs.Tracking

namespace TypeKernel

set_option autoImplicit false

open Machine

/-- The same result on both sides. -/
abbrev Same {α : Type} (_ : Correspondence) (a b : α) : Prop := a = b

theorem Follows.imp {α β : Type} {P : Pairing → Prop} {E : Leaves} {n : Nat} {K : Correspondence}
    {R S : Correspondence → α → β → Prop} {y : Nat → ByName β} {x : EStateM.Result Stop Session α}
    (h : Follows P E n K R y x) (hRS : ∀ K' a b, R K' a b → S K' a b) : Follows P E n K S y x := by
  match x, h with
  | .ok a s, ⟨K', b, le, rem, hR, hb⟩ => exact ⟨K', b, le, rem, hRS K' a b hR, hb⟩
  | .error (.failed _) _, h => exact h
  | .error .exhausted _, h => exact h

/-- Along a computation by need the correspondence stays exact. -/
theorem byNeed_bind {α β γ δ : Type} {n : Nat} {K : Correspondence}
    {R : Correspondence → α → β → Prop} {S : Correspondence → γ → δ → Prop} {x : ByNeed α}
    {y : Nat → ByName β} {f : α → ByNeed γ} {g : Nat → β → ByName δ}
    (h : (byNeed n).rel K R x y) (hfg : ∀ K' a b, K.Le K' → K'.Exact → R K' a b →
      (byNeed n).rel K' S (f a) (fun i => g i b)) :
    (byNeed n).rel K S (x >>= f) (fun i => y i >>= g i) :=
  fun s rem => (h s rem).bind Leaves.faithful_fits fun K' a b s' le rem' hab =>
    hfg K' a b le rem'.exact hab s' rem'

theorem Correspondence.Near.bind {K : Correspondence} (hK : K.Near) (y : Name) : (K.bind y y).Near where
  binders := hK.binders
  names x x' := by
    refine ⟨?_, fun heq => .inl ((hK.names x x').2 heq)⟩
    rintro (hx | ⟨rfl, rfl⟩)
    · exact (hK.names x x').1 hx
    · rfl
  bare := hK.bare
  whole := hK.whole

/-- More names for binders. -/
def Correspondence.widen (K : Correspondence) (B : Pairing) (le : ∀ x y, K.binders x y → B x y) :
    Correspondence :=
  { K with binders := B, families := fun x hx => le x x (K.families x hx) }

theorem Correspondence.le_widen (K : Correspondence) (B : Pairing) (le : ∀ x y, K.binders x y → B x y) :
    K.Le (K.widen B le) :=
  ⟨le, fun _ _ hx => hx, fun _ _ _ _ _ _ hc => hc, id, fun _ ho => ho⟩

namespace Faithful

variable {P Q : Pairing → Prop} {K : Correspondence} {s : Session}

theorem bind (h : Faithful P K s) (y : Name) : Faithful P (K.bind y y) s where
  near := h.near.bind y
  limits := h.limits
  allocated := h.allocated
  own := h.own
  kept hc hv := by
    obtain ⟨w, hw, hvw⟩ := h.kept hc hv
    exact ⟨w, hw, hvw.mono (K.le_bind y y)⟩
  blank := h.blank

theorem widen (h : Faithful P K s) {B : Pairing} (le : ∀ x y, K.binders x y → B x y)
    (same : ∀ x y, B x y → x = y) (hB : Q B) : Faithful Q (K.widen B le) s where
  near := ⟨same, h.near.names, h.near.bare, h.near.whole⟩
  limits := hB
  allocated := h.allocated
  own := h.own
  kept hc hv := by
    obtain ⟨w, hw, hvw⟩ := h.kept hc hv
    exact ⟨w, hw, hvw.mono (K.le_widen B le)⟩
  blank := h.blank

end Faithful

/-! ## Runs by need -/

/-- By need the sides choose the same names. -/
abbrev Naming.keeping (unit : Option Nat) (source : Name → Prop) : Naming :=
  ⟨True, unit, source⟩

/-- The binders of a level are those with names that spare one more. -/
def Naming.Limits (N : Naming) (b : Nat) (B : Pairing) : Prop :=
  ∀ x, N.Spares (b + 1) x ↔ B x x

/-- If subscripts are kept track of, they do not become too long. -/
def Leaves.keeping : Option Nat → Leaves
  | none => .faithful
  | some _ => .noNumeral

theorem Naming.limits_none {source : Name → Prop} {b : Nat} {B : Pairing} :
    (Naming.keeping none source).Limits b B ↔ ∀ x, B x x :=
  forall_congr' fun _ => iff_true_left (.untracked rfl)

theorem Leaves.keeping_fits (unit : Option Nat) (source : Name → Prop) (b : Nat) :
    (Leaves.keeping unit).Fits ((Naming.keeping unit source).Limits b) := by
  cases unit with
  | some U => exact noNumeral_fits _
  | none => exact faithful_fits.weaken fun _ => Naming.limits_none.1

theorem Naming.Limits.covers {unit : Option Nat} {source : Name → Prop} {b : Nat} {K : Correspondence}
    (h : (Naming.keeping unit source).Limits b K.binders) : (Naming.keeping unit source).Covers b K :=
  fun x _ hx spares => hx trivial ▸ (h x).1 spares

/-- Runs by need track runs by name strictly. -/
def Tracking.keeping (unit : Option Nat) (source : Name → Prop) : Tracking ByNeed where
  toNaming := .keeping unit source
  rel n b b' K R x y := ∀ s, Faithful ((Naming.keeping unit source).Limits b) K s →
    Follows ((Naming.keeping unit source).Limits b') (.keeping unit) n K
      (fun K' a c => (unit.isSome → b' ≤ b) ∧ R K' a c) y (x s)
  pure h s rem := ⟨_, _, .refl _, rem, ⟨fun _ => Nat.le_refl _, h⟩, .const _⟩
  bind h hfg s rem := (h s rem).bind (Leaves.keeping_fits unit source _) fun K' a c s' le rem' hac =>
    (hfg K' a c ⟨le, fun x x' hx => (rem.near.names x x').2 ((rem'.near.names x x').1 hx),
      fun _ => rem'.limits.covers, hac.1⟩ hac.2 s' rem').imp fun _ _ _ h =>
        ⟨fun some => (h.1 some).trans (hac.1 some), h.2⟩
  fail _ he _ rem := ⟨(Leaves.keeping_fits unit source _).here rem he, .const _⟩
  suspend hρ he s rem := ((remembering (Leaves.keeping_fits unit source _) _).suspend hρ he s rem).imp
    fun _ _ _ h => ⟨fun _ => Nat.le_refl _, h⟩
  leftFails _ _ ha _ rem := (rem.near.bare ha).elim
  rightAlone ha _ _ rem := (rem.near.bare ha).elim
  ask hr s rem := (remembering_run (Leaves.keeping_fits unit source _) _ hr s rem).imp
    fun _ _ _ h => ⟨fun _ => Nat.le_refl _, h⟩
  fresh := by
    intro n b K X X' x x' room hX hx s rem
    cases hX trivial
    cases rem.near.binders _ _ hx
    -- If there is a bound on the names in use, there is a fresh name below it.
    have spared : ∀ U ∈ unit, ∃ y, freshAmong X x = .ok y ∧ Text.Roomy (b * U) y := fun U hU => by
      refine exists_freshAmong (((rem.limits x).2 hx U hU).mono ?_)
      rw [Nat.succ_mul]
      exact Nat.add_le_add_left (room U hU) _
    cases hy : freshAmong X x with
    | error e =>
        refine ⟨?_, .const _⟩
        cases unit with
        | none => exact ⟨K, .refl K, { rem with limits := Naming.limits_none.1 rem.limits }⟩
        | some U =>
            obtain ⟨y, ok, -⟩ := spared U rfl
            cases hy.symm.trans ok
    | ok y =>
        refine ⟨K, y, .refl K, rem, ⟨fun _ => Nat.le_refl b, ⟨freshAmong_notMem hy, freshAmong_notMem hy,
          fun _ => rfl⟩, fun U hU => ?_⟩, .const _⟩
        obtain ⟨_, ok, roomy⟩ := spared U hU
        cases hy.symm.trans ok
        exact roomy
  scope := by
    intro n b b' α β K R x z y y' hy h s rem
    cases hy trivial
    exact (h s (rem.bind y)).mono (Leaves.keeping_fits unit source 0) (K.le_bind y y)
  lower := by
    intro n b b' α β K R x y h s rem
    have spares : ∀ z, K.binders z z → (Naming.keeping unit source).Spares (b + 1) z := fun z hz U hU =>
      ((rem.limits z).2 hz U hU).mono (Nat.mul_le_mul_right U (Nat.le_succ _))
    have lowered : Faithful ((Naming.keeping unit source).Limits b) (K.widen (fun z z' => K.binders z z' ∨
        z = z' ∧ (Naming.keeping unit source).Spares (b + 1) z) fun _ _ => .inl) s :=
      rem.widen _ (fun _ _ hz => hz.elim (rem.near.binders _ _) And.left)
        fun z => ⟨fun hz => .inr ⟨rfl, hz⟩, fun hz => hz.elim (spares z) And.right⟩
    have le := K.le_widen (fun z z' => K.binders z z' ∨
      z = z' ∧ (Naming.keeping unit source).Spares (b + 1) z) fun _ _ => .inl
    have follows := h _ ⟨le, fun _ _ hx => hx, fun _ => lowered.limits.covers, fun _ => Nat.le_succ b⟩ s lowered
    exact (follows.mono (Leaves.keeping_fits unit source 0) le).imp fun _ _ _ h =>
      ⟨fun some => Nat.le_succ_of_le (h.1 some), h.2⟩
  report event _ s rem := ⟨_, (), .refl _, rem.record event, ⟨fun _ => Nat.le_refl _, trivial⟩, .const _⟩
  reject := by
    intro n b b' α β K R r r' hr s rem
    cases hr trivial
    exact ⟨(Leaves.keeping_fits unit source b).here rem rfl, .const _⟩
  exhausted hy _ rem := ⟨(Leaves.keeping_fits unit source _).here rem rfl, hy⟩
  succ h hy s rem := (h s rem).succ hy

/-- Subscripts need not be kept track of. -/
abbrev Tracking.byNeed : Tracking ByNeed :=
  .keeping none fun _ => True

theorem rel_byNeed {n b b' : Nat} {α β : Type} {K : Correspondence} {R : Correspondence → α → β → Prop}
    {x : ByNeed α} {y : Nat → ByName β} (h : Tracking.byNeed.rel n b b' K R x y) : (byNeed n).rel K R x y := by
  intro s rem
  have follows := h s { rem with limits := Naming.limits_none.2 rem.limits }
  revert follows
  cases x s with
  | ok a s =>
      rintro ⟨K', c, le, rem', ⟨-, hR⟩, hc⟩
      exact ⟨K', c, le, { rem' with limits := Naming.limits_none.1 rem'.limits }, hR, hc⟩
  | error reason s =>
      cases reason with
      | failed e => exact fun follows => follows
      | exhausted => exact fun follows => follows

/-- Contexts that bind the same names, with every name for itself. -/
theorem Tracking.keeping_frame {unit : Option Nat} {source : Name → Prop} {n b : Nat} {K : Correspondence}
    (hK : K.Near) {Γ Γ' : Context} (hΓ : Γ.names = Γ'.names) (room : (Naming.keeping unit source).Room (b + n) Γ.names) :
    (Tracking.keeping unit source).Frame n b K Eq Γ Γ' where
  fits := ⟨fun _ => hΓ, fun _ _ _ h => h, fun h => (h trivial).elim, by rintro x _ y _ rfl rfl; rfl⟩
  names x x' := (hK.names x x').1
  room := room

theorem Tracking.byNeed_frame {n : Nat} {K : Correspondence} (hK : K.Exact) {Γ Γ' : Context}
    (hΓ : Γ.names = Γ'.names) : Tracking.byNeed.Frame n 0 K Eq Γ Γ' :=
  keeping_frame hK.toNear hΓ (.untracked rfl)

theorem Tracking.byNeed_written {b : Nat} {K : Correspondence} {Γ Γ' : Context} {e e' : Expr}
    (h : Tracking.byNeed.Written b Eq Γ Γ' K e e') : e = e' :=
  h.eq id (fun _ _ hy => hy.same trivial) fun _ _ hx => hx

theorem byNeed_readings (n : Nat) {K : Correspondence} {Γ Γ' : Context} {r r' : Reading}
    (hK : K.Exact) (hΓ : Γ.names = Γ'.names) (hr : r.Matches K r') :
    (byNeed n).rel K Same (readings n Γ r) (fun i => readings i Γ' r') := fun s rem =>
  (rel_byNeed (Tracking.byNeed.readings n (Tracking.byNeed_frame hK hΓ) hr) s rem).imp fun _ _ _ h =>
    Tracking.byNeed_written (K := K) h

end TypeKernel
