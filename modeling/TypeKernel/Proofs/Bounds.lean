/-
# TypeKernel.Proofs.Bounds — evaluation stays within bounds

Some properties of values are kept by everything that evaluation does, whichever rule it applies. `Bounds` name
two of them: which cells may be mentioned, and whether a stuck chain of proofs has the form that evaluation
gives it. A piece `Strays` if something out of bounds can be reached from it, and bounds admit a piece that does
not stray.

What can be reached is what evaluation could ever come across. From code, only the entries of its free names can
be reached, and from a delayed value whose result is there, not even those: nobody will evaluate its expression
again.

The rules of evaluation keep within any bounds: not to stray is an invariant (`Bounds.invariant`).
-/
import TypeKernel.Proofs.Invariants
import TypeKernel.Proofs.Substitution

namespace TypeKernel

set_option autoImplicit false

open Machine

/-! ## Pieces within bounds -/

/-- What values may mention. -/
structure Bounds where
  /-- The cells that may be mentioned. -/
  cells : Nat → Prop
  /-- Cells that hold a result. -/
  full : Nat → Prop
  /-- Whether chains of proofs must be as evaluation builds them. -/
  proper : Prop

namespace Bounds

/-- Something out of bounds can be reached from the piece. -/
inductive Strays (B : Bounds) : Piece → Prop
  | cell {c ρ e} (h : ¬ B.cells c) : B.Strays (.value (.delayed c ρ e))
  | entry {c ρ e x v} (h : ¬ B.full c) (hx : x ∈ e.freeNames) (hv : ρ.get? x = some v)
      (strays : B.Strays (.value v)) : B.Strays (.value (.delayed c ρ e))
  | captured {ρ x b y v} (hy : y ∈ (Expr.lam x b).freeNames) (hv : ρ.get? y = some v)
      (strays : B.Strays (.value v)) : B.Strays (.closure (.code ρ x b))
  | chain {p} (proper : B.proper) (h : p.isChained = false) : B.Strays p
  | part {p q} (hp : p.isCapturing = false) (hq : q ∈ p.parts) (strays : B.Strays q) : B.Strays p

/-- Nothing out of bounds can be reached from the piece. -/
def Admits (B : Bounds) (p : Piece) : Prop :=
  ¬ B.Strays p

/-- Nothing out of bounds can be reached from the value. -/
abbrev Allows (B : Bounds) (v : Value) : Prop :=
  B.Admits (.value v)

/-- The entries of the given names are within bounds. -/
def Covers (B : Bounds) (ρ : Env) (xs : List Name) : Prop :=
  ∀ x ∈ xs, ∀ v, ρ.get? x = some v → B.Allows v

variable {B : Bounds} {ρ : Env} {x : Name} {b e : Expr} {c : Nat}

/-- A new entry that is within bounds, unless it is never looked up. -/
theorem Covers.extend {xs : List Name} {v : Value} (h : B.Covers ρ (xs.filter (· ≠ x)))
    (hv : x ∈ xs → B.Allows v) : B.Covers (ρ.extend x v) xs := by
  intro y hy w hw
  by_cases hxy : x = y
  · subst hxy
    cases (Env.get?_extend_self ρ x v).symm.trans hw
    exact hv hy
  · rw [Env.get?_extend_of_ne _ _ hxy] at hw
    exact h y (List.mem_filter.2 ⟨hy, decide_eq_true (Ne.symm hxy)⟩) w hw

namespace Admits

/-- A form is within bounds if its parts are. -/
theorem of {p : Piece} (hp : p.isCapturing = false) (hc : p.isChained = true) (h : p.parts.Forall B.Admits) :
    B.Admits p := by
  intro strays
  cases strays with
  | part _ hq strays => exact List.forall_iff_forall_mem.1 h _ hq strays
  | chain _ unchained => cases hc.symm.trans unchained
  | cell | entry | captured => cases hp

theorem parts {p : Piece} (h : B.Admits p) (hp : p.isCapturing = false) : p.parts.Forall B.Admits :=
  List.forall_iff_forall_mem.2 fun _ hq strays => h (.part hp hq strays)

theorem chained {p : Piece} (h : B.Admits p) (proper : B.proper) : p.isChained = true := by
  by_contra unchained
  exact h (.chain proper (Bool.eq_false_iff.2 unchained))

theorem code (h : B.Covers ρ (Expr.lam x b).freeNames) : B.Admits (.closure (.code ρ x b)) := by
  intro strays
  cases strays with
  | captured hy hv strays => exact h _ hy _ hv strays
  | chain _ unchained => cases unchained
  | part hp => cases hp

theorem covers (h : B.Admits (.closure (.code ρ x b))) : B.Covers ρ (Expr.lam x b).freeNames :=
  fun _ hy _ hv strays => h (.captured hy hv strays)

theorem delayed (hc : B.cells c) (h : ¬ B.full c → B.Covers ρ e.freeNames) : B.Allows (.delayed c ρ e) := by
  intro strays
  cases strays with
  | cell outside => exact outside hc
  | entry waiting hx hv strays => exact h waiting _ hx _ hv strays
  | chain _ unchained => cases unchained
  | part hp => cases hp

theorem cell (h : B.Allows (.delayed c ρ e)) : B.cells c := by
  by_contra outside
  exact h (.cell outside)

theorem entries (h : B.Allows (.delayed c ρ e)) (waiting : ¬ B.full c) : B.Covers ρ e.freeNames :=
  fun _ hx _ hv strays => h (.entry waiting hx hv strays)

theorem var (y : Name) : B.Admits (.neutral (.var y)) :=
  of rfl rfl trivial

theorem ofVar (y : Name) {d : Value} (hd : B.Allows d) : B.Allows (.ofVar y d) :=
  of rfl rfl ⟨hd, var y⟩

end Admits

end Bounds

/-! ## Evaluation -/

theorem Piece.of_isBuilt {p : Piece} (h : p.isBuilt = true) : p.isCapturing = false ∧ p.isChained = true := by
  unfold isBuilt at h
  split at h
  · cases h
  · cases h
  · simpa using h

theorem Expr.freeNames_operand {e a : Expr} (h : a ∈ e.operands) : a.freeNames ⊆ e.freeNames := by
  have all : e.operands.flatMap freeNames ⊆ e.freeNames := by
    cases e <;> simp [operands, freeNames]
  exact fun x hx => all (List.mem_flatMap.2 ⟨a, h, hx⟩)

/-- Nothing that evaluation comes across strays. Only the entries of free names are looked up. -/
def Bounds.invariant (B : Bounds) : Invariant where
  Admits := B.Admits
  Fits ρ e := B.Covers ρ e.freeNames
  lacks := True
  proper := B.proper
  of built h := .of (Piece.of_isBuilt built).1 (Piece.of_isBuilt built).2 h
  parts := Admits.parts
  chained proper h := h.chained proper
  code := .code
  enter hc hv := hc.covers.extend fun _ => hv
  entry he hv := he _ (.head _) _ hv
  quote _ := .of rfl rfl trivial
  operands he := List.forall_iff_forall_mem.2 fun _ ha x hx => he x (Expr.freeNames_operand ha hx)
  ready _ := .inr trivial

end TypeKernel
