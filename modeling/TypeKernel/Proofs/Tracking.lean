/-
# TypeKernel.Proofs.Tracking — one reading back tracks another

Reading back asks evaluation for values and chooses names. If one run tracks another at evaluation and at
the choice of names, it tracks it all along, and what the two write differs at most in names. This is said
once, for every way of tracking (`Tracking`).

A run by need tracks a run by name strictly: the same names are in use, so the same are chosen, and the very
same expression is written. A run by name tracks another run by name whose names differ as far as it goes:
other names are in use, so others are chosen, and no fresh name may be left on the other side because its
subscript would be too long.

Subscripts may be kept track of (`Naming`). A name that is chosen after another has a subscript that is
higher by the number of names in use at most. It may in turn be the hint for a third name, but only after it
was written into code that is evaluated, so there is a level, which goes down where that is done.
-/
import TypeKernel.Machine.ByName
import TypeKernel.Proofs.LeastSubscript
import TypeKernel.Proofs.Lockstep
import TypeKernel.Proofs.Renamed
import TypeKernel.ReadBack

namespace TypeKernel

set_option autoImplicit false

open Machine

/-! ## Names on either side -/

/-- Names that are new on either side, and the same on both if the sides may not differ. -/
structure Chosen (strict : Prop) (X X' : List Name) (y y' : Name) : Prop where
  left : y ∉ X
  right : y' ∉ X'
  same : strict → y = y'

theorem Chosen.of_cons {strict : Prop} {X X' : List Name} {x x' y y' : Name}
    (h : Chosen strict (x :: X) (x' :: X') y y') : Chosen strict X X' y y' :=
  ⟨fun hy => h.left (.tail _ hy), fun hy => h.right (.tail _ hy), h.same⟩

/-- A pairing of the names in use on either side. If the sides may not differ, it pairs equal names only. -/
structure Pairing.Fits (strict : Prop) (V : Pairing) (X X' : List Name) : Prop where
  same : strict → X = X'
  equal : strict → ∀ x x', V x x' → x = x'
  used : ¬ strict → ∀ x x', V x x' → x ∈ X ∧ x' ∈ X'
  one : V.OneToOne

namespace Pairing.Fits

variable {strict : Prop} {V : Pairing} {X X' : List Name} {y y' : Name}

/-- A new name is paired with nothing else. -/
theorem apart (h : V.Fits strict X X') (hy : Chosen strict X X' y y') {x x' : Name} (hx : V x x') :
    x = y ↔ x' = y' := by
  by_cases hs : strict
  · rw [h.equal hs x x' hx, hy.same hs]
  · obtain ⟨hl, hr⟩ := h.used hs x x' hx
    exact iff_of_false (fun heq => hy.left (heq ▸ hl)) fun heq => hy.right (heq ▸ hr)

theorem le_under (h : V.Fits strict X X') (hy : Chosen strict X X' y y') {x x' : Name}
    (hx : V x x') : V.under y y' x x' := by
  by_cases heq : x = y
  · exact .inl ⟨heq, (h.apart hy hx).1 heq⟩
  · exact .inr ⟨heq, fun heq' => heq ((h.apart hy hx).2 heq'), hx⟩

theorem under (h : V.Fits strict X X') (hy : Chosen strict X X' y y') :
    (V.under y y').Fits strict (y :: X) (y' :: X') where
  same hs := by rw [h.same hs, hy.same hs]
  equal hs := by
    rintro x x' (⟨rfl, rfl⟩ | ⟨-, -, hx⟩)
    · exact hy.same hs
    · exact h.equal hs x x' hx
  used hs := by
    rintro x x' (⟨rfl, rfl⟩ | ⟨-, -, hx⟩)
    · exact ⟨.head _, .head _⟩
    · exact ⟨.tail _ (h.used hs x x' hx).1, .tail _ (h.used hs x x' hx).2⟩
  one := by
    rintro x x' z z' (⟨rfl, rfl⟩ | ⟨hx, hx', hv⟩) (⟨rfl, rfl⟩ | ⟨hz, hz', hw⟩)
    · exact iff_of_true rfl rfl
    · exact iff_of_false hz.symm hz'.symm
    · exact iff_of_false hx hx'
    · exact h.one x x' z z' hv hw

end Pairing.Fits

/-! ## Names that are kept track of -/

/-- How names are chosen. -/
structure Naming where
  /-- Whether the sides choose the same names. -/
  strict : Prop
  /-- If subscripts are kept track of, the number of names that may be in use. -/
  unit : Option Nat
  /-- The names of binders in source expressions. -/
  source : Name → Prop

namespace Naming

variable (N : Naming)

/-- After the name another can be chosen, and one after that, `b` times. -/
def Spares (b : Nat) (x : Name) : Prop :=
  ∀ U ∈ N.unit, Text.Roomy (b * U) x

/-- With the names in use, `k` more may come into use. -/
def Room (k : Nat) (X : List Name) : Prop :=
  ∀ U ∈ N.unit, X.length + k ≤ U

/-- Names that are new on either side, of which the left spares `b`. -/
structure Picked (b : Nat) (X X' : List Name) (y y' : Name) : Prop extends
    Chosen N.strict X X' y y' where
  spares : N.Spares b y

/-- The names of corresponding binders in source expressions. -/
def Bound (x x' : Name) : Prop :=
  (N.strict → x = x') ∧ N.source x

/-- At the level `b` a binder may have any name that spares one more. -/
def Covers (b : Nat) (K : Correspondence) : Prop :=
  ∀ x x', (N.strict → x = x') → N.Spares (b + 1) x → K.binders x x'

/-- A correspondence that grows, but not by names of free variables, while the level goes down. -/
structure Step (b b' : Nat) (K K' : Correspondence) : Prop where
  le : K.Le K'
  names : ∀ x x', K'.names x x' → K.names x x'
  covers : N.Covers b K → N.Covers b' K'
  level : N.unit.isSome → b' ≤ b

variable {N} {b b' : Nat} {K K' : Correspondence} {X X' : List Name}

theorem Step.trans {c : Nat} {K'' : Correspondence} (g : N.Step b b' K K') (g' : N.Step b' c K' K'') :
    N.Step b c K K'' :=
  ⟨g.le.trans g'.le, fun x x' h => g.names x x' (g'.names x x' h), fun h => g'.covers (g.covers h),
    fun h => (g'.level h).trans (g.level h)⟩

theorem Spares.untracked (h : N.unit = none) {x : Name} : N.Spares b x := by
  intro U hU
  cases h.symm.trans hU

theorem Room.untracked (h : N.unit = none) : N.Room b X := by
  intro U hU
  cases h.symm.trans hU

/-- Without keeping track of subscripts there are no levels. -/
theorem Step.untracked (h : N.unit = none) (le : K.Le K') (names : ∀ x x', K'.names x x' → K.names x x') :
    N.Step b b' K K' where
  le := le
  names := names
  covers hK x x' hx _ := le.binders x x' (hK x x' hx (.untracked h))
  level some := by simp [h] at some

theorem Step.spares (g : N.Step b b' K K') {x : Name} (h : N.Spares (b + 1) x) : N.Spares (b' + 1) x :=
  fun U hU => (h U hU).mono (Nat.mul_le_mul_right U (Nat.succ_le_succ (g.level (Option.isSome_of_mem hU))))

theorem Picked.later {y y' : Name} (h : N.Picked (b + 1) X X' y y') (g : N.Step b b' K K') :
    N.Picked (b' + 1) X X' y y' :=
  ⟨h.toChosen, g.spares h.spares⟩

theorem Room.mono {j k : Nat} (h : N.Room k X) (le : j ≤ k) : N.Room j X :=
  fun U hU => (Nat.add_le_add_left le _).trans (h U hU)

theorem Room.cons {k : Nat} (h : N.Room (k + 1) X) (y : Name) : N.Room k (y :: X) := by
  intro U hU
  have := h U hU
  rw [List.length_cons]
  omega

theorem Step.room (g : N.Step b b' K K') {k : Nat} (h : N.Room (b + k) X) : N.Room (b' + k) X := by
  intro U hU
  have := h U hU
  have := g.level (Option.isSome_of_mem hU)
  omega

end Naming

/-! ## Tracking -/

/-- A way in which computations of a machine track computations by name. -/
structure Tracking (m : Type → Type) [Machine m] extends Naming where
  /-- With requests nested at most `n` deep, the level going down from `b` to `b'`. -/
  rel : {α β : Type} → (n b b' : Nat) → Correspondence → (Correspondence → α → β → Prop) → m α →
    (Nat → ByName β) → Prop
  pure : ∀ {n b : Nat} {α β : Type} {K : Correspondence} {R : Correspondence → α → β → Prop} {a : α} {c : β},
    R K a c → rel n b b K R (pure a) (fun _ => pure c)
  bind : ∀ {n b b₁ b₂ : Nat} {α β γ δ : Type} {K : Correspondence} {R : Correspondence → α → β → Prop}
    {S : Correspondence → γ → δ → Prop} {x : m α} {y : Nat → ByName β} {f : α → m γ}
    {g : Nat → β → ByName δ}, rel n b b₁ K R x y →
      (∀ K' a c, toNaming.Step b b₁ K K' → R K' a c → rel n b₁ b₂ K' S (f a) (fun i => g i c)) →
        rel n b b₂ K S (x >>= f) (fun i => y i >>= g i)
  fail : ∀ {n b : Nat} {α β : Type} {K : Correspondence} {R : Correspondence → α → β → Prop} (e : Error),
    Stop.isNumeral (.failed e) = false → rel n b b K R (stop (.failed e)) (fun _ => stop (.failed e))
  suspend : ∀ {n b : Nat} {K : Correspondence} {ρ ρ' : Env} {e e' : Expr}, Matches K (.env ρ) (.env ρ') →
    K.Code (K.pairing ρ ρ') e e' → rel n b b K Both (suspend ρ e) (fun _ => suspend ρ' e')
  leftFails : ∀ {n b : Nat} {α β : Type} {K : Correspondence} {R : Correspondence → α → β → Prop} (e : Error)
    (y : Nat → ByName β), K.annotated → rel n b b K R (stop (.failed e)) y
  rightAlone : ∀ {n b : Nat} {α β γ : Type} {K : Correspondence} {R : Correspondence → α → β → Prop} {x : m α}
    {y : Nat → ByName γ} {g : Nat → γ → ByName β}, K.annotated → (∀ c, rel n b b K R x (fun i => g i c)) →
      rel n b b K R x (fun i => y i >>= g i)
  ask : ∀ {n b : Nat} {K : Correspondence} {r r' : Request}, r.Matches K r' →
    rel n b b K Both (run n r) (fun i => run i r')
  /-- Names are chosen on both sides. -/
  fresh : ∀ {n b : Nat} {K : Correspondence} {X X' : List Name} {x x' : Name}, toNaming.Room 1 X →
    (strict → X = X') → K.binders x x' → rel n b b K (fun _ => toNaming.Picked b X X')
      (numeral (freshAmong X x)) (fun _ => numeral (freshAmong X' x'))
  /-- A new pair of names may be used for a while, if what is returned does not depend on it. -/
  scope : ∀ {n b b' : Nat} {α β : Type} {K : Correspondence} {R : α → β → Prop} {x : m α}
    {z : Nat → ByName β} {y y' : Name}, (strict → y = y') →
      rel n b b' (K.bind y y') (fun _ => R) x z → rel n b b' K (fun _ => R) x z
  /-- At a lower level more names are allowed. -/
  lower : ∀ {n b b' : Nat} {α β : Type} {K : Correspondence} {R : Correspondence → α → β → Prop} {x : m α}
    {y : Nat → ByName β}, (∀ K', toNaming.Step (b + 1) b K K' → rel n b b' K' R x y) →
      rel n (b + 1) b' K R x y
  report : ∀ {n b : Nat} {K : Correspondence} (event event' : Event),
    rel n b b K (fun _ _ _ => True) (report event) (fun _ => report event')
  /-- Rejections may tell different names. -/
  reject : ∀ {n b b' : Nat} {α β : Type} {K : Correspondence} {R : Correspondence → α → β → Prop}
    {r r' : Rejection}, (strict → r = r') →
      rel n b b' K R (Machine.reject r) (fun _ => Machine.reject r')
  exhausted : ∀ {b : Nat} {α β : Type} {K : Correspondence} {R : Correspondence → α → β → Prop}
    {y : Nat → ByName β}, y 0 = .error .exhausted → rel 0 b b K R (stop .exhausted) y
  /-- One more step on either side. -/
  succ : ∀ {n b : Nat} {α β : Type} {K : Correspondence} {R : Correspondence → α → β → Prop} {x : m α}
    {y y' : Nat → ByName β}, rel n b b K R x y → (∀ i, y' (i + 1) = y i) → rel (n + 1) b b K R x y'

namespace Tracking

variable {m : Type → Type} [Machine m] (L : Tracking m)

/-- The computations that stay at one level. -/
def sim (n b : Nat) : Simulation Nat m ByName where
  rel := L.rel n b b
  pure := L.pure
  bind h hfg := L.bind h fun K' a c g hac => hfg K' a c g.le hac
  fail := L.fail
  suspend := L.suspend
  leftFails := L.leftFails
  rightAlone := L.rightAlone

theorem asks (n b : Nat) : (L.sim n b).Asks (run n) fun i => run i :=
  fun _ _ _ hr => L.ask hr

theorem defect {n b : Nat} {α β : Type} {K : Correspondence} {R : Correspondence → α → β → Prop} (d : Defect)
    (h : Stop.isNumeral (.failed (.defect d)) = false := by rfl) :
    L.rel n b b K R (Machine.defect d) (fun _ => Machine.defect d) :=
  L.fail (.defect d) h

/-- The contexts in which the two sides read back: the names in use on either side are paired, and there is
room for as many more as readings are nested, and levels are left. -/
structure Frame (n b : Nat) (K : Correspondence) (V : Pairing) (Γ Γ' : Context) : Prop where
  fits : V.Fits L.strict Γ.names Γ'.names
  names : ∀ x x', K.names x x' → V x x'
  room : L.Room (b + n) Γ.names

/-- Expressions written in these contexts: they differ at most in names, and binders have new names. -/
abbrev Written (b : Nat) (V : Pairing) (Γ Γ' : Context) (_ : Correspondence) : Expr → Expr → Prop :=
  Alike (L.Picked b Γ.names Γ'.names) V

variable {L} {n b b' : Nat} {K K' : Correspondence} {V : Pairing} {Γ Γ' : Context}

namespace Frame

theorem grows (fr : L.Frame n b K V Γ Γ') (g : L.Step b b' K K') : L.Frame n b' K' V Γ Γ' :=
  ⟨fr.fits, fun x x' hx => fr.names x x' (g.names x x' hx), g.room fr.room⟩

theorem pred (fr : L.Frame (n + 1) b K V Γ Γ') : L.Frame n b K V Γ Γ' :=
  ⟨fr.fits, fr.names, fr.room.mono (Nat.le_succ _)⟩

/-- One level less leaves room for readings that are nested one deeper. -/
theorem deeper (fr : L.Frame n (b + 1) K V Γ Γ') (g : L.Step (b + 1) b K K') : L.Frame (n + 1) b K' V Γ Γ' :=
  ⟨fr.fits, (fr.grows g).names, fr.room.mono (by omega)⟩

/-- Below a binder there is room for one name less. -/
theorem bindFree (fr : L.Frame (n + 1) b K V Γ Γ') {y y' : Name}
    (hy : Chosen L.strict Γ.names Γ'.names y y') (d d' : Value) :
    L.Frame n b (K.bind y y') (V.under y y') (Γ.bindFree y d) (Γ'.bindFree y' d') where
  fits := fr.fits.under hy
  names := by
    rintro x x' (hx | here)
    · exact fr.fits.le_under hy (fr.names x x' hx)
    · exact .inl here
  room := fr.room.cons y

theorem freshName (fr : L.Frame n b K V Γ Γ') (left : 0 < b + n) {k : Nat} {x x' : Name}
    (hx : K.binders x x') :
    L.rel k b b K (fun _ => L.Picked b Γ.names Γ'.names) (freshName Γ x)
      (fun _ => TypeKernel.freshName Γ' x') :=
  L.fresh (fr.room.mono left) fr.fits.same hx

end Frame

end Tracking

/-- What is written below a binder, seen from outside. -/
theorem Resembles.of_bindFree {N : Naming} {b : Nat} {W : Pairing} {Γ Γ' : Context} {y y' : Name}
    {d d' : Value} {e e' : Expr}
    (h : Alike (N.Picked b (Γ.bindFree y d).names (Γ'.bindFree y' d').names) W e e') :
    Alike (N.Picked b Γ.names Γ'.names) W e e' :=
  h.mono id (fun _ _ hy => ⟨hy.of_cons, hy.spares⟩) fun _ _ hx => hx

/-- What is written at one level can be used at a lower one. -/
theorem Resembles.later {N : Naming} {b b' : Nat} {K K' : Correspondence} {X X' : List Name} {W : Pairing}
    {e e' : Expr} (h : Alike (N.Picked (b + 1) X X') W e e') (g : N.Step b b' K K') :
    Alike (N.Picked (b' + 1) X X') W e e' :=
  h.mono id (fun _ _ hy => hy.later g) fun _ _ hx => hx

/-! ## Reading back -/

/-- Readings that match. -/
inductive Reading.Matches (K : Correspondence) : Reading → Reading → Prop
  | value {A A' v v'} (hA : Both K A A') (hv : Both K v v') :
      Reading.Matches K (.value A v) (.value A' v')
  | type {v v'} (hv : Both K v v') : Reading.Matches K (.type v) (.type v')
  | neutral {e e'} (he : TypeKernel.Matches K (.neutral e) (.neutral e')) :
      Reading.Matches K (.neutral e) (.neutral e')

theorem Typed.reading_matches {K : Correspondence} {t t' : Typed}
    (h : TypeKernel.Matches K (.typed t) (.typed t')) : t.reading.Matches K t'.reading := by
  cases h with
  | typed hA hv => exact .value hA hv

namespace Tracking

variable {m : Type → Type} [Machine m] (L : Tracking m)

/-- Readings nested at most `n` deep track readings by name. -/
def Reads (n : Nat) : Prop :=
  ∀ {b : Nat} {K : Correspondence} {V : Pairing} {Γ Γ' : Context} {r r' : Reading}, L.Frame n b K V Γ Γ' →
    r.Matches K r' → L.rel n b b K (L.Written b V Γ Γ') (readings n Γ r) (fun i => readings i Γ' r')

end Tracking

namespace ReadBack

variable {m : Type → Type} [Machine m] {L : Tracking m} {n b : Nat} {K : Correspondence} {V : Pairing}
  {Γ Γ' : Context} (h : L.Reads n) (fr : L.Frame (n + 1) b K V Γ Γ')

include h fr

theorem tracks_readAnnotated {t t' : Typed} (ht : Matches K (.typed t) (.typed t')) :
    L.rel n b b K (L.Written b V Γ Γ') (readAnnotated (readings n) Γ t)
      (fun i => readAnnotated (readings i) Γ' t') := by
  cases ht with
  | typed hA hv =>
      refine L.bind (h fr.pred (.type hA)) fun K₁ t t' g ht => ?_
      refine L.bind (h (fr.grows g).pred (.value (hA.mono g.le) (hv.mono g.le))) fun K₂ e e' _ he => ?_
      exact L.pure (.the ht he)

theorem tracks_readCanonical {A A' v v' : Value} (hA : Both K A A') (hv : Both K v v') :
    L.rel n b b K (L.Written b V Γ Γ') (readCanonical (run n) (readings n) Γ A v)
      (fun i => readCanonical (run i) (readings i) Γ' A' v') := by
  cases hA using Both.byForm with
  | const c =>
      cases c with
      | nat =>
          cases hv using Both.byForm with
          | const c =>
              cases c with
              | zero => exact L.pure (.const .zero)
              | _ => exact L.defect _
          | unary u hv =>
              cases u with
              | add1 =>
                  refine L.bind (h fr.pred (.value (.const .nat) hv)) fun _ _ _ _ he => ?_
                  exact L.pure (.unary .add1 he)
              | _ => exact L.defect _
          | _ => exact L.defect _
      | atom =>
          cases hv using Both.byForm with
          | quote a => exact L.pure (.quote a)
          | _ => exact L.defect _
      | _ => cases hv using Both.byForm <;> exact L.defect _
  | unary u hE =>
      cases u with
      | list =>
          cases hv using Both.byForm with
          | const c =>
              cases c with
              | nil => exact L.pure (.const .nil)
              | _ => exact L.defect _
          | binary b hv hvs =>
              cases b with
              | listCons =>
                  refine L.bind (h fr.pred (.value hE hv)) fun K₁ e e' g he => ?_
                  refine L.bind (h (fr.grows g).pred (.value (.unary .list (hE.mono g.le)) (hvs.mono g.le)))
                    fun _ _ _ _ hes => ?_
                  exact L.pure (.binary .listCons he hes)
              | _ => exact L.defect _
          | _ => exact L.defect _
      | _ => cases hv using Both.byForm <;> exact L.defect _
  | binary b hl hr =>
      cases b with
      | vec =>
          cases hv using Both.byForm with
          | const c =>
              cases c with
              | vecNil => exact L.pure (.const .vecNil)
              | _ => exact L.defect _
          | binary b hv hvs =>
              cases b with
              | vecCons =>
                  refine L.bind (L.ask (.force hr)) fun K₁ k k' g₁ hk => ?_
                  cases hk using Both.byForm with
                  | unary u hk =>
                      cases u with
                      | add1 =>
                          have fr₁ := fr.grows g₁
                          refine L.bind (h fr₁.pred (.value (hl.mono g₁.le) (hv.mono g₁.le)))
                            fun K₂ e e' g₂ he => ?_
                          have le := g₁.le.trans g₂.le
                          refine L.bind (h (fr₁.grows g₂).pred (.value (.binary .vec (hl.mono le)
                            (hk.mono g₂.le)) (hvs.mono le))) fun _ _ _ _ hes => ?_
                          exact L.pure (.binary .vecCons he hes)
                      | _ => exact L.defect _
                  | _ => exact L.defect _
              | _ => exact L.defect _
          | _ => exact L.defect _
      | either =>
          cases hv using Both.byForm with
          | unary u hv =>
              cases u with
              | left =>
                  refine L.bind (h fr.pred (.value hl hv)) fun _ _ _ _ he => ?_
                  exact L.pure (.unary .left he)
              | right =>
                  refine L.bind (h fr.pred (.value hr hv)) fun _ _ _ _ he => ?_
                  exact L.pure (.unary .right he)
              | _ => exact L.defect _
          | _ => exact L.defect _
      | _ => cases hv using Both.byForm <;> exact L.defect _
  | equal hT _ _ =>
      cases hv using Both.byForm with
      | unary u hv =>
          cases u with
          | same =>
              refine L.bind (h fr.pred (.value hT hv)) fun _ _ _ _ he => ?_
              exact L.pure (.unary .same he)
          | _ => exact L.defect _
      | _ => exact L.defect _
  | _ => cases hv using Both.byForm <;> exact L.defect _

omit h fr in
theorem hint_binders {x x' : Name} (hx : K.binders x x') {f f' : Value} (hf : Both K f f') :
    K.binders (hint x f) (hint x' f') := by
  cases hf with
  | lam hy _ => exact hy
  | _ => exact hx

/-- At a type whose elements are compared by their form, the value's form decides. -/
theorem tracks_readByForm {A A' v v' : Value} (hA : Both K A A') (hv : Both K v v') :
    L.rel n b b K (L.Written b V Γ Γ')
      (run n (.force v) >>= fun v => match v with
        | .neutral _ stuck => readings n Γ (.neutral stuck)
        | v => readCanonical (run n) (readings n) Γ A v)
      (fun i => run i (.force v') >>= fun v => match v with
        | .neutral _ stuck => readings i Γ' (.neutral stuck)
        | v => readCanonical (run i) (readings i) Γ' A' v) := by
  refine L.bind (L.ask (.force hv)) fun K₁ w w' g hw => ?_
  have canonical := tracks_readCanonical h (fr.grows g) (hA.mono g.le) hw
  cases hw using Both.byForm with
  | neutral _ he => exact h (fr.grows g).pred (.neutral he)
  | _ => exact canonical

/-- A function is read with a new name for its parameter. -/
theorem tracks_readFunction {x x' : Name} {d d' v v' : Value} {r r' : Closure}
    (hx : K.binders x x') (hd : Both K d d') (hr : Matches K (.closure r) (.closure r'))
    (hv : Both K v v') :
    L.rel n b b K (L.Written b V Γ Γ') (readElement (run n) (readings n) Γ v (.pi x d r))
      (fun i => readElement (run i) (readings i) Γ' v' (.pi x' d' r')) := by
  refine L.bind (L.ask (.force hv)) fun K₁ f f' g₁ hf => ?_
  have fr₁ := fr.grows g₁
  refine L.bind (fr₁.freshName (Nat.succ_pos _) (hint_binders (g₁.le.binders _ _ hx) hf))
    fun K₂ y y' g₂ hy => ?_
  have le := g₁.le.trans g₂.le
  have below := le.trans (K₂.le_bind y y')
  have fr' := (fr₁.grows g₂).bindFree hy.toChosen d d'
  have var := Both.ofVar (hd.mono le) y y'
  refine L.scope hy.same (L.bind (L.ask (.apply (hr.mono below) var)) fun K₃ B B' g₃ hB => ?_)
  have hf := (hf.mono g₂.le).mono (K₂.le_bind y y')
  refine L.bind ((L.asks n b).call (hf.mono g₃.le) (var.mono g₃.le)) fun K₄ b b' g₄ hb => ?_
  refine L.bind (h ((fr'.grows g₃).grows g₄) (.value (hB.mono g₄.le) hb)) fun K₅ e e' _ he => ?_
  exact L.pure (.lam hy he.of_bindFree)

theorem tracks_readElement {A A' v v' : Value} (hA : Both K A A') (hv : Both K v v') :
    L.rel n b b K (L.Written b V Γ Γ') (readElement (run n) (readings n) Γ v A)
      (fun i => readElement (run i) (readings i) Γ' v' A') := by
  have byForm := tracks_readByForm h fr hA hv
  cases hA using Both.byForm with
  | const c =>
      cases c with
      | univ => exact h fr.pred (.type hv)
      | trivial => exact L.pure (.const .sole)
      | absurd =>
          refine L.bind (L.ask (.force hv)) fun K₁ w w' g hw => ?_
          cases hw using Both.byForm with
          | neutral _ he =>
              refine L.bind (h (fr.grows g).pred (.neutral he)) fun _ _ _ _ he => ?_
              exact L.pure (.the (.const .absurd) he)
          | _ => exact L.defect _
      | _ => exact byForm
  | quant q hx hd hr =>
      cases q with
      | pi => exact tracks_readFunction h fr hx hd hr hv
      | sigma =>
          refine L.bind ((L.asks n b).project .car hv) fun K₁ a a' g₁ ha => ?_
          refine L.bind ((L.asks n b).project .cdr (hv.mono g₁.le)) fun K₂ b b' g₂ hb => ?_
          have le := g₁.le.trans g₂.le
          have fr₂ := (fr.grows g₁).grows g₂
          refine L.bind (h fr₂.pred (.value (hd.mono le) (ha.mono g₂.le))) fun K₃ l l' g₃ hl => ?_
          refine L.bind (L.ask (.apply (hr.mono (le.trans g₃.le)) (ha.mono (g₂.le.trans g₃.le))))
            fun K₄ B B' g₄ hB => ?_
          refine L.bind (h ((fr₂.grows g₃).grows g₄).pred (.value hB (hb.mono (g₃.le.trans g₄.le))))
            fun _ _ _ _ hd => ?_
          exact L.pure (.binary .cons hl hd)
  | _ => exact byForm

theorem tracks_readFormer {v v' : Value} (hv : Both K v v') :
    L.rel n b b K (L.Written b V Γ Γ') (readFormer (run n) (readings n) Γ v)
      (fun i => readFormer (run i) (readings i) Γ' v') := by
  cases hv using Both.byForm with
  | const c =>
      cases c with
      | univ => exact L.pure (.const .univ)
      | nat => exact L.pure (.const .nat)
      | atom => exact L.pure (.const .atom)
      | trivial => exact L.pure (.const .trivial)
      | absurd => exact L.pure (.const .absurd)
      | _ => exact L.defect _
  | unary u hE =>
      cases u with
      | list =>
          refine L.bind (h fr.pred (.type hE)) fun _ _ _ _ he => ?_
          exact L.pure (.unary .list he)
      | _ => exact L.defect _
  | binary b hl hr =>
      cases b with
      | vec =>
          refine L.bind (h fr.pred (.type hl)) fun K₁ _ _ g he => ?_
          refine L.bind (h (fr.grows g).pred (.value (.const .nat) (hr.mono g.le))) fun _ _ _ _ hk => ?_
          exact L.pure (.binary .vec he hk)
      | either =>
          refine L.bind (h fr.pred (.type hl)) fun K₁ _ _ g hl => ?_
          refine L.bind (h (fr.grows g).pred (.type (hr.mono g.le))) fun _ _ _ _ hr => ?_
          exact L.pure (.binary .either hl hr)
      | _ => exact L.defect _
  | equal hT hl hr =>
      refine L.bind (h fr.pred (.type hT)) fun K₁ _ _ g₁ ht => ?_
      have fr₁ := fr.grows g₁
      refine L.bind (h fr₁.pred (.value (hT.mono g₁.le) (hl.mono g₁.le))) fun K₂ _ _ g₂ hl => ?_
      have le := g₁.le.trans g₂.le
      refine L.bind (h (fr₁.grows g₂).pred (.value (hT.mono le) (hr.mono le))) fun _ _ _ _ hr => ?_
      exact L.pure (.equal ht hl hr)
  | @quant x x' d d' r r' q hx hd hr =>
      refine L.bind (fr.freshName (Nat.succ_pos _) hx) fun K₁ y y' g₁ hy => ?_
      have fr₁ := fr.grows g₁
      refine L.bind (h fr₁.pred (.type (hd.mono g₁.le))) fun K₂ e e' g₂ he => ?_
      have le := g₁.le.trans g₂.le
      have below := le.trans (K₂.le_bind y y')
      have fr' := (fr₁.grows g₂).bindFree hy.toChosen d d'
      refine L.scope hy.same (L.bind (L.ask (.apply (hr.mono below)
        (.ofVar (hd.mono le) y y'))) fun K₃ B B' g₃ hB => ?_)
      refine L.bind (h (fr'.grows g₃) (.type hB)) fun _ _ _ _ hr => ?_
      exact L.pure (.quant q hy he hr.of_bindFree)
  | neutral _ he => exact h fr.pred (.neutral he)
  | _ => exact L.defect _

theorem tracks_readNeutral {e e' : Neutral} (he : Matches K (.neutral e) (.neutral e')) :
    L.rel n b b K (L.Written b V Γ Γ') (readNeutral (readings n) Γ e)
      (fun i => readNeutral (readings i) Γ' e') := by
  have typed : ∀ {K : Correspondence} {t t' : Typed}, L.Frame (n + 1) b K V Γ Γ' →
      Matches K (.typed t) (.typed t') → L.rel n b b K (L.Written b V Γ Γ')
        (readings n Γ t.reading) (fun i => readings i Γ' t'.reading) :=
    fun fr ht => h fr.pred (Typed.reading_matches ht)
  cases he with
  | var hx => exact L.pure (.var (fr.names _ _ hx))
  | app hf ha =>
      refine L.bind (h fr.pred (.neutral hf)) fun K₁ _ _ g hf => ?_
      refine L.bind (typed (fr.grows g) (ha.mono g.le)) fun _ _ _ _ ha => ?_
      exact L.pure (.app hf ha)
  | proj p ht =>
      refine L.bind (h fr.pred (.neutral ht)) fun _ _ _ _ ht => ?_
      exact L.pure (.proj p ht)
  | fold f ht hb hs =>
      refine L.bind (h fr.pred (.neutral ht)) fun K₁ _ _ g₁ ht => ?_
      have fr₁ := fr.grows g₁
      refine L.bind (tracks_readAnnotated h fr₁ (hb.mono g₁.le)) fun K₂ _ _ g₂ hb => ?_
      refine L.bind (typed (fr₁.grows g₂) (hs.mono (g₁.le.trans g₂.le))) fun _ _ _ _ hs => ?_
      exact L.pure (.fold f ht hb hs)
  | induct i ht hm hb hs =>
      refine L.bind (h fr.pred (.neutral ht)) fun K₁ _ _ g₁ ht => ?_
      have fr₁ := fr.grows g₁
      refine L.bind (typed fr₁ (hm.mono g₁.le)) fun K₂ _ _ g₂ hm => ?_
      have fr₂ := fr₁.grows g₂
      have le := g₁.le.trans g₂.le
      refine L.bind (typed fr₂ (hb.mono le)) fun K₃ _ _ g₃ hb => ?_
      refine L.bind (typed (fr₂.grows g₃) (hs.mono (le.trans g₃.le))) fun _ _ _ _ hs => ?_
      exact L.pure (.induct i ht hm hb hs)
  | transport k ht hm hb =>
      refine L.bind (h fr.pred (.neutral ht)) fun K₁ _ _ g₁ ht => ?_
      have fr₁ := fr.grows g₁
      refine L.bind (typed fr₁ (hm.mono g₁.le)) fun K₂ _ _ g₂ hm => ?_
      refine L.bind (typed (fr₁.grows g₂) (hb.mono (g₁.le.trans g₂.le))) fun _ _ _ _ hb => ?_
      exact L.pure (.transport k ht hm hb)
  | indAbsurd ht hm =>
      cases hm with
      | typed _ hm =>
          refine L.bind (h fr.pred (.neutral ht)) fun K₁ _ _ g ht => ?_
          refine L.bind (h (fr.grows g).pred (.type (hm.mono g.le))) fun _ _ _ _ hm => ?_
          exact L.pure (.indAbsurd (.the (.const .absurd) ht) hm)
  | indVec hk ht hm hb hs =>
      refine L.bind (typed fr hk) fun K₁ _ _ g₁ hk => ?_
      have fr₁ := fr.grows g₁
      refine L.bind (h fr₁.pred (.neutral (ht.mono g₁.le))) fun K₂ _ _ g₂ ht => ?_
      have fr₂ := fr₁.grows g₂
      have le₂ := g₁.le.trans g₂.le
      refine L.bind (typed fr₂ (hm.mono le₂)) fun K₃ _ _ g₃ hm => ?_
      have fr₃ := fr₂.grows g₃
      have le₃ := le₂.trans g₃.le
      refine L.bind (typed fr₃ (hb.mono le₃)) fun K₄ _ _ g₄ hb => ?_
      refine L.bind (typed (fr₃.grows g₄) (hs.mono (le₃.trans g₄.le))) fun _ _ _ _ hs => ?_
      exact L.pure (.indVec hk ht hm hb hs)
  | trans hl hr =>
      refine L.bind (typed fr hl) fun K₁ _ _ g hl => ?_
      refine L.bind (typed (fr.grows g) (hr.mono g.le)) fun _ _ _ _ hr => ?_
      exact L.pure (.trans hl hr)
  | cong ht hf =>
      refine L.bind (h fr.pred (.neutral ht)) fun K₁ _ _ g ht => ?_
      refine L.bind (tracks_readAnnotated h (fr.grows g) (hf.mono g.le)) fun _ _ _ _ hf => ?_
      exact L.pure (.cong ht hf)

theorem tracks_step {r r' : Reading} (hr : r.Matches K r') :
    L.rel n b b K (L.Written b V Γ Γ') (step (run n) (readings n) Γ r)
      (fun i => step (run i) (readings i) Γ' r') := by
  cases hr with
  | value hA hv =>
      refine L.bind (L.ask (.force hA)) fun K₁ A A' g hA => ?_
      exact tracks_readElement h (fr.grows g) hA (hv.mono g.le)
  | type hv =>
      refine L.bind (L.ask (.force hv)) fun K₁ A A' g hA => ?_
      exact tracks_readFormer h (fr.grows g) hA
  | neutral he => exact tracks_readNeutral h fr he

end ReadBack

theorem Tracking.readings {m : Type → Type} [Machine m] (L : Tracking m) (n : Nat) : L.Reads n := by
  induction n with
  | zero => exact fun _ _ => L.exhausted rfl
  | succ n ih => exact fun fr hr => L.succ (ReadBack.tracks_step ih fr hr) fun _ => rfl

end TypeKernel
