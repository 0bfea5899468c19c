/-
# TypeKernel.Proofs.OutOfReach — cells that are never looked at

By need, a delayed value is forced by looking at its cell, so a cell that is never looked at is never forced,
whether forcing it would succeed or fail. A computation `Ignores` a cell if it does the same whatever the cell
holds, and leaves there whatever it was.

From a piece, a session `Refers` to those cells that evaluation could ever come across: from code only through
the entries of its free names, and from a delayed value through its expression as long as its own cell is empty,
and through its result afterwards. An empty cell to which nothing at hand refers is ignored, and nothing that
comes out refers to it either (`Spares`), so this goes on for everything that is done later (`Uses.hides`).
-/
import TypeKernel.Proofs.NormalForms

namespace TypeKernel

set_option autoImplicit false

open Machine

/-! ## Cells -/

namespace Session

/-- Set a cell, whatever it holds. -/
def put (c : Nat) (content : Option Value) : Session → Session
  | ⟨cells, events⟩ => ⟨cells.setIfInBounds c content, events⟩

variable {s : Session} {c d : Nat} {o : Option Value} {v w : Value}

theorem size_of_empty (h : s.cells[c]? = some none) : c < s.cells.size := by
  obtain ⟨hc, -⟩ := Array.getElem?_eq_some_iff.1 h
  exact hc

theorem allocate_result? (s : Session) (d : Nat) : s.allocate.result? d = s.result? d := by
  obtain ⟨cells, events⟩ := s
  simp only [allocate, result?, Array.getElem?_push]
  split
  · subst d
    simp
  · rfl

theorem fill_result? (h : s.result? d = some w) (c : Nat) (v : Value) : (s.fill c v).result? d = some w := by
  obtain ⟨cells, events⟩ := s
  simp only [fill]
  split
  · rename_i hc
    have hcd : c ≠ d := by
      rintro rfl
      simp [result?, hc] at h
    simpa [result?, Array.getElem?_setIfInBounds_ne hcd] using h
  · exact h

theorem fill_cell (hcd : c ≠ d) (v : Value) : (s.fill d v).cells[c]? = s.cells[c]? := by
  obtain ⟨cells, events⟩ := s
  simp only [fill]
  split
  · exact Array.getElem?_setIfInBounds_ne hcd.symm
  · rfl

theorem put_size (s : Session) (c : Nat) (o : Option Value) : (s.put c o).cells.size = s.cells.size :=
  Array.size_setIfInBounds

theorem put_result? (hcd : c ≠ d) : (s.put c o).result? d = s.result? d :=
  congrArg Option.join (Array.getElem?_setIfInBounds_ne hcd)

theorem put_result?_self (hc : c < s.cells.size) : (s.put c o).result? c = o :=
  congrArg Option.join (Array.getElem?_setIfInBounds_self_of_lt hc)

theorem put_allocate (hc : c < s.cells.size) : (s.put c o).allocate = s.allocate.put c o := by
  obtain ⟨cells, events⟩ := s
  simp only [put, allocate, mk.injEq, and_true]
  change c < cells.size at hc
  grind

theorem put_fill (hcd : c ≠ d) (v : Value) : (s.put c o).fill d v = (s.fill d v).put c o := by
  obtain ⟨cells, events⟩ := s
  simp only [put, fill, Array.getElem?_setIfInBounds_ne hcd]
  split
  · simp only [mk.injEq, and_true]
    exact Array.setIfInBounds_comm _ _ hcd
  · rfl

end Session

/-- The computation does the same whatever the cell `c` holds, and leaves that there. -/
def Ignores {α : Type} (c : Nat) (x : ByNeed α) (s : Session) : Prop :=
  ∀ o, x (s.put c o) =
    match x s with
    | .ok a s' => .ok a (s'.put c o)
    | .error reason s' => .error reason (s'.put c o)

/-- Forcing a delayed value does not ignore its cell. -/
theorem not_ignores_force {s : Session} {c : Nat} (hc : c < s.cells.size) (ρ : Env) (e : Expr) (n : Nat) :
    ¬ Ignores c ((Value.delayed c ρ e).force (n + 1)) s := by
  intro ignores
  have found : ∀ w, ∃ s', ((Value.delayed c ρ e).force (n + 1) : ByNeed Value) s = .ok w s' := by
    intro w
    have full : ((Value.delayed c ρ e).force (n + 1) : ByNeed Value) (s.put c (some w)) = .ok w _ :=
      force_full (Session.put_result?_self hc) ρ e
    have same := full.symm.trans (ignores (some w))
    split at same
    · rename_i s' returned
      injection same with hw
      exact ⟨s', hw ▸ returned⟩
    · cases same
  obtain ⟨_, first⟩ := found (.const .zero)
  obtain ⟨_, second⟩ := found (.const .nat)
  cases first.symm.trans second

/-! ## What a session refers to -/

namespace Session

/-- Evaluation could come across the cell `c` from the piece. -/
inductive Refers (s : Session) (c : Nat) : Piece → Prop
  | itself {ρ e} : s.Refers c (.value (.delayed c ρ e))
  | result {d ρ e w} (hd : s.result? d = some w) (refers : s.Refers c (.value w)) :
      s.Refers c (.value (.delayed d ρ e))
  | waiting {d ρ e x v} (hd : s.result? d = none) (hx : x ∈ e.freeNames) (hv : ρ.get? x = some v)
      (refers : s.Refers c (.value v)) : s.Refers c (.value (.delayed d ρ e))
  | captured {ρ x b y v} (hy : y ∈ (Expr.lam x b).freeNames) (hv : ρ.get? y = some v)
      (refers : s.Refers c (.value v)) : s.Refers c (.closure (.code ρ x b))
  | part {p q} (hp : p.isCapturing = false) (hq : q ∈ p.parts) (refers : s.Refers c q) : s.Refers c p

/-- The cells that do not lead to the cell `c`. -/
def outOfReach (s : Session) (c : Nat) : Bounds where
  cells d := d ≠ c ∧ ∀ w, s.result? d = some w → ¬ s.Refers c (.value w)
  full d := (s.result? d).isSome
  proper := False

variable {s₀ s : Session} {c : Nat} {p : Piece} {v : Value}

theorem outOfReach_strays : (s.outOfReach c).Strays p ↔ s.Refers c p := by
  constructor
  · intro h
    induction h with
    | @cell d ρ e hd =>
        by_cases heq : d = c
        · exact heq ▸ .itself
        · by_contra out
          exact hd ⟨heq, fun w hw refers => out (.result hw refers)⟩
    | entry hd hx hv _ ih => exact .waiting (Option.not_isSome_iff_eq_none.1 hd) hx hv ih
    | captured hy hv _ ih => exact .captured hy hv ih
    | chain proper _ => exact proper.elim
    | part hp hq _ ih => exact .part hp hq ih
  · intro h
    induction h with
    | itself => exact .cell fun hc => hc.1 rfl
    | result hd refers _ => exact .cell fun hc => hc.2 _ hd refers
    | waiting hd hx hv _ ih => exact .entry (Option.not_isSome_iff_eq_none.2 hd) hx hv ih
    | captured hy hv _ ih => exact .captured hy hv ih
    | part hp hq _ ih => exact .part hp hq ih

theorem outOfReach_admits : (s.outOfReach c).Admits p ↔ ¬ s.Refers c p :=
  not_congr outOfReach_strays

/-- The session follows `s₀`, and the cell `c` is still empty. Results that came since do not lead to it. -/
structure Spares (s₀ : Session) (c : Nat) (s : Session) : Prop where
  size : s₀.cells.size ≤ s.cells.size
  empty : s.cells[c]? = some none
  full : ∀ d, (s₀.result? d).isSome → (s.result? d).isSome
  results : ∀ d w, (s₀.outOfReach c).cells d → s.result? d = some w → (s₀.outOfReach c).Allows w

namespace Spares

theorem start (h : s.cells[c]? = some none) : s.Spares c s where
  size := Nat.le_refl _
  empty := h
  full _ hd := hd
  results _ w hd hw := outOfReach_admits.2 (hd.2 w hw)

variable (h : s₀.Spares c s)

include h

theorem allocate : s₀.Spares c s.allocate where
  size := (Nat.le_succ_of_le h.size).trans_eq s.size_allocate.symm
  empty := by
    obtain ⟨cells, events⟩ := s
    simp only [Session.allocate, Array.getElem?_push]
    split
    · rfl
    · exact h.empty
  full d hd := (s.allocate_result? d).symm ▸ h.full d hd
  results d w hd hw := h.results d w hd ((s.allocate_result? d).symm.trans hw)

theorem fill {d : Nat} (hd : (s₀.outOfReach c).cells d) (hv : (s₀.outOfReach c).Allows v) :
    s₀.Spares c (s.fill d v) where
  size := h.size.trans_eq (s.size_fill d v).symm
  empty := (fill_cell hd.1.symm v).trans h.empty
  full d' hd' := by
    obtain ⟨w, hw⟩ := Option.isSome_iff_exists.1 (h.full d' hd')
    exact Option.isSome_iff_exists.2 ⟨w, fill_result? hw d v⟩
  results d' w hd' hw := by
    rcases result?_fill hw with old | ⟨-, rfl⟩
    · exact h.results d' w hd' old
    · exact hv

theorem next : (s₀.outOfReach c).cells s.cells.size := by
  refine ⟨(Nat.ne_of_lt (size_of_empty h.empty)).symm, fun w hw => ?_⟩
  have none : s₀.result? s.cells.size = none := by
    simp [result?, Array.getElem?_eq_none h.size]
  cases none.symm.trans hw

/-- What did not refer to the cell does not refer to it now. -/
theorem not_refers (hp : (s₀.outOfReach c).Admits p) : ¬ s.Refers c p := by
  intro refers
  induction refers with
  | itself => exact hp.cell.1 rfl
  | result hd _ ih => exact ih (h.results _ _ hp.cell hd)
  | waiting hd hx hv _ ih =>
      refine ih (hp.entries (fun full => ?_) _ hx _ hv)
      simpa [hd] using h.full _ full
  | captured hy hv _ ih => exact ih (hp.covers _ hy _ hv)
  | part hnot hq _ ih => exact ih (List.forall_iff_forall_mem.1 (hp.parts hnot) _ hq)

end Spares

end Session

/-! ## Computations that ignore a cell -/

/-- From `s`, the computation ignores the cell, and what it returns satisfies `Q`. -/
structure Sparing {α : Type} (s₀ : Session) (c : Nat) (x : ByNeed α) (Q : α → Prop) (s : Session) : Prop where
  ignores : Ignores c x s
  returns : ∀ {a s'}, x s = .ok a s' → s₀.Spares c s' ∧ Q a
  fails : ∀ {reason s'}, x s = .error reason s' → s₀.Spares c s'

namespace Sparing

variable {α β : Type} {s₀ s s' : Session} {c : Nat} {P : α → Prop} {Q : β → Prop} {x : ByNeed α} {a : α}

theorem of_ok (run : x s = .ok a s') (runPut : ∀ o, x (s.put c o) = .ok a (s'.put c o))
    (spares : s₀.Spares c s') (ha : P a) : Sparing s₀ c x P s where
  ignores o := by rw [runPut, run]
  returns returned := by
    cases run.symm.trans returned
    exact ⟨spares, ha⟩
  fails failed := by cases run.symm.trans failed

theorem of_error {reason : Stop} (run : x s = .error reason s')
    (runPut : ∀ o, x (s.put c o) = .error reason (s'.put c o)) (spares : s₀.Spares c s') : Sparing s₀ c x P s where
  ignores o := by rw [runPut, run]
  returns returned := by cases run.symm.trans returned
  fails failed := by
    cases run.symm.trans failed
    exact spares

theorem bind {f : α → ByNeed β} (h : Sparing s₀ c x P s)
    (hf : ∀ a, P a → ∀ s, s₀.Spares c s → Sparing s₀ c (f a) Q s) : Sparing s₀ c (x >>= f) Q s := by
  cases hx : x s with
  | error reason s' =>
      have run : (x >>= f) s = .error reason s' := by simp [Bind.bind, EStateM.bind, hx]
      refine .of_error run (fun o => ?_) (h.fails hx)
      simp [Bind.bind, EStateM.bind, h.ignores o, hx]
  | ok a s' =>
      obtain ⟨spares, ha⟩ := h.returns hx
      have next := hf a ha s' spares
      have run : (x >>= f) s = f a s' := by simp [Bind.bind, EStateM.bind, hx]
      refine ⟨fun o => ?_, fun returned => next.returns (run.symm.trans returned),
        fun failed => next.fails (run.symm.trans failed)⟩
      have runPut : (x >>= f) (s.put c o) = f a (s'.put c o) := by
        simp [Bind.bind, EStateM.bind, h.ignores o, hx]
      rw [run, runPut]
      exact next.ignores o

end Sparing

namespace Guard

/-- Computations by need, which ignore the cell `c`. -/
def sparing (s₀ : Session) (c : Nat) : Guard ByNeed (s₀.outOfReach c).invariant where
  keeps x Q := ∀ s, s₀.Spares c s → Sparing s₀ c x Q s
  pure ha _ hs := .of_ok rfl (fun _ => rfl) hs ha
  bind hx hf s hs := (hx s hs).bind hf
  imp hx hPQ s hs :=
    have spared := hx s hs
    ⟨spared.ignores, fun returned => (spared.returns returned).imp id (hPQ _), spared.fails⟩
  stop _ _ hs := .of_error rfl (fun _ => rfl) hs
  suspend {ρ e} hρ s hs := by
    refine .of_ok (a := .delayed s.cells.size ρ e) rfl (fun o => ?_) hs.allocate (.delayed hs.next fun _ => hρ)
    change EStateM.Result.ok (Value.delayed (s.put c o).cells.size ρ e) (s.put c o).allocate = _
    rw [s.put_size, Session.put_allocate (Session.size_of_empty hs.empty)]

variable {s₀ : Session} {c : Nat}

/-- Forcing what does not lead to the cell does not look at it. -/
theorem sparing_force {ask : Request → ByNeed Value} (h : (sparing s₀ c).Asks ask) {d : Nat} {ρ : Env} {e : Expr}
    (hv : (s₀.outOfReach c).Allows (.delayed d ρ e)) :
    (sparing s₀ c).keeps (Eval.force ask (.delayed d ρ e)) (s₀.outOfReach c).Allows := by
  intro s hs
  have apart : c ≠ d := hv.cell.1.symm
  have samePut : ∀ o, (s.put c o).result? d = s.result? d := fun _ => Session.put_result? apart
  cases hd : s.result? d with
  | some w =>
      refine .of_ok (force_full hd ρ e) (fun o => ?_) hs (hs.results d w hv.cell hd)
      exact force_full ((samePut o).trans hd) ρ e
  | none =>
      have waiting : ¬ (s₀.outOfReach c).full d := fun full => by simpa [hd] using hs.full d full
      have found := (sparing s₀ c).bind (h.eval (hv.entries waiting)) (fun w hw => h.force hw) s hs
      cases hx : (ask (.eval ρ e) >>= fun v => ask (.force v) : ByNeed Value) s with
      | error reason s' =>
          have run : Eval.force ask (.delayed d ρ e) s = .error reason s' := by rw [force_empty hd, hx]
          refine .of_error run (fun o => ?_) (found.fails hx)
          rw [force_empty ((samePut o).trans hd), found.ignores o, hx]
      | ok v s' =>
          obtain ⟨spares, allowed⟩ := found.returns hx
          have run : Eval.force ask (.delayed d ρ e) s = .ok v (s'.fill d v) := by rw [force_empty hd, hx]
          refine .of_ok run (fun o => ?_) (spares.fill hv.cell allowed) allowed
          rw [force_empty ((samePut o).trans hd), found.ignores o, hx]
          exact congrArg (EStateM.Result.ok v) (Session.put_fill apart v)

theorem sparing_run (n : Nat) : (sparing s₀ c).Asks (run n) := by
  induction n with
  | zero => exact fun _ _ => (sparing s₀ c).stop False.elim
  | succ n ih => exact ih.step (sparing_force ih)

end Guard

/-! ## Values that hide a cell -/

/-- The session that a computation leaves, whether it returns or fails. -/
def Session.after {α : Type} (s : Session) (x : ByNeed α) : Session :=
  match x s with
  | .ok _ s' | .error _ s' => s'

theorem Sparing.after {α : Type} {s₀ s : Session} {c : Nat} {x : ByNeed α} {P : α → Prop}
    (h : Sparing s₀ c x P s) : s₀.Spares c (s.after x) := by
  unfold Session.after
  split
  · rename_i returned
    exact (h.returns returned).1
  · rename_i failed
    exact h.fails failed

/-- The cell is empty, and the value does not lead to it. -/
structure Session.Hides (s : Session) (c : Nat) (v : Value) : Prop where
  empty : s.cells[c]? = some none
  hidden : ¬ s.Refers c (.value v)

namespace Session.Hides

variable {s : Session} {c : Nat} {v : Value} (h : s.Hides c v)

include h

theorem allows : (s.outOfReach c).Allows v :=
  outOfReach_admits.2 h.hidden

theorem later {α : Type} {x : ByNeed α} {P : α → Prop} (sparing : (Guard.sparing s c).keeps x P) :
    (s.after x).Hides c v :=
  have spares := (sparing s (.start h.empty)).after
  ⟨spares.empty, spares.not_refers h.allows⟩

theorem force (k : Nat) : (Guard.sparing s c).keeps (v.force k) (s.outOfReach c).Allows :=
  (Guard.sparing_run k).force h.allows

theorem readBack {T : Value} (hT : ¬ s.Refers c (.value T)) (k : Nat) (Γ : Context) :
    ∃ P, (Guard.sparing s c).keeps (readBack k Γ T v) P :=
  ⟨_, (Guard.sparing s c).readings Bounds.Admits.var Guard.sparing_run k ⟨outOfReach_admits.2 hT, h.allows⟩⟩

end Session.Hides

/-- What can be done with a value: it is forced, and read back in any context, at types that do not lead to the
cell `c`. Some of this may fail. -/
inductive Uses (c : Nat) (v : Value) (s : Session) : Session → Prop
  | none : Uses c v s s
  | force {s₁} (uses : Uses c v s s₁) (k : Nat) : Uses c v s (s₁.after (v.force k))
  | readBack {s₁ T} (uses : Uses c v s s₁) (hT : ¬ s₁.Refers c (.value T)) (k : Nat) (Γ : Context) :
      Uses c v s (s₁.after (readBack k Γ T v))

theorem Uses.hides {c : Nat} {v : Value} {s s₁ : Session} (h : Uses c v s s₁) (hides : s.Hides c v) :
    s₁.Hides c v := by
  induction h with
  | none => exact hides
  | force _ k ih => exact ih.later (ih.force k)
  | readBack _ hT k Γ ih =>
      obtain ⟨P, sparing⟩ := ih.readBack hT k Γ
      exact ih.later sparing

/-- A closure that does not look up its parameter does not refer to its argument. -/
theorem Guard.sparing_apply {s : Session} {c : Nat} {ρ : Env} {x : Name} {b : Expr} (hx : x ∉ b.freeNames)
    (hidden : ¬ s.Refers c (.closure (.code ρ x b))) (v : Value) (n : Nat) :
    (Guard.sparing s c).keeps (Closure.apply n (.code ρ x b) v) (s.outOfReach c).Allows := by
  cases n with
  | zero => exact (Guard.sparing s c).stop False.elim
  | succ n =>
      have covers := (Session.outOfReach_admits.2 hidden).covers
      exact (Guard.sparing_run n).eval (covers.extend fun free => (hx free).elim)

end TypeKernel
