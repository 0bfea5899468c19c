/-
# TypeKernel.Proofs.Memo — evaluation by need follows evaluation by name

Each cell of a session belongs to a delayed value that evaluation by name suspends as well. The session
is faithful (`Remembers`) if every result it holds is what evaluation by name gives for that value,
forced again. Suspending, forcing and filling keep a session faithful, also when they fail, so by need
every computation ends as it does by name, up to the number of steps (`byNeed_run`). The same goes for sessions
whose binders have names of one kind only (`Faithful`).

The number of steps is compared in both directions. Whatever ends by need ends by name if enough steps
are allowed there; and whatever ends by name within a number of steps ends by need within the same
number, because looking into a cell takes no more steps than evaluating again.
-/
import TypeKernel.Machine.ByNeed
import TypeKernel.Proofs.SameAnswer

namespace TypeKernel

set_option autoImplicit false

/-- Binders and free variables have the same names, and only the cells of delayed values differ. -/
structure Correspondence.Near (K : Correspondence) : Prop where
  binders : ∀ x y, K.binders x y → x = y
  names : ∀ x y, K.names x y ↔ x = y
  bare : ¬ K.annotated
  whole : K.outer = none

/-- Only the cells of delayed values differ, and binders may have any names. -/
structure Correspondence.Exact (K : Correspondence) : Prop extends K.Near where
  refl : ∀ x, K.binders x x

/-- The results in the cells are those that evaluation by name gives. The names of binders are as `P` says. -/
structure Faithful (P : Pairing → Prop) (K : Correspondence) (s : Session) : Prop where
  near : K.Near
  limits : P K.binders
  allocated : ∀ {c ρ e c' ρ' e'}, K.cells c ρ e c' ρ' e' → c < s.cells.size
  own : ∀ {c ρ e c' ρ' e' σ f d' σ' f'}, K.cells c ρ e c' ρ' e' → K.cells c σ f d' σ' f' →
    Value.delayed c' ρ' e' = .delayed d' σ' f'
  kept : ∀ {c ρ e c' ρ' e' v}, K.cells c ρ e c' ρ' e' → s.result? c = some v →
    ∃ w, answer (.force (.delayed c' ρ' e')) = .ok w ∧ Both K v w
  /-- By name there are no cells, so all delayed values name the same one. -/
  blank : ∀ {c ρ e c' ρ' e'}, K.cells c ρ e c' ρ' e' → c' = 0

/-- The results in the cells are those that evaluation by name gives, whatever the names of binders. -/
abbrev Remembers : Correspondence → Session → Prop :=
  Faithful fun B => ∀ x, B x x

theorem Faithful.exact {K : Correspondence} {s : Session} (h : Faithful (fun B => ∀ x, B x x) K s) :
    K.Exact :=
  ⟨h.near, h.limits⟩

/-! ## Outcomes for every number of steps -/

/-- Computations, one for each bound on the steps, that have one outcome from some bound on. Within `n`
steps they have it too, unless they need more. -/
structure Settles {α : Type} (n : Nat) (y : Nat → ByName α) (o : ByName α) : Prop where
  eventually : ∃ N, ∀ i, N ≤ i → y i = o
  within : y n = .error .exhausted ∨ y n = o

namespace Settles

variable {α β : Type} {n : Nat} {y : Nat → ByName α} {g : Nat → α → ByName β}

theorem const (o : ByName α) : Settles n (fun _ => o) o :=
  ⟨⟨0, fun _ _ => rfl⟩, .inr rfl⟩

theorem bind {a : α} {o : ByName β} (h : Settles n y (.ok a)) (hg : Settles n (fun i => g i a) o) :
    Settles n (fun i => y i >>= g i) o := by
  obtain ⟨N₁, h₁⟩ := h.eventually
  obtain ⟨N₂, h₂⟩ := hg.eventually
  refine ⟨⟨max N₁ N₂, fun i hi => ?_⟩, ?_⟩
  · rw [h₁ i (by omega)]
    exact h₂ i (by omega)
  · rcases h.within with hn | hn
    · exact .inl (by rw [hn]; rfl)
    · rw [hn]
      exact hg.within

theorem bind_error {e : Stop} (h : Settles n y (.error e)) :
    Settles n (fun i => y i >>= g i) (.error e) := by
  obtain ⟨N, hN⟩ := h.eventually
  refine ⟨⟨N, fun i hi => by rw [hN i hi]; rfl⟩, ?_⟩
  rcases h.within with hn | hn
  · exact .inl (by rw [hn]; rfl)
  · exact .inr (by rw [hn]; rfl)

theorem succ {y' : Nat → ByName α} {o : ByName α} (h : Settles n y o) (hy : ∀ i, y' (i + 1) = y i) :
    Settles (n + 1) y' o := by
  obtain ⟨N, hN⟩ := h.eventually
  refine ⟨⟨N + 1, fun i hi => ?_⟩, by rw [hy]; exact h.within⟩
  obtain ⟨j, rfl⟩ : ∃ j, i = j + 1 := ⟨i - 1, by omega⟩
  rw [hy]
  exact hN j (by omega)

theorem answer {r : Request} {v : Value} (h : answer r = .ok v) :
    Settles n (fun i => run (i + 1) r) (.ok v) := by
  obtain ⟨N, hN⟩ := run_of_answer h
  refine ⟨⟨N, fun i hi => hN (i + 1) (by omega)⟩, ?_⟩
  rw [← h]
  exact run_approx_answer (n + 1) r

/-- What is made of outcomes settles with them, if it goes on being out of steps. -/
theorem map {o : ByName α} (h : Settles n y o) (f : ByName α → ByName β)
    (hf : f (.error .exhausted) = .error .exhausted) : Settles n (fun i => f (y i)) (f o) where
  eventually := by
    obtain ⟨N, hN⟩ := h.eventually
    exact ⟨N, fun i hi => congrArg f (hN i hi)⟩
  within := by
    rcases h.within with hn | hn
    · exact .inl ((congrArg f hn).trans hf)
    · exact .inr (congrArg f hn)

end Settles

/-- What is known of the session in which a computation has stopped. -/
abbrev Leaves := Correspondence → Stop → Session → Prop

/-- The session is still faithful. -/
def Leaves.faithful : Leaves :=
  fun K _ s => ∃ K', K.Le K' ∧ Remembers K' s

/-- No numeral was too long. -/
def Leaves.noNumeral : Leaves :=
  fun _ reason _ => reason.isNumeral = false

/-- Evaluation stops in this way. -/
structure Leaves.Fits (E : Leaves) (P : Pairing → Prop) : Prop where
  mono : ∀ {K K' reason s}, K.Le K' → E K' reason s → E K reason s
  here : ∀ {K reason s}, Faithful P K s → reason.isNumeral = false → E K reason s

theorem Leaves.Fits.weaken {E : Leaves} {P Q : Pairing → Prop} (h : E.Fits P) (hQ : ∀ B, Q B → P B) :
    E.Fits Q :=
  ⟨h.mono, fun rem => h.here { rem with limits := hQ _ rem.limits }⟩

theorem Leaves.faithful_fits : Leaves.faithful.Fits fun B => ∀ x, B x x where
  mono := fun le ⟨K'', le', rem⟩ => ⟨K'', le.trans le', rem⟩
  here := fun rem _ => ⟨_, .refl _, rem⟩

theorem Leaves.noNumeral_fits (P : Pairing → Prop) : Leaves.noNumeral.Fits P where
  mono := fun _ h => h
  here := fun _ h => h

/-- What an outcome by need, after at most `n` nested requests, says about the outcomes by name. -/
def Follows {α β : Type} (P : Pairing → Prop) (E : Leaves) (n : Nat) (K : Correspondence)
    (R : Correspondence → α → β → Prop) (y : Nat → ByName β) : EStateM.Result Stop Session α → Prop
  | .ok a s => ∃ K' b, K.Le K' ∧ Faithful P K' s ∧ R K' a b ∧ Settles n y (.ok b)
  | .error (.failed e) s => E K (.failed e) s ∧ Settles n y (.error (.failed e))
  | .error .exhausted s => E K .exhausted s ∧ y n = .error .exhausted

namespace Follows

variable {α β γ δ : Type} {P Q : Pairing → Prop} {E : Leaves} {n : Nat} {K K' : Correspondence}
  {R : Correspondence → α → β → Prop} {S : Correspondence → γ → δ → Prop} {y : Nat → ByName β}
  {g : Nat → β → ByName δ}

theorem mono (hE : E.Fits Q) {x : EStateM.Result Stop Session α} (h : Follows P E n K' R y x)
    (le : K.Le K') : Follows P E n K R y x := by
  match x, h with
  | .ok _ _, ⟨K'', b, le', rest⟩ => exact ⟨K'', b, le.trans le', rest⟩
  | .error (.failed _) _, ⟨left, rest⟩ => exact ⟨hE.mono le left, rest⟩
  | .error .exhausted _, ⟨left, rest⟩ => exact ⟨hE.mono le left, rest⟩

theorem after {b : β} (h : Settles n y (.ok b)) {x : EStateM.Result Stop Session γ}
    (hx : Follows P E n K S (fun i => g i b) x) : Follows P E n K S (fun i => y i >>= g i) x := by
  match x, hx with
  | .ok _ _, ⟨K', d, le, rem, hR, hd⟩ => exact ⟨K', d, le, rem, hR, h.bind hd⟩
  | .error (.failed _) _, ⟨rem, he⟩ => exact ⟨rem, h.bind he⟩
  | .error .exhausted _, ⟨rem, he⟩ =>
      refine ⟨rem, ?_⟩
      show (y n >>= g n) = _
      rcases h.within with hn | hn
      · rw [hn]
        rfl
      · rw [hn]
        exact he

theorem bind (hE : E.Fits Q) {x : ByNeed α} {f : α → ByNeed γ} {s : Session}
    (h : Follows P E n K R y (x s)) (hfg : ∀ K' a b s', K.Le K' → Faithful P K' s' → R K' a b →
      Follows Q E n K' S (fun i => g i b) (f a s')) :
    Follows Q E n K S (fun i => y i >>= g i) ((x >>= f) s) := by
  simp only [Bind.bind, EStateM.bind]
  revert h
  cases x s with
  | ok a s' =>
      rintro ⟨K', b, le, rem, hab, hb⟩
      exact (after hb (hfg K' a b s' le rem hab)).mono hE le
  | error reason s' =>
      cases reason with
      | failed e =>
          rintro ⟨rem, he⟩
          exact ⟨rem, he.bind_error⟩
      | exhausted =>
          rintro ⟨rem, hn⟩
          refine ⟨rem, ?_⟩
          show (y n >>= g n) = _
          rw [hn]
          rfl

theorem succ {y' : Nat → ByName β} {x : EStateM.Result Stop Session α} (h : Follows P E n K R y x)
    (hy : ∀ i, y' (i + 1) = y i) : Follows P E (n + 1) K R y' x := by
  match x, h with
  | .ok _ _, ⟨K', b, le, rem, hR, hb⟩ => exact ⟨K', b, le, rem, hR, hb.succ hy⟩
  | .error (.failed _) _, ⟨rem, he⟩ => exact ⟨rem, he.succ hy⟩
  | .error .exhausted _, ⟨rem, hn⟩ => exact ⟨rem, by rw [hy]; exact hn⟩

theorem ok {x : EStateM.Result Stop Session α} (h : Follows P E n K R y x) {a : α} {s : Session}
    (hx : x = .ok a s) :
    ∃ K' b, K.Le K' ∧ Faithful P K' s ∧ R K' a b ∧ ∃ N, ∀ i, N ≤ i → y i = .ok b := by
  subst hx
  obtain ⟨K', b, le, rem, hR, hb⟩ := h
  exact ⟨K', b, le, rem, hR, hb.eventually⟩

theorem error {x : EStateM.Result Stop Session α} (h : Follows P E n K R y x) {reason : Stop}
    {s : Session} (hx : x = .error reason s) : E K reason s := by
  subst hx
  cases reason with
  | failed e => exact h.1
  | exhausted => exact h.1

end Follows

/-! ## Cells -/

namespace Session

theorem result?_allocate {s : Session} {c : Nat} {v : Value} (h : s.allocate.result? c = some v) :
    s.result? c = some v := by
  obtain ⟨cells, events⟩ := s
  simp only [allocate, result?] at h ⊢
  rw [Array.getElem?_push] at h
  split at h
  · cases h
  · exact h

theorem size_allocate (s : Session) : s.allocate.cells.size = s.cells.size + 1 :=
  Array.size_push _

theorem size_fill (s : Session) (c : Nat) (v : Value) : (s.fill c v).cells.size = s.cells.size := by
  obtain ⟨cells, events⟩ := s
  simp only [fill]
  split
  · exact Array.size_setIfInBounds
  · rfl

/-- Filling a cell changes no other, and no cell that is full. -/
theorem result?_fill {s : Session} {c c' : Nat} {v w : Value}
    (h : (s.fill c v).result? c' = some w) : s.result? c' = some w ∨ c' = c ∧ w = v := by
  obtain ⟨cells, events⟩ := s
  simp only [fill] at h
  split at h
  · simp only [result?, Array.getElem?_setIfInBounds] at h ⊢
    split at h
    · rename_i heq
      subst heq
      split at h
      · exact .inr ⟨rfl, by simpa using h.symm⟩
      · cases h
    · exact .inl h
  · exact .inl h

end Session

/-- One more pair of corresponding cells. -/
def Correspondence.suspend (K : Correspondence) (c : Nat) (ρ : Env) (e : Expr) (c' : Nat) (ρ' : Env)
    (e' : Expr) : Correspondence :=
  { K with
    cells := fun d σ f d' σ' f' => K.cells d σ f d' σ' f' ∨
      d = c ∧ σ = ρ ∧ f = e ∧ d' = c' ∧ σ' = ρ' ∧ f' = e' }

theorem Correspondence.le_suspend (K : Correspondence) (c : Nat) (ρ : Env) (e : Expr) (c' : Nat)
    (ρ' : Env) (e' : Expr) : K.Le (K.suspend c ρ e c' ρ' e') :=
  ⟨fun _ _ h => h, fun _ _ h => h, fun _ _ _ _ _ _ h => .inl h, fun h => h, fun _ h => h⟩

namespace Faithful

variable {P : Pairing → Prop} {K : Correspondence} {s : Session}

theorem suspend (h : Faithful P K s) (ρ : Env) (e : Expr) (ρ' : Env) (e' : Expr) :
    Faithful P (K.suspend s.cells.size ρ e 0 ρ' e') s.allocate where
  near := ⟨h.near.binders, h.near.names, h.near.bare, h.near.whole⟩
  limits := h.limits
  allocated := by
    rintro c ρ₁ e₁ c₁' ρ₁' e₁' (hc | ⟨rfl, -⟩)
    · have := h.allocated hc
      rw [s.size_allocate]
      omega
    · rw [s.size_allocate]
      omega
  own := by
    rintro c ρ₁ e₁ c₁' ρ₁' e₁' ρ₂ e₂ c₂' ρ₂' e₂' (h₁ | ⟨rfl, rfl, rfl, rfl, rfl, rfl⟩)
      (h₂ | ⟨h₂, rfl, rfl, rfl, rfl, rfl⟩)
    · exact h.own h₁ h₂
    · have := h.allocated h₁
      omega
    · have := h.allocated h₂
      omega
    · rfl
  kept := by
    rintro c ρ₁ e₁ c₁' ρ₁' e₁' v (hc | ⟨rfl, -⟩) hv
    · obtain ⟨w, hw, hvw⟩ := h.kept hc (Session.result?_allocate hv)
      exact ⟨w, hw, hvw.mono (K.le_suspend _ _ _ _ _ _)⟩
    · have := Session.result?_allocate hv
      simp [Session.result?] at this
  blank := by
    rintro c ρ₁ e₁ c₁' ρ₁' e₁' (hc | ⟨-, -, -, rfl, -⟩)
    · exact h.blank hc
    · rfl

theorem fill (h : Faithful P K s) {c c' : Nat} {ρ ρ' : Env} {e e' : Expr} {v w : Value}
    (hc : K.cells c ρ e c' ρ' e') (hw : answer (.force (.delayed c' ρ' e')) = .ok w)
    (hvw : Both K v w) : Faithful P K (s.fill c v) where
  near := h.near
  limits := h.limits
  own := h.own
  blank := h.blank
  allocated hc := by
    rw [s.size_fill]
    exact h.allocated hc
  kept := by
    intro c₁ ρ₁ e₁ c₁' ρ₁' e₁' v₁ h₁ hv₁
    rcases Session.result?_fill hv₁ with hv₁ | ⟨rfl, rfl⟩
    · exact h.kept h₁ hv₁
    · rw [h.own h₁ hc]
      exact ⟨w, hw, hvw⟩

theorem record (h : Faithful P K s) (event : Event) : Faithful P K (s.record event) :=
  ⟨h.near, h.limits, h.allocated, h.own, h.kept, h.blank⟩

/-- Every session is faithful as long as nothing refers to its cells. -/
theorem start (s : Session) :
    Remembers ⟨Eq, fun _ _ => rfl, Eq, fun _ _ _ _ _ _ => False, False, none⟩ s where
  near := ⟨fun _ _ h => h, fun _ _ => Iff.rfl, fun h => h, rfl⟩
  limits _ := rfl
  allocated := False.elim
  own := False.elim
  kept := False.elim
  blank := False.elim

end Faithful

/-! ## The simulation -/

/-- Computations by need with requests nested at most `n` deep, compared with computations by name. -/
def remembering {P : Pairing → Prop} {E : Leaves} (hE : E.Fits P) (n : Nat) :
    Simulation Nat ByNeed ByName where
  rel K R x y := ∀ s, Faithful P K s → Follows P E n K R y (x s)
  pure := fun h s rem => ⟨_, _, .refl _, rem, h, .const _⟩
  bind := fun h hfg s rem => (h s rem).bind hE fun K' a b s' le rem' hab => hfg K' a b le hab s' rem'
  fail := fun _ he s rem => ⟨hE.here rem he, .const _⟩
  suspend := by
    intro K ρ ρ' e e' hρ he s rem
    have le := K.le_suspend s.cells.size ρ e 0 ρ' e'
    refine ⟨_, _, le, rem.suspend ρ e ρ' e', ?_, .const _⟩
    exact .delayed (.inr ⟨rfl, rfl, rfl, rfl, rfl, rfl⟩) (hρ.mono le) (he.weaken hρ le)
  leftFails := fun _ _ ha _ rem => (rem.near.bare ha).elim
  rightAlone := fun ha _ _ rem => (rem.near.bare ha).elim

theorem force_full {ask : Request → ByNeed Value} {s : Session} {c : Nat} {v : Value}
    (h : s.result? c = some v) (ρ : Env) (e : Expr) :
    Eval.force ask (.delayed c ρ e) s = .ok v s := by
  simp [Eval.force, Machine.peek, bind, EStateM.bind, h, pure, EStateM.pure]

theorem force_empty {ask : Request → ByNeed Value} {s : Session} {c : Nat} (h : s.result? c = none)
    (ρ : Env) (e : Expr) :
    Eval.force ask (.delayed c ρ e) s =
      match (ask (.eval ρ e) >>= fun v => ask (.force v)) s with
      | .ok v s => .ok v (s.fill c v)
      | .error reason s => .error reason s := by
  simp only [Eval.force, Machine.peek, Machine.keep, bind, EStateM.bind, h, pure, EStateM.pure]
  cases ask (.eval ρ e) s with
  | error reason s => rfl
  | ok v s =>
      dsimp only
      cases ask (.force v) s <;> rfl

section Remembering

variable {P : Pairing → Prop} {E : Leaves} (hE : E.Fits P)

theorem remembering_force {n : Nat} (h : (remembering hE n).Asks (run n) fun i => run i)
    {K : Correspondence} {v v' : Value} (hv : Both K v v') :
    (remembering hE n).rel K Both (Eval.force (run n) v) (fun i => Eval.force (run i) v') := by
  cases hv with
  | @delayed c c' ρ ρ' e e' hc hρ he =>
      intro s rem
      cases hs : s.result? c with
      | some w =>
          obtain ⟨w', hw', hww⟩ := rem.kept hc hs
          rw [force_full hs]
          exact ⟨K, w', .refl K, rem, hww, .answer hw'⟩
      | none =>
          have found := (remembering hE n).bind (h (.eval hρ he)) (fun _ _ _ _ hw => h (.force hw)) s rem
          rw [force_empty hs]
          simp only [Eval.force_delayed]
          revert found
          cases (run n (.eval ρ e) >>= fun v => run n (.force v) : ByNeed Value) s with
          | error reason s => exact fun found => found
          | ok v s =>
              rintro ⟨K', w, le, rem', hvw, hw⟩
              -- What was found is what forcing by name gives, and the cell may hold it.
              have hw' : answer (.force (.delayed c' ρ' e')) = .ok w := by
                obtain ⟨N, hN⟩ := hw.eventually
                refine answer_of_run (n := N + 1) (Eq.trans ?_ (hN N (Nat.le_refl N)))
                exact Eval.force_delayed (run N) c' ρ' e'
              exact ⟨K', w, le, rem'.fill (le.cells _ _ _ _ _ _ hc) hw' hvw, hvw, hw⟩
  | const c => exact (remembering hE n).pure (.const c)
  | quote a => exact (remembering hE n).pure (.quote a)
  | unary u hv => exact (remembering hE n).pure (.unary u hv)
  | binary b h₁ h₂ => exact (remembering hE n).pure (.binary b h₁ h₂)
  | equal ht hl hr => exact (remembering hE n).pure (.equal ht hl hr)
  | quant q hx hd hr => exact (remembering hE n).pure (.quant q hx hd hr)
  | lam hx hb => exact (remembering hE n).pure (.lam hx hb)
  | neutral ht he => exact (remembering hE n).pure (.neutral ht he)

theorem remembering_run (n : Nat) : (remembering hE n).Asks (run n) fun i => run i := by
  induction n with
  | zero => exact fun K r r' hr s rem => ⟨hE.here rem rfl, rfl⟩
  | succ n ih =>
      intro K r r' hr s rem
      have step := ih.step (remembering_force hE ih) (fun ha => (rem.near.bare ha).elim) hr s rem
      exact step.succ fun _ => rfl

end Remembering

/-- Whatever the names of binders, the session stays faithful. -/
def byNeed (n : Nat) : Simulation Nat ByNeed ByName :=
  remembering Leaves.faithful_fits n

theorem byNeed_run (n : Nat) : (byNeed n).Asks (run n) fun i => run i :=
  remembering_run _ n

end TypeKernel
