/-
# TypeKernel.Proofs.Composed — contexts of values that were evaluated

Nothing has to be checked for a context to be used: names are bound to whatever values expressions have in the
context so far (`Composed`). Such a context is still closed. A value that was evaluated in it mentions only
names of the context, wherever it mentions them, and so do the values that the context binds
(`Composed.enclosed`).

`Recurs` says that one computation leads to another: if the first returns, the second does, in the same session
and in all that follow it, as long as there is room for fresh names. `Recurs.of_reaches` brings this from
evaluation by name to evaluation by need.
-/
import TypeKernel.Proofs.Isolation
import TypeKernel.Proofs.RoomForNames
import TypeKernel.Proofs.TrackedByName
import TypeKernel.Proofs.Visibility

namespace TypeKernel

set_option autoImplicit false

open Machine

/-! ## Closed contexts -/

/-- What is at hand with a context and some values. -/
def Context.atHand (Γ : Context) (vs : List Value) : List Piece :=
  Γ.pieces ++ vs.map .value

/-- Contexts put together from nothing, in a session, with the values that were evaluated on the way. Names may
be bound again, and in between anything may be done with what is at hand. -/
inductive Composed : Context → Session → List Value → Prop
  | start (s : Session) : Composed .empty s []
  | eval {Γ s vs n e v s'} (h : Composed Γ s vs) (hv : (Γ.env.eval n e : ByNeed Value) s = .ok v s') :
      Composed Γ s' (v :: vs)
  | free {Γ s vs T} (h : Composed Γ s vs) (x : Name) (hT : T ∈ vs) : Composed (Γ.bindFree x T) s vs
  | claim {Γ s vs T} (h : Composed Γ s vs) (x : Name) (hT : T ∈ vs) : Composed (Γ.bindClaim x T) s vs
  | definition {Γ s vs T v} (h : Composed Γ s vs) (x : Name) (hT : T ∈ vs) (hv : v ∈ vs) :
      Composed (Γ.bindDefinition x T v) s vs
  | after {Γ s vs s' ps} (h : Composed Γ s vs) (later : History s (Γ.atHand vs) s' ps) : Composed Γ s' vs

namespace Context

variable {Γ : Context} {x : Name} {T v : Value}

/-- The value mentions only names of the context. -/
abbrev Encloses (Γ : Context) (v : Value) : Prop :=
  v.Within (· ∈ Γ.names)

/-- The values of all names mention only names of the context. -/
abbrev Closed (Γ : Context) : Prop :=
  Γ.env.Within (· ∈ Γ.names)

theorem Encloses.mono {Δ : Context} (h : Γ.Encloses v) (names : Γ.names ⊆ Δ.names) : Δ.Encloses v :=
  TypeKernel.Matches.mono h (Correspondence.within_mono fun _ hx => names hx)

namespace Closed

theorem empty : Context.empty.Closed :=
  TypeKernel.Matches.empty

theorem mono {Δ : Context} (h : Γ.Closed) (names : Γ.names ⊆ Δ.names) :
    Γ.env.Within (· ∈ Δ.names) :=
  TypeKernel.Matches.mono h (Correspondence.within_mono fun _ hx => names hx)

theorem bindFree (h : Γ.Closed) (x : Name) (hT : Γ.Encloses T) : (Γ.bindFree x T).Closed := by
  have more : Γ.names ⊆ (Γ.bindFree x T).names := List.subset_cons_self x _
  exact .extend rfl (h.mono more) (Value.Within.ofVar (hT.mono more) (.head _))

theorem bindClaim (h : Γ.Closed) (x : Name) (T : Value) : (Γ.bindClaim x T).Closed :=
  h.mono (Δ := Γ.bindClaim x T) (List.subset_cons_self x _)

theorem bindDefinition (h : Γ.Closed) (x : Name) (T : Value) (hv : Γ.Encloses v) :
    (Γ.bindDefinition x T v).Closed := by
  have more : Γ.names ⊆ (Γ.bindDefinition x T v).names := names_subset_bindDefinition
  unfold Closed
  rw [env_bindDefinition]
  exact .extend rfl (h.mono more) (hv.mono more)

end Closed

end Context

/-- By need there is a context with some values, and by name a closed context with values that mention only
names of it. -/
structure Enclosed (K : Correspondence) (Γ : Context) (vs : List Value) (Γ' : Context) : Prop where
  context : Γ.Matches K Γ'
  closed : Γ'.Closed
  values : ∀ v ∈ vs, ∃ v', Both K v v' ∧ Γ'.Encloses v'

namespace Enclosed

variable {K K' : Correspondence} {Γ Γ' Δ Δ' : Context} {vs : List Value} {v v' : Value}

theorem mono (h : Enclosed K Γ vs Γ') (le : K.Le K') : Enclosed K' Γ vs Γ' where
  context := h.context.mono le
  closed := h.closed
  values w hw := by
    obtain ⟨w', mw, ww⟩ := h.values w hw
    exact ⟨w', mw.mono le, ww⟩

theorem cons (h : Enclosed K Γ vs Γ') (mv : Both K v v') (wv : Γ'.Encloses v') :
    Enclosed K Γ (v :: vs) Γ' :=
  ⟨h.context, h.closed, List.forall_mem_cons.2 ⟨⟨v', mv, wv⟩, h.values⟩⟩

theorem extend (h : Enclosed K Γ vs Γ') (context : Δ.Matches K Δ') (closed : Δ'.Closed)
    (names : Γ'.names ⊆ Δ'.names) : Enclosed K Δ vs Δ' where
  context := context
  closed := closed
  values w hw := by
    obtain ⟨w', mw, ww⟩ := h.values w hw
    exact ⟨w', mw, ww.mono names⟩

theorem held (h : Enclosed K Γ vs Γ') {s : Session} (rem : Remembers K s) : Held K (Γ.atHand vs) := by
  refine List.forall_mem_append.2 ⟨h.context.held rem, List.forall_mem_map.2 fun w hw => ?_⟩
  obtain ⟨w', mw, -⟩ := h.values w hw
  exact rem.eq_erase mw ▸ mw

end Enclosed

theorem Composed.enclosed {Γ : Context} {s : Session} {vs : List Value} (h : Composed Γ s vs) :
    ∃ K Γ', Remembers K s ∧ Enclosed K Γ vs Γ' := by
  induction h with
  | start s => exact ⟨_, .empty, .start s, .nil, .empty, List.forall_mem_nil _⟩
  | @eval _ _ _ _ e _ _ _ hv ih =>
      obtain ⟨K, Γ', rem, en⟩ := ih
      obtain ⟨K', le, rem', v', mv, hv'⟩ := Yields.eval rem.exact en.context e _ _ _ rem hv
      exact ⟨K', Γ', rem', (en.mono le).cons mv (en.closed.eval hv')⟩
  | free _ x hT ih =>
      obtain ⟨K, Γ', rem, en⟩ := ih
      obtain ⟨T', mT, wT⟩ := en.values _ hT
      exact ⟨K, Γ'.bindFree x T', rem, en.extend (en.context.bindFree x mT) (en.closed.bindFree x wT)
        (List.subset_cons_self x _)⟩
  | claim _ x hT ih =>
      obtain ⟨K, Γ', rem, en⟩ := ih
      obtain ⟨T', mT, -⟩ := en.values _ hT
      exact ⟨K, Γ'.bindClaim x T', rem, en.extend (en.context.bindClaim x mT) (en.closed.bindClaim x T')
        (List.subset_cons_self x _)⟩
  | definition _ x hT hv ih =>
      obtain ⟨K, Γ', rem, en⟩ := ih
      obtain ⟨T', mT, -⟩ := en.values _ hT
      obtain ⟨v', mv, wv⟩ := en.values _ hv
      exact ⟨K, Γ'.bindDefinition x T' v', rem, en.extend (en.context.bindDefinition x mT mv)
        (en.closed.bindDefinition x T' wv) Context.names_subset_bindDefinition⟩
  | after _ later ih =>
      obtain ⟨K, Γ', rem, en⟩ := ih
      obtain ⟨K', le, rem', -⟩ := later.held rem (en.held rem)
      exact ⟨K', Γ', rem', en.mono le⟩

/-! ## Computations that recur -/

/-- If the first computation returns in the session `s`, then the second gives something that `R` relates to
the result, in `s` and in every session that follows it. Where it has `room`, it does not fail. -/
def Recurs {α β : Type} (room : Nat → Prop) (x : Nat → ByNeed α) (y : Nat → ByNeed β) (R : α → β → Prop)
    (s : Session) (ps : List Piece) : Prop :=
  ∀ n a s', x n s = .ok a s' → ∃ N, ∀ s₁ ps₁, History s ps s₁ ps₁ →
    GivesInRoom room N y (fun b _ => R a b) s₁

/-- It does not matter which of two computations returns first, with room for the first and for the second. -/
def Concur {α : Type} (room room' : Nat → Prop) (x y : Nat → ByNeed α) (R : α → α → Prop) (s : Session)
    (ps : List Piece) : Prop :=
  Recurs room' x y R s ps ∧ Recurs room y x R s ps

theorem Recurs.of_reaches {α β : Type} {x : Nat → ByNeed α} {y : Nat → ByNeed β} {x' : Nat → ByName α}
    {y' : Nat → ByName β} {R : α → β → Prop} {room : Nat → Prop} {K : Correspondence} {s : Session}
    {ps : List Piece} (rem : Remembers K s) (held : Held K ps) (hx : ∀ n, (byNeed n).rel K Same (x n) x')
    (hy : ∀ {K'}, K.Le K' → K'.Exact → ∀ n, (byNeed n).rel K' Same (y n) y')
    (leads : ∀ n a, x' n = .ok a → Reaches False (R a) y')
    (clear : ∀ {K' s₁}, Remembers K' s₁ → Held K' ps → ∀ n, room n → Clear (y n) s₁) :
    Recurs room x y R s ps := by
  intro n a s' returned
  obtain ⟨_, _, _, _, rfl, M, returns⟩ := (hx n s rem).ok returned
  obtain ⟨N, attains⟩ := (leads M a (returns M (Nat.le_refl M))).attains fun _ _ numeral => numeral
  refine ⟨N, fun s₁ ps₁ later => ?_⟩
  obtain ⟨K₁, le, rem₁, -⟩ := later.held rem held
  refine Gives.inRoom ((attains (hy le rem₁.exact)).gives rem₁ fun _ b _ _ _ hb => ?_)
    (clear rem₁ (held.mono le))
  obtain ⟨_, hR, rfl⟩ := hb
  exact hR

end TypeKernel
