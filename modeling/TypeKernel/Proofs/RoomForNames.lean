/-
# TypeKernel.Proofs.RoomForNames — where no numeral is too long

A fresh name is its hint with a higher subscript, and a subscript has at most `digitLimit` digits. So a run may
fail because a name that it needs cannot be written. Whether it can come to this shows in the names that are
there before it starts. A name that is chosen is above its hint by the number of names in use at most, and each
nested step brings one name into use at most. Checking also evaluates what it has written, so that a name it
chose may be a hint later on, and the expression tells how often (`Expr.cost`).

`Context.HasRoom` says that all names of binders, in the values and in the expressions that a run starts from,
have subscripts that far below `10 ^ digitLimit`. Then no numeral is too long (`HasRoom.clear`), whatever was
done in the session before.
-/
import TypeKernel.Proofs.Attains
import TypeKernel.Proofs.CheckedByNeed

namespace TypeKernel

set_option autoImplicit false

/-! ## The names of binders -/

/-- Binders have names in `P`, or names that evaluation gives. -/
def Correspondence.named (P : Name → Prop) : Correspondence where
  binders x y := x = y ∧ (P x ∨ x ∈ Family.parameters)
  families _ hx := ⟨rfl, .inr hx⟩
  names := Eq
  cells _ _ _ _ _ _ := True
  annotated := False
  outer := none

theorem Correspondence.named_near (P : Name → Prop) : (named P).Near :=
  ⟨fun _ _ hx => hx.1, fun _ _ => Iff.rfl, id, rfl⟩

/-- All names of binders in a piece are in `P`, or are names that evaluation gives. This includes the binders of
code, and the entries of the environments that are captured. -/
def Piece.Named (P : Name → Prop) (p : Piece) : Prop :=
  Matches (.named P) p.erase p.erase

/-- All names of binders in an expression are in `P`. -/
def Expr.Named (P : Name → Prop) (e : Expr) : Prop :=
  Alike (fun x y => x = y ∧ P x) Eq e e

theorem Piece.Named.part {P : Name → Prop} {p q : Piece} (h : p.Named P) (hq : q ∈ p.parts) : q.Named P := by
  have parts := Matches.parts rfl h
  rw [Piece.parts_erase, List.forall₂_map_left_iff, List.forall₂_map_right_iff, List.forall₂_same] at parts
  exact parts q hq

theorem Matches.binds {K : Correspondence} (hK : K.Near) {p q : Piece} (h : Matches K p q) : q.Binds K := by
  cases h with
  | quant _ hx | lam hx | family hx | extend hx =>
      cases hK.binders _ _ hx
      exact hx
  | delayed _ hρ he =>
      have same := hρ.pairing_eq hK
      cases he.eq hK.bare hK.binders same
      exact he.mono id (fun _ _ hx => hx) same
  | @code ρ ρ' x x' _ _ hx hρ hb =>
      cases hK.binders _ _ hx
      have same : ∀ z w, (K.pairing ρ ρ').under x x z w → z = w := by
        rintro z w (⟨rfl, rfl⟩ | ⟨-, -, hzw⟩)
        · rfl
        · exact hρ.pairing_eq hK z w hzw
      cases hb.eq hK.bare hK.binders same
      exact ⟨hx, hb.mono id (fun _ _ hx => hx) same⟩
  | outer ho => cases hK.whole.symm.trans ho
  | _ => trivial

theorem Piece.binds_of_erase {K : Correspondence} {p : Piece} (h : p.erase.Binds K) : p.Binds K := by
  cases p with
  | value v => cases v <;> exact h
  | neutral e => cases e <;> exact h
  | typed t => exact h
  | closure c => cases c <;> exact h
  | family f => cases f <;> exact h
  | env ρ => cases ρ <;> exact h

/-- The same correspondence with names in `P` only. -/
def Correspondence.narrow (K : Correspondence) (P : Name → Prop) : Correspondence :=
  { named P with
    names := K.names
    cells := fun c ρ e c' ρ' e' => K.cells c ρ e c' ρ' e' ∧
      Both (named P) (.delayed c' ρ' e') (.delayed c' ρ' e') }

theorem Correspondence.Near.narrow {K : Correspondence} (hK : K.Near) (P : Name → Prop) : (K.narrow P).Near :=
  ⟨fun _ _ hx => hx.1, hK.names, id, rfl⟩

/-- What is held is held with names in `P` only, if it has no others. -/
theorem Matches.narrow {K : Correspondence} (hK : K.Exact) {P : Name → Prop} {p : Piece}
    (h : Matches K p p.erase) (hp : p.Named P) : Matches (K.narrow P) p p.erase := by
  have near := hK.toNear.narrow P
  have own : p.Binds (K.narrow P) := Piece.binds_of_erase (Matches.binds (Correspondence.named_near P) hp)
  have parts : Held (K.narrow P) p.parts := fun q hq => narrow hK (Held.parts hK h q hq) (hp.part hq)
  by_cases delayed : p.isDelayed = true
  · obtain ⟨c, ρ, e, rfl⟩ := Piece.eq_delayed delayed
    have env : Matches (K.narrow P) (.env ρ) (.env ρ.erase) := parts.head
    cases h with
    | delayed hc _ _ =>
        refine .delayed ⟨hc, hp⟩ env (own.mono id (fun _ _ hx => hx) ?_)
        rintro x _ rfl
        exact env.pairing near.binders near.whole x
  · exact Held.build near own (Bool.eq_false_iff.2 delayed) parts
termination_by sizeOf p
decreasing_by exact Piece.sizeOf_parts hq

/-- A faithful session is faithful with names in `P` only: evaluation adds no others. -/
theorem Faithful.narrow {K : Correspondence} {s : Session} (rem : Remembers K s) {P : Name → Prop}
    {Q : Pairing → Prop} (limits : Q (K.narrow P).binders) : Faithful Q (K.narrow P) s where
  near := rem.near.narrow P
  limits := limits
  allocated hc := rem.allocated hc.1
  own hc hd := rem.own hc.1 hd.1
  blank hc := rem.blank hc.1
  kept hc hv := by
    obtain ⟨w, hw, hvw⟩ := rem.kept hc.1 hv
    have named := (byName_answer (.force hc.2) fun _ _ _ _ => trivial).both hw hw
    cases (rem.eq_erase hvw : Piece.value w = .value _)
    exact ⟨_, hw, Matches.narrow rem.exact hvw named⟩

/-! ## Room -/

/-- How far a subscript can get above those that are there: with every level by as much as names can be in use. -/
def Context.reserve (Γ : Context) (levels n : Nat) : Nat :=
  (levels + 1) * (Γ.names.length + (levels + n))

/-- There is room for the names of a run in the context, through this many levels and with steps nested at most
`n` deep, which starts from the pieces `ps` and the expressions `es`. -/
structure Context.HasRoom (Γ : Context) (levels : Nat) (ps : List Piece) (es : List Expr) (n : Nat) :
    Prop where
  limit : Γ.reserve levels n < 10 ^ Text.digitLimit
  pieces : ∀ p ∈ ps, p.Named (Text.Roomy (Γ.reserve levels n))
  code : ∀ e ∈ es, e.Named (Text.Roomy (Γ.reserve levels n))

/-- The name has no subscript. -/
def Text.isPlain (x : Name) : Bool :=
  x.toList.getLast?.all fun c => !(subscriptValue? c).isSome

/-- A name without a subscript leaves as much room as there is. -/
theorem Text.roomy_of_plain {count : Nat} (limit : count < 10 ^ digitLimit) {x : Name}
    (plain : isPlain x = true) : Roomy count x := by
  have last : ∀ c ∈ x.toList.getLast?, ¬ IsSubscript c := by
    intro c hc
    rw [isPlain, Option.mem_def.1 hc, Option.all_some, Bool.not_eq_true'] at plain
    exact isSome_subscriptValue?_false.1 plain
  exact (Subscripted.unmarked last).roomy (Nat.zero_le _) (by simpa using limit)

theorem Family.parameters_plain : ∀ x ∈ Family.parameters, Text.isPlain x = true := by
  decide

/-- No numeral is too long. -/
def Clear {α : Type} (x : ByNeed α) (s : Session) : Prop :=
  ∀ e s', x s = .error (.failed e) s' → ¬ e.IsNumeral

namespace Context

/-- Runs by need that keep track of subscripts, with as many names in use as there will be. -/
abbrev tracking (Γ : Context) (levels n : Nat) : Tracking ByNeed :=
  .keeping (some (Γ.names.length + (levels + n))) (Text.Roomy (Γ.reserve levels n))

/-- The correspondence allows the names that leave room, and no others. -/
structure Spacious (Γ : Context) (levels n : Nat) (J : Correspondence) : Prop where
  near : J.Near
  limits : (Γ.tracking levels n).Limits levels J.binders

namespace Spacious

variable {Γ : Context} {levels n : Nat} {J : Correspondence} (h : Γ.Spacious levels n J)

include h

theorem binders {x : Name} (hx : Text.Roomy (Γ.reserve levels n) x) : J.binders x x :=
  (h.limits x).1 fun _ hU => Option.some.inj hU ▸ hx

theorem frame : (Γ.tracking levels n).Frame n levels J Eq Γ Γ :=
  Tracking.keeping_frame h.near rfl fun _ hU => Option.some.inj hU ▸ Nat.le_refl _

theorem meets (held : Held J Γ.pieces) : (Γ.tracking levels n).Meets n levels J Eq Γ Γ.erase := by
  have env : TypeKernel.Matches J (.env Γ.env) (.env Γ.erase.env) := by
    rw [Γ.env_erase]
    exact held.head
  exact Tracking.keeping_meets h.near held.context env (fun _ hU => Option.some.inj hU ▸ Nat.le_refl _)
    h.limits.covers fun _ hx => h.binders hx

/-- An expression with such names may be evaluated. -/
theorem code {e : Expr} (he : e.Named (Text.Roomy (Γ.reserve levels n))) {ρ ρ' : Env}
    (env : TypeKernel.Matches J (.env ρ) (.env ρ')) : J.Code (J.pairing ρ ρ') e e := by
  refine he.mono False.elim (fun _ _ hx => hx.1 ▸ h.binders hx.2) ?_
  rintro x _ rfl
  exact env.pairing h.near.binders h.near.whole x

end Spacious

namespace HasRoom

variable {Γ : Context} {levels n : Nat} {ps : List Piece} {es : List Expr} {K : Correspondence} {s : Session}
  (room : Γ.HasRoom levels ps es n) (rem : Remembers K s) (held : Held K ps)

include room rem held

/-- With room, what keeps track of subscripts in a faithful session is clear. -/
theorem clear {α β : Type} {b : Nat} {R : Correspondence → α → β → Prop} {x : ByNeed α} {y : Nat → ByName β}
    (tracked : ∀ {J}, Γ.Spacious levels n J → Held J ps → (Γ.tracking levels n).rel n levels b J R x y) :
    Clear x s := by
  have limits : (Γ.tracking levels n).Limits levels (K.narrow (Text.Roomy (Γ.reserve levels n))).binders := by
    intro x
    constructor
    · exact fun spares => ⟨rfl, .inl (spares _ rfl)⟩
    · rintro ⟨-, hx⟩ U hU
      cases Option.some.inj hU
      exact hx.elim id fun given => Text.roomy_of_plain room.limit (Family.parameters_plain x given)
  have narrow : Faithful _ (K.narrow (Text.Roomy (Γ.reserve levels n))) s := rem.narrow limits
  have held' : Held (K.narrow _) ps := fun p hp => (held p hp).narrow rem.exact (room.pieces p hp)
  rintro e s' fails ⟨d, rfl⟩
  cases (tracked ⟨narrow.near, limits⟩ held' s narrow).error fails

theorem clear_readings {r : Reading} (hr : r.pieces ⊆ ps) : Clear (readings n Γ r) s :=
  room.clear rem held fun spacious held' =>
    Tracking.readings _ n spacious.frame (held'.of_subset hr).reading

theorem clear_convert {T v w : Value} (hT : ∀ {J}, Held J ps → Both J T T.erase) (hv : .value v ∈ ps)
    (hw : .value w ∈ ps) : Clear (convert n Γ T v w) s :=
  room.clear rem held fun spacious held' =>
    Tracking.convert spacious.frame (hT held') (held' _ hv) (held' _ hw)

end HasRoom

namespace HasRoom

variable {Γ : Context} {n : Nat} {ps : List Piece} {e : Expr} {K : Correspondence} {s : Session}
  (room : Γ.HasRoom (e.cost 0) ps [e] n) (rem : Remembers K s) (held : Held K ps) (hΓ : Γ.pieces ⊆ ps)

include room

theorem judges : (Γ.tracking (e.cost 0) n).Judges n e.cost Eq (judge n e) fun i => judge i e := by
  have named := room.code e (.head _)
  exact Tracking.judge n (named.mono id (fun _ _ hx => ⟨fun _ => hx.1, hx.2⟩) fun _ _ hx => hx)
    fun _ _ _ hx => hx

include rem held hΓ

theorem clear_synthesize (r : Renaming) : Clear (synthesize n Γ e r) s :=
  room.clear rem held fun spacious held' =>
    room.judges.synth (spacious.meets (held'.of_subset hΓ)) fun _ _ => congrArg r.rename

theorem clear_isType (r : Renaming) : Clear (isType n Γ e r) s :=
  room.clear rem held fun spacious held' =>
    room.judges.isType (spacious.meets (held'.of_subset hΓ)) fun _ _ => congrArg r.rename

theorem clear_check (r : Renaming) {A : Value} (hA : .value A ∈ ps) : Clear (check n Γ e A r) s :=
  room.clear rem held fun spacious held' =>
    room.judges.check (spacious.meets (held'.of_subset hΓ)) (fun _ _ => congrArg r.rename) (held' _ hA)

end HasRoom

end Context

/-! ## Computations with room -/

/-- As `Gives`, where a numeral is too long only under a bound for which there is no `room`. With `room` nothing
fails. -/
def GivesInRoom {α : Type} (room : Nat → Prop) (N : Nat) (x : Nat → ByNeed α) (P : α → Session → Prop)
    (s : Session) : Prop :=
  ∀ n, (∃ a s', x n s = .ok a s' ∧ P a s') ∨ (n < N ∧ ∃ s', x n s = .error .exhausted s') ∨
    ¬ room n ∧ ∃ e s', e.IsNumeral ∧ x n s = .error (.failed e) s'

theorem Gives.inRoom {α : Type} {room : Nat → Prop} {N : Nat} {x : Nat → ByNeed α} {P : α → Session → Prop}
    {s : Session} (h : Gives Error.IsNumeral N x P s) (clear : ∀ n, room n → Clear (x n) s) :
    GivesInRoom room N x P s := by
  intro n
  rcases h n with returns | stops | ⟨e, s', numeral, fails⟩
  · exact .inl returns
  · exact .inr (.inl stops)
  · exact .inr (.inr ⟨fun room => clear n room e s' fails numeral, e, s', numeral, fails⟩)

theorem GivesInRoom.of_ok {α : Type} {room : Nat → Prop} {N : Nat} {x : Nat → ByNeed α}
    {P : α → Session → Prop} {s : Session} (h : GivesInRoom room N x P s) {n : Nat} {a : α} {s' : Session}
    (returned : x n s = .ok a s') : P a s' := by
  rcases h n with ⟨b, t, returns, hP⟩ | ⟨-, t, stops⟩ | ⟨-, e, t, -, fails⟩
  · cases returned.symm.trans returns
    exact hP
  · cases returned.symm.trans stops
  · cases returned.symm.trans fails

end TypeKernel
