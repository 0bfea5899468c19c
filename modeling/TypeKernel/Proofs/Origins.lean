/-
# TypeKernel.Proofs.Origins — where cells come from, and who gets at them

A cell is allocated for an environment and an expression, its origin. The session does not record origins,
since each delayed value carries its own. Here they are kept beside the session, one for each cell in the
order of allocation, and `Accounts` says that they explain it: whoever mentions a cell mentions its origin
with it, and no cell can be reached from its own origin.

A computation gets at a cell only from the pieces it works on, by way of the origins and the results of
cells. A set of cells is `Shut` if no such way leads out of it, and a computation that starts inside changes
nothing outside (`Moves.frame`). So nobody else fills a cell while it is forced, and a force that fails
leaves the cell empty (`Accounts.force_error`).

All of this is one simulation, `confined`, that ignores its right side: that evaluating, reading back and
checking stay among the cells at hand is then an instance of what holds for every simulation.
-/
import TypeKernel.Proofs.CheckedByNeed
import TypeKernel.Proofs.History
import TypeKernel.Proofs.OutOfReach

namespace TypeKernel

set_option autoImplicit false

open Machine

/-- The environment and the expression that each cell was allocated for, in the order of allocation. -/
abbrev Origins := List (Env × Expr)

/-- The cells that have an origin. -/
def Origins.all (O : Origins) : Set Nat := {c | c < O.length}

/-! ## Cells that are mentioned -/

/-- A delayed value with this cell, this environment and this expression stands somewhere in a piece. -/
inductive Piece.Mentions (c : Nat) (ρ : Env) (e : Expr) : Piece → Prop
  | here : Mentions c ρ e (.value (.delayed c ρ e))
  | part {p q : Piece} (hq : q ∈ p.parts) (h : Mentions c ρ e q) : Mentions c ρ e p

/-- All cells that are mentioned are in `D`, and each is mentioned with its origin. -/
def Piece.CitesOnly (O : Origins) (D : Set Nat) (p : Piece) : Prop :=
  ∀ c ρ e, p.Mentions c ρ e → c ∈ D ∧ O[c]? = some (ρ, e)

theorem Origins.lookup_mono {O O' : Origins} (h : O <+: O') {c : Nat} {o : Env × Expr}
    (hc : O[c]? = some o) : O'[c]? = some o := by
  obtain ⟨more, rfl⟩ := h
  have := (List.getElem?_eq_some_iff.1 hc).1
  rwa [List.getElem?_append_left this]

theorem Origins.lookup_of_lt {O O' : Origins} (h : O <+: O') {c : Nat} {o : Env × Expr}
    (lt : c < O.length) (hc : O'[c]? = some o) : O[c]? = some o := by
  obtain ⟨more, rfl⟩ := h
  rwa [List.getElem?_append_left lt] at hc

theorem Origins.all_mono {O O' : Origins} (h : O <+: O') : O.all ⊆ O'.all :=
  fun _ hc => Nat.lt_of_lt_of_le hc h.length_le

theorem Origins.lookup_concat {O : Origins} {o o' : Env × Expr} {c : Nat}
    (h : (O ++ [o])[c]? = some o') : O[c]? = some o' ∨ c = O.length ∧ o' = o := by
  rcases Nat.lt_trichotomy c O.length with lt | rfl | gt
  · exact .inl (List.getElem?_append_left lt ▸ h)
  · simp only [List.getElem?_concat_length, Option.some.injEq] at h
    exact .inr ⟨rfl, h.symm⟩
  · have := (List.getElem?_eq_some_iff.1 h).1
    simp only [List.length_append, List.length_singleton] at this
    omega

/-- Nothing differs, and no cell is known. -/
def Correspondence.blank : Correspondence :=
  ⟨Eq, fun _ _ => rfl, Eq, fun _ _ _ _ _ _ => False, False, none⟩

/-- The cells that a correspondence knows. -/
def Correspondence.domain (K : Correspondence) : Set Nat :=
  {c | ∃ ρ e c' ρ' e', K.cells c ρ e c' ρ' e'}

/-- The cells in `D` become known, each as what is left of it without cells. -/
def Correspondence.adjoin (K : Correspondence) (O : Origins) (D : Set Nat) : Correspondence :=
  { K with
    cells := fun c ρ e c' ρ' e' => K.cells c ρ e c' ρ' e' ∨
      (c ∈ D ∧ O[c]? = some (ρ, e)) ∧ c' = 0 ∧ ρ' = ρ.erase ∧ e' = e }

/-- Only the cells in `D` are known. -/
def Correspondence.among (O : Origins) (D : Set Nat) : Correspondence :=
  Correspondence.blank.adjoin O D

namespace Correspondence

theorem le_adjoin (K : Correspondence) (O : Origins) (D : Set Nat) : K.Le (K.adjoin O D) :=
  ⟨fun _ _ h => h, fun _ _ h => h, fun _ _ _ _ _ _ h => .inl h, fun h => h, fun _ h => h⟩

theorem Exact.adjoin {K : Correspondence} (hK : K.Exact) (O : Origins) (D : Set Nat) :
    (K.adjoin O D).Exact :=
  ⟨⟨hK.binders, hK.names, hK.bare, hK.whole⟩, hK.refl⟩

theorem Exact.suspend {K : Correspondence} (hK : K.Exact) (c : Nat) (ρ : Env) (e : Expr) (c' : Nat)
    (ρ' : Env) (e' : Expr) : (K.suspend c ρ e c' ρ' e').Exact :=
  ⟨⟨hK.binders, hK.names, hK.bare, hK.whole⟩, hK.refl⟩

theorem blank_exact : blank.Exact :=
  ⟨⟨fun _ _ h => h, fun _ _ => Iff.rfl, fun h => h, rfl⟩, fun _ => rfl⟩

theorem among_exact (O : Origins) (D : Set Nat) : (among O D).Exact :=
  blank_exact.adjoin O D

theorem domain_adjoin (K : Correspondence) {O : Origins} {D : Set Nat}
    (hD : ∀ c ∈ D, c < O.length) : (K.adjoin O D).domain = K.domain ∪ D := by
  ext c
  constructor
  · rintro ⟨ρ, e, c', ρ', e', hc | ⟨⟨hc, -⟩, -⟩⟩
    · exact .inl ⟨ρ, e, c', ρ', e', hc⟩
    · exact .inr hc
  · rintro (⟨ρ, e, c', ρ', e', hc⟩ | hc)
    · exact ⟨ρ, e, c', ρ', e', .inl hc⟩
    · exact ⟨_, _, 0, _, _, .inr ⟨⟨hc, List.getElem?_eq_getElem (hD c hc)⟩, rfl, rfl, rfl⟩⟩

theorem domain_suspend (K : Correspondence) (c : Nat) (ρ : Env) (e : Expr) (c' : Nat) (ρ' : Env)
    (e' : Expr) : (K.suspend c ρ e c' ρ' e').domain = insert c K.domain := by
  ext d
  constructor
  · rintro ⟨σ, f, d', σ', f', hd | ⟨rfl, -⟩⟩
    · exact .inr ⟨σ, f, d', σ', f', hd⟩
    · exact .inl rfl
  · rintro (rfl | ⟨σ, f, d', σ', f', hd⟩)
    · exact ⟨ρ, e, c', ρ', e', .inr ⟨rfl, rfl, rfl, rfl, rfl, rfl⟩⟩
    · exact ⟨σ, f, d', σ', f', .inl hd⟩

theorem domain_among {O : Origins} {D : Set Nat} (hD : ∀ c ∈ D, c < O.length) :
    (among O D).domain = D := by
  rw [among, domain_adjoin _ hD]
  have none : blank.domain = ∅ := Set.eq_empty_of_forall_notMem fun _ ⟨_, _, _, _, _, h⟩ => h
  rw [none, Set.empty_union]

end Correspondence

/-- What matches something mentions only cells that the correspondence knows. -/
theorem Matches.mentions {K : Correspondence} (whole : K.outer = none) {p q : Piece}
    (h : Matches K p q) {c : Nat} {ρ : Env} {e : Expr} (hc : p.Mentions c ρ e) :
    ∃ c' ρ' e', K.cells c ρ e c' ρ' e' := by
  induction hc generalizing q with
  | here =>
      cases h with
      | delayed hc => exact ⟨_, _, _, hc⟩
  | part hr _ ih =>
      obtain ⟨i, hi, rfl⟩ := List.getElem_of_mem hr
      exact ih ((h.parts whole).get hi ((h.parts whole).length_eq ▸ hi))

namespace Piece.CitesOnly

variable {O O' : Origins} {D D' : Set Nat} {p q : Piece}

theorem subset (h : p.CitesOnly O D) (hD : D ⊆ D') : p.CitesOnly O D' := fun c ρ e hc =>
  ⟨hD (h c ρ e hc).1, (h c ρ e hc).2⟩

theorem extend (h : p.CitesOnly O D) (hO : O <+: O') : p.CitesOnly O' D := fun c ρ e hc =>
  ⟨(h c ρ e hc).1, Origins.lookup_mono hO (h c ρ e hc).2⟩

/-- What mentions allocated cells goes on doing so when others are allocated. -/
theorem later (h : p.CitesOnly O O.all) (hO : O <+: O') : p.CitesOnly O' O'.all :=
  (h.extend hO).subset (Origins.all_mono hO)

theorem part (h : p.CitesOnly O D) (hq : q ∈ p.parts) : q.CitesOnly O D := fun c ρ e hc =>
  h c ρ e (.part hq hc)

/-- What is put together mentions what its parts mention. -/
theorem build (hp : p.isDelayed = false) (h : ∀ q ∈ p.parts, q.CitesOnly O D) : p.CitesOnly O D := by
  intro c ρ e hc
  cases hc with
  | here => cases hp
  | part hq hc => exact h _ hq c ρ e hc

theorem inter (h : p.CitesOnly O D) (h' : p.CitesOnly O D') : p.CitesOnly O (D ∩ D') := fun c ρ e hc =>
  ⟨⟨(h c ρ e hc).1, (h' c ρ e hc).1⟩, (h c ρ e hc).2⟩

/-- A piece matches what is left of it without cells if all cells it mentions are known. -/
theorem matched {K : Correspondence} (hK : K.Exact) {p : Piece} (h : p.CitesOnly O D) :
    Matches (K.adjoin O D) p p.erase := by
  have hK' := hK.adjoin O D
  have parts : Held (K.adjoin O D) p.parts := fun q hq => matched hK (h.part hq)
  cases hp : p.isDelayed with
  | false => exact Held.build hK'.toNear (hK'.binds p) hp parts
  | true =>
      match p, hp with
      | .value (.delayed c ρ e), _ =>
          have hρ : Matches (K.adjoin O D) (.env ρ) (.env ρ.erase) := parts.head
          exact .delayed (.inr ⟨h c ρ e .here, rfl, rfl, rfl⟩) hρ
            (.refl hK.refl e (hρ.pairing hK'.binders hK'.whole))
termination_by sizeOf p
decreasing_by exact Piece.sizeOf_parts hq

theorem known (h : p.CitesOnly O D) : Matches (.among O D) p p.erase :=
  h.matched Correspondence.blank_exact

/-- Code in an environment whose cells are known corresponds to itself. -/
theorem code {ρ : Env} (hρ : (Piece.env ρ).CitesOnly O D) (e : Expr) :
    (Correspondence.among O D).Code ((Correspondence.among O D).pairing ρ ρ.erase) e e := by
  have hK := Correspondence.among_exact O D
  have env : Matches (.among O D) (.env ρ) (.env ρ.erase) := hρ.known
  exact .refl hK.refl e (env.pairing hK.binders hK.whole)

end Piece.CitesOnly

/-! ## Sets of cells that nothing leads out of -/

theorem Session.result?_fill_of_ne {s : Session} {c d : Nat} (hcd : c ≠ d) (v : Value) :
    (s.fill d v).result? c = s.result? c :=
  congrArg Option.join (Session.fill_cell hcd v)

/-- From a cell in `D` only cells in `D` can be reached, through its origin and through its result. -/
structure Shut (O : Origins) (s : Session) (D : Set Nat) : Prop where
  allocated : ∀ c ∈ D, c < O.length
  origin : ∀ c ∈ D, ∀ ρ e, O[c]? = some (ρ, e) → (Piece.env ρ).CitesOnly O D
  result : ∀ c ∈ D, ∀ v, s.result? c = some v → (Piece.value v).CitesOnly O D

namespace Shut

variable {O O' : Origins} {s s' : Session} {D D' : Set Nat}

theorem inter (h : Shut O s D) (h' : Shut O s D') : Shut O s (D ∩ D') where
  allocated c hc := h.allocated c hc.1
  origin c hc ρ e ho := (h.origin c hc.1 ρ e ho).inter (h'.origin c hc.2 ρ e ho)
  result c hc v hv := (h.result c hc.1 v hv).inter (h'.result c hc.2 v hv)

/-- A set stays shut if other cells are allocated and filled. -/
theorem extend (h : Shut O s D) (hO : O <+: O') (same : ∀ c ∈ D, s'.result? c = s.result? c) :
    Shut O' s' D where
  allocated c hc := Nat.lt_of_lt_of_le (h.allocated c hc) hO.length_le
  origin c hc ρ e ho :=
    (h.origin c hc ρ e (Origins.lookup_of_lt hO (h.allocated c hc) ho)).extend hO
  result c hc v hv := (h.result c hc v (same c hc ▸ hv)).extend hO

/-- A set that was shut may join one that is, if only cells that are in both have been filled. -/
theorem union (h : Shut O s D) (h' : Shut O' s' D') (hO : O <+: O')
    (same : ∀ c ∈ D, c ∉ D' → s'.result? c = s.result? c) : Shut O' s' (D ∪ D') where
  allocated := by
    rintro c (hc | hc)
    · exact Nat.lt_of_lt_of_le (h.allocated c hc) hO.length_le
    · exact h'.allocated c hc
  origin := by
    rintro c (hc | hc) ρ e ho
    · have ho := Origins.lookup_of_lt hO (h.allocated c hc) ho
      exact ((h.origin c hc ρ e ho).extend hO).subset Set.subset_union_left
    · exact (h'.origin c hc ρ e ho).subset Set.subset_union_right
  result c hc v hv := by
    by_cases hc' : c ∈ D'
    · exact (h'.result c hc' v hv).subset Set.subset_union_right
    · have hc := hc.resolve_right hc'
      rw [same c hc hc'] at hv
      exact ((h.result c hc v hv).extend hO).subset Set.subset_union_left

/-- An empty cell may be added if its origin leads only to cells that are there already. -/
theorem insert (h : Shut O s D) {c : Nat} {ρ : Env} {e : Expr} (ho : O[c]? = some (ρ, e))
    (hρ : (Piece.env ρ).CitesOnly O D) (hc : s.result? c = none) : Shut O s (insert c D) where
  allocated := by
    rintro d (rfl | hd)
    · exact (List.getElem?_eq_some_iff.1 ho).1
    · exact h.allocated d hd
  origin := by
    rintro d (rfl | hd) σ f hd'
    · cases ho.symm.trans hd'
      exact hρ.subset (Set.subset_insert d D)
    · exact (h.origin d hd σ f hd').subset (Set.subset_insert c D)
  result := by
    rintro d (rfl | hd) v hv
    · cases hc.symm.trans hv
    · exact (h.result d hd v hv).subset (Set.subset_insert c D)

theorem record (h : Shut O s D) (event : Event) : Shut O (s.record event) D :=
  ⟨h.allocated, h.origin, h.result⟩

/-- A set stays shut if one of its cells is filled from inside. -/
theorem fill (h : Shut O s D) {c : Nat} {v : Value} (hv : (Piece.value v).CitesOnly O D) :
    Shut O (s.fill c v) D where
  allocated := h.allocated
  origin := h.origin
  result d hd w hw := by
    rcases Session.result?_fill hw with hw | ⟨rfl, rfl⟩
    · exact h.result d hd w hw
    · exact hv

end Shut

/-- Origins that explain a session: each cell has one, results are forms, nothing leads out of the session,
and nothing leads from the origin of a cell back to the cell. -/
structure Accounts (O : Origins) (s : Session) : Prop where
  size : O.length = s.cells.size
  forced : ∀ c v, s.result? c = some v → v.isDelayed = false
  shut : Shut O s O.all
  ground : ∀ c ρ e, O[c]? = some (ρ, e) →
    ∃ D, Shut O s D ∧ c ∉ D ∧ (Piece.env ρ).CitesOnly O D

namespace Accounts

variable {O : Origins} {s : Session} {D : Set Nat}

theorem empty : Accounts [] .empty where
  size := rfl
  forced c v h := by simp [Session.result?, Session.empty] at h
  shut := by constructor <;> simp [Origins.all]
  ground := by simp

theorem record (h : Accounts O s) (event : Event) : Accounts O (s.record event) :=
  ⟨h.size, h.forced, h.shut.record event, fun c ρ e ho =>
    let ⟨D, hD, rest⟩ := h.ground c ρ e ho
    ⟨D, hD.record event, rest⟩⟩

theorem lt_of_result (h : Accounts O s) {c : Nat} {v : Value} (hv : s.result? c = some v) :
    c < O.length := by
  by_contra outside
  rw [h.size, Nat.not_lt] at outside
  simp [Session.result?, Array.getElem?_eq_none outside] at hv

theorem result_new (h : Accounts O s) : s.allocate.result? O.length = none := by
  rw [s.allocate_result?, h.size]
  simp [Session.result?]

/-- The origin of a new cell is older than the cell. -/
theorem allocate (h : Accounts O s) (hD : Shut O s D) {ρ : Env} (hρ : (Piece.env ρ).CitesOnly O D)
    (e : Expr) : Accounts (O ++ [(ρ, e)]) s.allocate := by
  have hO : O <+: O ++ [(ρ, e)] := List.prefix_append O _
  have still {G : Set Nat} (hG : Shut O s G) : Shut (O ++ [(ρ, e)]) s.allocate G :=
    hG.extend hO fun d _ => s.allocate_result? d
  constructor
  case size => rw [s.size_allocate, List.length_append, h.size, List.length_singleton]
  case forced => exact fun c v hv => h.forced c v (Session.result?_allocate hv)
  case shut =>
    have all : Origins.all (O ++ [(ρ, e)]) = insert O.length O.all := by
      ext c
      simp only [Origins.all, List.length_append, List.length_singleton, Set.mem_ofPred_eq,
        Set.mem_insert_iff]
      omega
    rw [all]
    exact (still h.shut).insert List.getElem?_concat_length ((hρ.extend hO).subset hD.allocated)
      h.result_new
  case ground =>
    intro c σ f ho
    rcases Origins.lookup_concat ho with ho | ⟨rfl, new⟩
    · obtain ⟨G, hG, hc, hσ⟩ := h.ground c σ f ho
      exact ⟨G, still hG, hc, hσ.extend hO⟩
    · cases new
      have out : O.length ∉ D := fun hc => (hD.allocated _ hc).false
      exact ⟨D, still hD, out, hρ.extend hO⟩

/-- A cell is filled with a form that does not lead back to the cell. -/
theorem fill (h : Accounts O s) (hD : Shut O s D) {c : Nat} (hc : c ∉ D) {v : Value}
    (hv : (Piece.value v).CitesOnly O D) (form : v.isDelayed = false) : Accounts O (s.fill c v) where
  size := by rw [h.size, s.size_fill]
  forced d w hw := by
    rcases Session.result?_fill hw with hw | ⟨rfl, rfl⟩
    · exact h.forced d w hw
    · exact form
  shut := h.shut.fill (hv.subset hD.allocated)
  ground d ρ e ho := by
    obtain ⟨G, hG, hd, hρ⟩ := h.ground d ρ e ho
    by_cases inside : d ∈ D
    · -- From `d` only `D` is reached, and the cell that is filled is not there.
      have still : Shut O (s.fill c v) (G ∩ D) := by
        refine (hG.inter hD).extend (List.prefix_refl O) fun b hb => ?_
        have hbc : b ≠ c := fun heq => hc (heq ▸ hb.2)
        exact Session.result?_fill_of_ne hbc v
      exact ⟨G ∩ D, still, fun hd' => hd hd'.1, hρ.inter (hD.origin d inside ρ e ho)⟩
    · -- Whatever the new result leads to is in `D`, and `d` is not there.
      have both : Shut O s (G ∪ D) := hG.union hD (List.prefix_refl O) fun _ _ _ => rfl
      exact ⟨G ∪ D, both.fill (hv.subset Set.subset_union_right), fun hd' => hd'.elim hd inside,
        hρ.subset Set.subset_union_left⟩

end Accounts

/-! ## What a computation does -/

/-- A correspondence that knows cells by their origins, and every cell to which a known one leads. -/
structure Knows (O : Origins) (K : Correspondence) (s : Session) : Prop where
  accounts : Accounts O s
  exact : K.Exact
  origin : ∀ {c ρ e c' ρ' e'}, K.cells c ρ e c' ρ' e' → O[c]? = some (ρ, e)
  shut : Shut O s K.domain

/-- What a computation may do with a session, given the cells it knows: it allocates cells and gets to know
them, fills cells it knows, and empties none. -/
structure Moves (O : Origins) (K : Correspondence) (s : Session) (O' : Origins) (K' : Correspondence)
    (s' : Session) : Prop where
  le : K.Le K'
  knows : Knows O' K' s'
  origins : O <+: O'
  kept : ∀ c v, s.result? c = some v → s'.result? c = some v
  frame : ∀ c < O.length, c ∉ K.domain → s'.result? c = s.result? c
  adds : ∀ c ∈ K'.domain, c ∈ K.domain ∨ O.length ≤ c

namespace Knows

variable {O : Origins} {K : Correspondence} {s : Session} {D : Set Nat}

/-- What matches something mentions only cells that are known. -/
theorem cites (h : Knows O K s) {p q : Piece} (hp : Matches K p q) : p.CitesOnly O K.domain := by
  intro c ρ e hc
  obtain ⟨c', ρ', e', hc⟩ := hp.mentions h.exact.whole hc
  exact ⟨⟨ρ, e, c', ρ', e', hc⟩, h.origin hc⟩

theorem cites_all (h : Knows O K s) {p q : Piece} (hp : Matches K p q) : p.CitesOnly O O.all :=
  (h.cites hp).subset h.shut.allocated

/-- Any set that is shut can be all that is known. -/
theorem among (h : Accounts O s) (hD : Shut O s D) : Knows O (.among O D) s where
  accounts := h
  exact := Correspondence.among_exact O D
  origin := by
    rintro c ρ e c' ρ' e' (hc | ⟨⟨-, ho⟩, -⟩)
    · exact hc.elim
    · exact ho
  shut := by
    rw [Correspondence.domain_among hD.allocated]
    exact hD

theorem bind (h : Knows O K s) (y : Name) : Knows O (K.bind y y) s :=
  ⟨h.accounts, ⟨h.exact.toNear.bind y, h.exact.refl⟩, h.origin, h.shut⟩

end Knows

namespace Moves

variable {O O' O'' : Origins} {K K' K'' : Correspondence} {s s' s'' : Session}

theorem refl (h : Knows O K s) : Moves O K s O K s :=
  ⟨.refl K, h, List.prefix_refl O, fun _ _ hv => hv, fun _ _ _ => rfl, fun _ hc => .inl hc⟩

theorem trans (h : Moves O K s O' K' s') (h' : Moves O' K' s' O'' K'' s'') :
    Moves O K s O'' K'' s'' where
  le := h.le.trans h'.le
  knows := h'.knows
  origins := h.origins.trans h'.origins
  kept c v hv := h'.kept c v (h.kept c v hv)
  frame c hc out := by
    have out' : c ∉ K'.domain := fun hc' => (h.adds c hc').elim out (Nat.not_le_of_lt hc)
    rw [h'.frame c (Nat.lt_of_lt_of_le hc h.origins.length_le) out', h.frame c hc out]
  adds c hc := by
    rcases h'.adds c hc with hc | hc
    · exact h.adds c hc
    · exact .inr (h.origins.length_le.trans hc)

theorem suspend (h : Knows O K s) {ρ ρ' : Env} (hρ : Matches K (.env ρ) (.env ρ')) (e e' : Expr) :
    Moves O K s (O ++ [(ρ, e)]) (K.suspend s.cells.size ρ e 0 ρ' e') s.allocate := by
  have hO : O <+: O ++ [(ρ, e)] := List.prefix_append O _
  rw [← h.accounts.size]
  constructor
  case le => exact K.le_suspend _ _ _ _ _ _
  case knows =>
    refine ⟨h.accounts.allocate h.shut (h.cites hρ) e, h.exact.suspend _ _ _ _ _ _, ?_, ?_⟩
    · rintro c σ f c' σ' f' (hc | ⟨rfl, rfl, rfl, -⟩)
      · exact Origins.lookup_mono hO (h.origin hc)
      · exact List.getElem?_concat_length
    · rw [K.domain_suspend]
      exact (h.shut.extend hO fun d _ => s.allocate_result? d).insert List.getElem?_concat_length
        ((h.cites hρ).extend hO) h.accounts.result_new
  case origins => exact hO
  case kept =>
    intro c v hv
    rw [s.allocate_result?, hv]
  case frame => exact fun c _ _ => s.allocate_result? c
  case adds =>
    rw [K.domain_suspend]
    rintro c (rfl | hc)
    · exact .inr (Nat.le_refl _)
    · exact .inl hc

theorem widen {J J' : Correspondence} (m : Moves O J s O' J' s') (h : Knows O K s)
    (sub : J.domain ⊆ K.domain) : Moves O K s O' (K.adjoin O' J'.domain) s' := by
  have domain : (K.adjoin O' J'.domain).domain = K.domain ∪ J'.domain :=
    K.domain_adjoin m.knows.shut.allocated
  constructor
  case le => exact K.le_adjoin O' J'.domain
  case knows =>
    refine ⟨m.knows.accounts, h.exact.adjoin O' J'.domain, ?_, ?_⟩
    · rintro c ρ e c' ρ' e' (hc | ⟨⟨-, ho⟩, -⟩)
      · exact Origins.lookup_mono m.origins (h.origin hc)
      · exact ho
    · rw [domain]
      refine h.shut.union m.knows.shut m.origins fun c hc out => m.frame c (h.shut.allocated c hc) ?_
      rintro ⟨ρ, e, c', ρ', e', hc⟩
      exact out ⟨ρ, e, c', ρ', e', m.le.cells _ _ _ _ _ _ hc⟩
  case origins => exact m.origins
  case kept => exact m.kept
  case frame => exact fun c hc out => m.frame c hc fun hc' => out (sub hc')
  case adds =>
    rw [domain]
    rintro c (hc | hc)
    · exact .inl hc
    · exact (m.adds c hc).imp_left fun hc' => sub hc'

/-- At the end a known cell is filled with a form that does not lead back to it. -/
theorem fill (m : Moves O K s O' K' s') {c : Nat} (hc : c ∈ K.domain) {D : Set Nat} (hD : Shut O' s' D)
    (out : c ∉ D) (sub : D ⊆ K'.domain) {v : Value} (hv : (Piece.value v).CitesOnly O' D)
    (form : v.isDelayed = false) : Moves O K s O' K' (s'.fill c v) where
  le := m.le
  knows := ⟨m.knows.accounts.fill hD out hv form, m.knows.exact, m.knows.origin,
    m.knows.shut.fill (hv.subset sub)⟩
  origins := m.origins
  kept d w hw := Session.fill_result? (m.kept d w hw) c v
  frame d lt hd := by
    have hdc : d ≠ c := fun heq => hd (heq ▸ hc)
    rw [Session.result?_fill_of_ne hdc, m.frame d lt hd]
  adds := m.adds

theorem record (h : Knows O K s) (event : Event) : Moves O K s O K (s.record event) :=
  { Moves.refl h with
    knows := ⟨h.accounts.record event, h.exact, h.origin, h.shut.record event⟩ }

end Moves

/-- How a computation ends that begins with what `K` knows. -/
def Arrives {α β : Type} (O : Origins) (K : Correspondence) (s : Session)
    (R : Correspondence → α → β → Prop) : EStateM.Result Stop Session α → Prop
  | .ok a s' => ∃ O' K' b, Moves O K s O' K' s' ∧ R K' a b
  | .error _ s' => ∃ O' K', Moves O K s O' K' s'

namespace Arrives

variable {α β γ δ : Type} {O O' : Origins} {K K' : Correspondence} {s s' : Session}
  {R : Correspondence → α → β → Prop} {S : Correspondence → γ → δ → Prop}

theorem after (m : Moves O K s O' K' s') {x : EStateM.Result Stop Session α}
    (h : Arrives O' K' s' R x) : Arrives O K s R x := by
  match x, h with
  | .ok a _, ⟨O'', K'', b, m', hR⟩ => exact ⟨O'', K'', b, m.trans m', hR⟩
  | .error _ _, ⟨O'', K'', m'⟩ => exact ⟨O'', K'', m.trans m'⟩

theorem bind {x : ByNeed α} {f : α → ByNeed γ} (h : Arrives O K s R (x s))
    (hf : ∀ O' K' s' a b, Moves O K s O' K' s' → R K' a b → Arrives O' K' s' S (f a s')) :
    Arrives O K s S ((x >>= f) s) := by
  simp only [Bind.bind, EStateM.bind]
  revert h
  cases x s with
  | ok a s' =>
      rintro ⟨O', K', b, m, hR⟩
      exact after m (hf O' K' s' a b m hR)
  | error _ _ => exact id

theorem imp {R' : Correspondence → α → β → Prop} {x : EStateM.Result Stop Session α}
    (h : Arrives O K s R x) (hR : ∀ K' a b, R K' a b → R' K' a b) : Arrives O K s R' x := by
  match x, h with
  | .ok a _, ⟨O', K', b, m, hab⟩ => exact ⟨O', K', b, m, hR K' a b hab⟩
  | .error _ _, h => exact h

end Arrives

/-- Computations that get only at cells they know. The right side does not matter. -/
def confined : Simulation Nat ByNeed ByName where
  rel K R x _ := ∀ O s, Knows O K s → Arrives O K s R (x s)
  pure := fun h O s k => ⟨O, _, _, .refl k, h⟩
  bind := fun h hf O s k => (h O s k).bind fun O' K' s' a b m hab => hf K' a b m.le hab O' s' m.knows
  fail := fun _ _ O s k => ⟨O, _, .refl k⟩
  suspend := by
    intro K ρ ρ' e e' hρ he O s k
    have m := Moves.suspend k hρ e e'
    exact ⟨_, _, _, m, .delayed (.inr ⟨rfl, rfl, rfl, rfl, rfl, rfl⟩) (hρ.mono m.le) (he.weaken hρ m.le)⟩
  leftFails := fun _ _ ha O s k => (k.exact.bare ha).elim
  rightAlone := fun ha _ O s k => (k.exact.bare ha).elim

/-! ## Forcing -/

/-- A value that matches and is a form. -/
def FormBoth (K : Correspondence) (v v' : Value) : Prop :=
  Both K v v' ∧ v.isDelayed = false

/-- Requests nested at most `n` deep get only at cells that are known, and forcing gives forms. -/
structure ConfinedAt (n : Nat) : Prop where
  asks : confined.Asks (run n) fun i => run i
  forces : ∀ {K : Correspondence} {v v' : Value}, Both K v v' →
    confined.rel K FormBoth (run n (.force v)) fun i => run i (.force v')

section Forcing

variable {n : Nat} {O : Origins} {s : Session} {D : Set Nat} {c : Nat} {ρ : Env} {e : Expr}

/-- The value of an origin is found among the cells to which it leads. -/
theorem ConfinedAt.find (h : ConfinedAt n) (acc : Accounts O s) (hD : Shut O s D)
    (hρ : (Piece.env ρ).CitesOnly O D) (e : Expr) :
    Arrives O (.among O D) s FormBoth
      ((run n (.eval ρ e) >>= fun v => run n (.force v) : ByNeed Value) s) := by
  have env : Matches (.among O D) (.env ρ) (.env ρ.erase) := hρ.known
  exact confined.bind (h.asks (.eval env (hρ.code e))) (fun _ _ _ _ hv => h.forces hv) O s (.among acc hD)

/-- Forcing fills a cell that is known, with the help of cells that are known. -/
theorem ConfinedAt.force_delayed (h : ConfinedAt n) {K : Correspondence} (k : Knows O K s)
    (hc : c ∈ K.domain) (ho : O[c]? = some (ρ, e)) :
    Arrives O K s FormBoth ((Eval.force (run n) (.delayed c ρ e) : ByNeed Value) s) := by
  cases hs : s.result? c with
  | some v =>
      have domain := Correspondence.domain_among k.shut.allocated
      have m := (Moves.refl (.among k.accounts k.shut)).widen k domain.subset
      rw [domain] at m
      rw [force_full hs]
      exact ⟨O, _, v.erase, m, (k.shut.result c hc v hs).matched k.exact, k.accounts.forced c v hs⟩
  | none =>
      obtain ⟨G, hG, out, hρ⟩ := k.accounts.ground c ρ e ho
      -- What the origin leads to is known, and the cell itself is not needed to find its value.
      have hD : Shut O s (G ∩ K.domain) := hG.inter k.shut
      have domain := Correspondence.domain_among hD.allocated
      have sub : (Correspondence.among O (G ∩ K.domain)).domain ⊆ K.domain := by
        rw [domain]
        exact Set.inter_subset_right
      have found := h.find k.accounts hD (hρ.inter (k.shut.origin c hc ρ e ho)) e
      rw [force_empty hs]
      revert found
      cases (run n (.eval ρ e) >>= fun v => run n (.force v) : ByNeed Value) s with
      | error reason s' =>
          rintro ⟨O', J, m⟩
          exact ⟨O', _, m.widen k sub⟩
      | ok v s' =>
          rintro ⟨O', J, v', m, hv, form⟩
          have cites := m.knows.cites hv
          have out' : c ∉ J.domain := by
            intro hc'
            rcases m.adds c hc' with hc' | new
            · rw [domain] at hc'
              exact out hc'.1
            · exact Nat.not_le_of_lt (k.shut.allocated c hc) new
          have sub' : J.domain ⊆ (K.adjoin O' J.domain).domain := by
            rw [K.domain_adjoin m.knows.shut.allocated]
            exact Set.subset_union_right
          exact ⟨O', _, v.erase, (m.widen k sub).fill hc m.knows.shut out' sub' cites form,
            cites.matched k.exact, form⟩

theorem ConfinedAt.force (h : ConfinedAt n) {K : Correspondence} {v v' : Value} (hv : Both K v v') :
    confined.rel K FormBoth (Eval.force (run n) v) fun i => Eval.force (run i) v' := by
  cases hv with
  | delayed hc _ _ => exact fun O s k => h.force_delayed k ⟨_, _, _, _, _, hc⟩ (k.origin hc)
  | const c => exact confined.pure ⟨.const c, rfl⟩
  | quote a => exact confined.pure ⟨.quote a, rfl⟩
  | unary u hv => exact confined.pure ⟨.unary u hv, rfl⟩
  | binary b h₁ h₂ => exact confined.pure ⟨.binary b h₁ h₂, rfl⟩
  | equal ht hl hr => exact confined.pure ⟨.equal ht hl hr, rfl⟩
  | quant q hx hd hr => exact confined.pure ⟨.quant q hx hd hr, rfl⟩
  | lam hx hb => exact confined.pure ⟨.lam hx hb, rfl⟩
  | neutral ht he => exact confined.pure ⟨.neutral ht he, rfl⟩

theorem confined_run (n : Nat) : ConfinedAt n := by
  induction n with
  | zero => exact ⟨fun K r r' _ O s k => ⟨O, K, .refl k⟩, fun _ O s k => ⟨O, _, .refl k⟩⟩
  | succ n ih =>
      refine ⟨fun K r r' hr O s k => ?_, fun hv => ih.force hv⟩
      have forcing : ∀ {K : Correspondence} {v v' : Value}, Both K v v' →
          confined.rel K Both (Eval.force (run n) v) fun i => Eval.force (run i) v' :=
        fun hv O s k => (ih.force hv O s k).imp fun _ _ _ hvw => hvw.1
      exact ih.asks.step forcing (fun ha => (k.exact.bare ha).elim) hr O s k

/-- A force that fails leaves the cell empty, wherever it stops. -/
theorem Accounts.force_error (acc : Accounts O s) (ho : O[c]? = some (ρ, e)) {reason : Stop}
    {s' : Session} (h : ((Value.delayed c ρ e).force (n + 1) : ByNeed Value) s = .error reason s') :
    s'.cells[c]? = some none := by
  change (Eval.force (run n) (.delayed c ρ e) : ByNeed Value) s = _ at h
  cases hs : s.result? c with
  | some v =>
      rw [force_full hs] at h
      cases h
  | none =>
      obtain ⟨D, hD, out, hρ⟩ := acc.ground c ρ e ho
      have found := (confined_run n).find acc hD hρ e
      rw [force_empty hs] at h
      revert found h
      cases (run n (.eval ρ e) >>= fun v => run n (.force v) : ByNeed Value) s with
      | ok v s₁ =>
          intro h
          cases h
      | error reason₁ s₁ =>
          rintro h ⟨O', J, m⟩
          cases h
          have lt : c < O.length := (List.getElem?_eq_some_iff.1 ho).1
          have same : s'.result? c = none := by
            rw [m.frame c lt (by rwa [Correspondence.domain_among hD.allocated]), hs]
          have size : c < s'.cells.size := by
            rw [← m.knows.accounts.size]
            exact Nat.lt_of_lt_of_le lt m.origins.length_le
          simp only [Session.result?, Array.getElem?_eq_getElem size, Option.join_some] at same ⊢
          rw [same]

end Forcing

/-! ## Whatever is done in a session -/

/-- Reading back and checking get only at cells that are known, like evaluation. -/
def Tracking.confined : Tracking ByNeed where
  toNaming := .keeping none fun _ => True
  rel _ _ _ := TypeKernel.confined.rel
  pure := TypeKernel.confined.pure
  bind h hf O s k := (h O s k).bind fun O' K' s' a b m hab => hf K' a b (.untracked rfl m.le fun x x' hx =>
    (k.exact.names x x').2 ((m.knows.exact.names x x').1 hx)) hab O' s' m.knows
  fail := TypeKernel.confined.fail
  suspend := TypeKernel.confined.suspend
  leftFails := TypeKernel.confined.leftFails
  rightAlone := TypeKernel.confined.rightAlone
  ask hr := (confined_run _).asks hr
  lower h := h _ (.untracked rfl (.refl _) fun _ _ hx => hx)
  fresh := by
    intro n b K X X' x x' _ hX hx O s k
    cases hX trivial
    cases k.exact.binders _ _ hx
    cases hy : freshAmong X x with
    | error e => exact ⟨O, _, .refl k⟩
    | ok y =>
        have chosen : (Naming.keeping none fun _ => True).Picked b X X y y :=
          ⟨⟨freshAmong_notMem hy, freshAmong_notMem hy, fun _ => rfl⟩, .untracked rfl⟩
        exact TypeKernel.confined.pure chosen O s k
  scope := by
    intro n b b' α β K R x z y y' hy h O s k
    cases hy trivial
    have m : Moves O K s O (K.bind y y) s := { Moves.refl k with le := K.le_bind y y, knows := k.bind y }
    exact .after m (h O s m.knows)
  report := fun event _ O s k => ⟨O, _, (), .record k event, trivial⟩
  reject := fun _ O s k => ⟨O, _, .refl k⟩
  exhausted := fun _ O s k => ⟨O, _, .refl k⟩
  succ := fun h _ => h

/-- Pieces that match something. -/
def AllMatched (K : Correspondence) (ps : List Piece) (_ : Unit) : Prop :=
  ∀ p ∈ ps, ∃ q, Matches K p q

/-- Whatever is done with pieces whose cells are known, the cells of what it returns are known. -/
theorem Act.arrives {O : Origins} {K : Correspondence} {s : Session} (k : Knows O K s) {act : Act}
    (h : Held K act.pieces) : Arrives O K s AllMatched (act.perform s) := by
  have none {O' K' s'} (m : Moves O K s O' K' s') :
      Arrives O' K' s' AllMatched ((pure [] : ByNeed (List Piece)) s') :=
    ⟨O', K', (), .refl m.knows, List.forall_mem_nil _⟩
  have one {O' K' s'} {v v' : Value} (m : Moves O K s O' K' s') (hv : Both K' v v') :
      Arrives O' K' s' AllMatched ((pure [.value v] : ByNeed (List Piece)) s') :=
    ⟨O', K', (), .refl m.knows, List.forall_mem_singleton.2 ⟨_, hv⟩⟩
  have judges (n : Nat) (e : Expr) : Tracking.confined.Judges n e.cost Eq (judge n e) (fun i => judge i e) :=
    Tracking.judge n (.refl (fun _ => ⟨fun _ => rfl, trivial⟩) e fun _ => rfl) fun _ _ _ h => h
  have meets {Γ : Context} {n b : Nat} (hΓ : Γ.Matches K Γ.erase) :
      Tracking.confined.Meets n b K Eq Γ Γ.erase := { Tracking.byNeed_meets k.exact hΓ with }
  cases act with
  | suspend ρ e =>
      have hρ : Matches K (.env ρ) (.env ρ.erase) := h.head
      have hV := hρ.pairing k.exact.binders k.exact.whole
      have he := Resembles.refl (P := K.annotated) k.exact.refl e hV
      exact (confined.suspend hρ he O s k).bind fun _ _ _ _ _ m hv => one m hv
  | report event => exact Arrives.after (.record k event) (none (.record k event))
  | answer n r =>
      exact ((confined_run n).asks (h.request k.exact) O s k).bind fun _ _ _ _ _ m hv => one m hv
  | read n Γ r =>
      have frame : Tracking.confined.Frame n 0 K Eq Γ Γ := { Tracking.byNeed_frame k.exact rfl with }
      exact (Tracking.confined.readings n frame h.reading O s k).bind fun _ _ _ _ _ m _ => none m
  | synth n Γ e r =>
      exact ((judges n e).synth (b := 0) (meets h.context) (fun _ _ => congrArg r.rename) O s k).bind
        fun _ _ _ _ _ m hp => one m hp.2
  | check n Γ e A r =>
      exact ((judges n e).check (b := 0) (meets h.tail.context) (fun _ _ => congrArg r.rename) h.head O s k).bind
        fun _ _ _ _ _ m _ => none m
  | isType n Γ e r =>
      exact ((judges n e).isType (b := 0) (meets h.context) (fun _ _ => congrArg r.rename) O s k).bind
        fun _ _ _ _ _ m _ => none m

/-- All of a session is known. -/
theorem Accounts.knows {O : Origins} {s : Session} (h : Accounts O s) : Knows O (.among O O.all) s :=
  .among h h.shut

theorem Held.of_cites {O : Origins} {D : Set Nat} {ps : List Piece} (h : ∀ p ∈ ps, p.CitesOnly O D) :
    Held (.among O D) ps :=
  fun p hp => (h p hp).known

/-- Along every history there are origins that explain the session and whatever is at hand. -/
theorem History.accounts {s₀ s : Session} {ps₀ ps : List Piece} (h : History s₀ ps₀ s ps) {O : Origins}
    (acc : Accounts O s₀) (cites : ∀ p ∈ ps₀, p.CitesOnly O O.all) :
    ∃ O', Accounts O' s ∧ ∀ p ∈ ps, p.CitesOnly O' O'.all := by
  induction h with
  | start => exact ⟨O, acc, cites⟩
  | build _ hp parts ih =>
      obtain ⟨O', acc', cites'⟩ := ih
      have built := Piece.CitesOnly.build hp fun q hq => cites' q (parts hq)
      exact ⟨O', acc', List.forall_mem_cons.2 ⟨built, cites'⟩⟩
  | part _ hp hq ih =>
      obtain ⟨O', acc', cites'⟩ := ih
      exact ⟨O', acc', List.forall_mem_cons.2 ⟨(cites' _ hp).part hq, cites'⟩⟩
  | done _ ha hqs ih =>
      obtain ⟨O', acc', cites'⟩ := ih
      have arrives := Act.arrives acc'.knows (.of_cites fun p hp => cites' p (ha hp))
      rw [hqs] at arrives
      obtain ⟨O'', K, _, m, matched⟩ := arrives
      refine ⟨O'', m.knows.accounts, List.forall_mem_append.2 ⟨fun p hp => ?_, fun p hp => ?_⟩⟩
      · obtain ⟨q, hq⟩ := matched p hp
        exact m.knows.cites_all hq
      · exact (cites' p hp).later m.origins
  | stopped _ ha hs ih =>
      obtain ⟨O', acc', cites'⟩ := ih
      have arrives := Act.arrives acc'.knows (.of_cites fun p hp => cites' p (ha hp))
      rw [hs] at arrives
      obtain ⟨O'', K, m⟩ := arrives
      exact ⟨O'', m.knows.accounts, fun p hp => (cites' p hp).later m.origins⟩

end TypeKernel
