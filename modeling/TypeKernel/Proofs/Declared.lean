/-
# TypeKernel.Proofs.Declared — what declarations do to the context

A top level has one context, and only accepted claims and definitions change it: a claim is added in
front, and a definition is added in front and takes the place of the claim it fulfils. Nothing else is
lost, renamed or moved, whatever is asked of the top level and however it ends.

`declared_of_process` says once what processing a declaration can do to a context. `Context.Keeps` is what
follows for all bindings together, first for one demand (`Toplevel.keeps_serve`) and then for every sequence
of them (`Toplevel.keeps_serveAll`).
-/
import TypeKernel.Proofs.Established
import TypeKernel.Proofs.Returns
import TypeKernel.Toplevel

namespace TypeKernel

set_option autoImplicit false

open Machine

/-! ## One declaration -/

/-- The contexts that a declaration may lead to. A definition of a claimed name has the claimed type. -/
inductive Context.Declared (Γ : Context) : Declaration → Context → Prop
  | claim {x type T} (unbound : Γ.lookup x = none) : Γ.Declared (.claim x type) (Γ.bindClaim x T)
  | define {x e T v} (unbound : Γ.lookup x = none) :
      Γ.Declared (.define x e) (Γ.bindDefinition x T v)
  | fulfil {x e T v} (claimed : Γ.lookup x = some (.claim T)) :
      Γ.Declared (.define x e) (Γ.bindDefinition x T v)
  | checkSame {type left right} : Γ.Declared (.checkSame type left right) Γ
  | normalize {e} : Γ.Declared (.normalize e) Γ

section Process

variable {m : Type → Type} [Machine m] [Returning m] {n : Nat} {Γ Γ' : Context}

theorem declared_of_claim {x : Name} {type : Expr} (h : Returns (claim n Γ x type : m Context) Γ') :
    Γ.Declared (.claim x type) Γ' := by
  unfold claim at h
  split at h
  · exact absurd h Returns.not_reject
  · rename_i unbound
    obtain ⟨core, -, h⟩ := h.bind
    obtain ⟨T, -, h⟩ := h.bind
    obtain ⟨-, -, h⟩ := h.bind
    cases h.pure_eq
    exact .claim (by simpa using unbound)

/-- The type of a definition is that of its claim, if there is one; a name in use is not defined. -/
theorem lookup_of_defining {x : Name} {e core : Expr} {T : Value}
    (h : Returns (defining n Γ x e : m (Expr × Value)) (core, T)) :
    Γ.lookup x = none ∨ Γ.lookup x = some (.claim T) := by
  unfold defining at h
  split at h
  · rename_i unbound
    exact .inl unbound
  · rename_i claimed
    obtain ⟨_, -, h⟩ := h.bind
    cases h.pure_eq
    exact .inr claimed
  · exact absurd h Returns.not_reject

theorem declared_of_define {x : Name} {e core : Expr}
    (h : Returns (define n Γ x e : m (Context × Expr)) (Γ', core)) : Γ.Declared (.define x e) Γ' := by
  obtain ⟨⟨_, T⟩, typed, h⟩ := h.bind
  obtain ⟨v, -, h⟩ := h.bind
  obtain ⟨-, -, h⟩ := h.bind
  cases h.pure_eq
  rcases lookup_of_defining typed with unbound | claimed
  · exact .define unbound
  · exact .fulfil claimed

theorem declared_of_process {d : Declaration} {result : Option Expr}
    (h : Returns (process n Γ d : m (Context × Option Expr)) (Γ', result)) : Γ.Declared d Γ' := by
  cases d with
  | claim x type =>
      obtain ⟨_, first, last⟩ := h.bind
      cases last.pure_eq
      exact declared_of_claim first
  | define x e =>
      obtain ⟨⟨_, _⟩, first, last⟩ := h.bind
      cases last.pure_eq
      exact declared_of_define first
  | checkSame type left right =>
      obtain ⟨-, -, last⟩ := h.bind
      cases last.pure_eq
      exact .checkSame
  | normalize e =>
      obtain ⟨_, -, last⟩ := h.bind
      cases last.pure_eq
      exact .normalize
  | malformed text => exact absurd h Returns.not_defect

end Process

/-! ## What is kept -/

/-- What a context keeps of an earlier one, up to bindings of the `declared` names: all bindings but the
claims that were fulfilled, in their order. -/
structure Context.Keeps (declared : List Name) (Γ Γ' : Context) : Prop where
  firm : ∀ {x b}, (x, b) ∈ Γ.bindings → b.isClaim = false → (x, b) ∈ Γ'.bindings
  claimed : ∀ {x T}, (x, .claim T) ∈ Γ.bindings →
    (x, .claim T) ∈ Γ'.bindings ∨ ∃ v, (x, .definition T v) ∈ Γ'.bindings
  added : ∀ {x b}, (x, b) ∈ Γ'.bindings → (x, b) ∈ Γ.bindings ∨ x ∈ declared
  order : ∀ {p q}, p ∈ Γ.bindings → p ∈ Γ'.bindings → q ∈ Γ.bindings → q ∈ Γ'.bindings →
    ([p, q].Sublist Γ.bindings ↔ [p, q].Sublist Γ'.bindings)

namespace Context

theorem mem_names {Γ : Context} {x : Name} {b : Binding} (h : (x, b) ∈ Γ.bindings) : x ∈ Γ.names :=
  List.mem_map_of_mem h

/-- If names are distinct, a name has one binding. -/
theorem binding_unique {Γ : Context} (distinct : Γ.names.Nodup) {x : Name} {b c : Binding}
    (hb : (x, b) ∈ Γ.bindings) (hc : (x, c) ∈ Γ.bindings) : b = c :=
  congrArg Prod.snd (List.inj_on_of_nodup_map distinct hb hc rfl)

theorem notMem_names_of_lookup {Γ : Context} {x : Name} (h : Γ.lookup x = none) : x ∉ Γ.names := by
  intro hx
  obtain ⟨⟨_, b⟩, hb, rfl⟩ := List.mem_map.1 hx
  simpa using List.lookup_eq_none_iff.1 h _ hb

theorem mem_bindings_of_lookup {Γ : Context} {x : Name} {b : Binding} (h : Γ.lookup x = some b) :
    (x, b) ∈ Γ.bindings := by
  obtain ⟨l, l', heq, -⟩ := List.lookup_eq_some_iff.1 h
  rw [heq]
  exact List.mem_append_right _ (.head _)

/-- Two entries that pass a filter stand in the same order before and after it. -/
theorem pair_sublist_filter {α : Type} {f : α → Bool} {l : List α} {p q : α} (hp : p ∈ l.filter f)
    (hq : q ∈ l.filter f) : [p, q].Sublist l ↔ [p, q].Sublist (l.filter f) := by
  refine ⟨fun h => ?_, fun h => h.trans List.filter_sublist⟩
  have pass := h.filter f
  simpa [List.of_mem_filter hp, List.of_mem_filter hq] using pass

namespace Keeps

variable {Γ Γ' Γ'' : Context} {declared declared' : List Name}

theorem refl (Γ : Context) : Γ.Keeps [] Γ :=
  ⟨fun h _ => h, .inl, .inl, fun _ _ _ _ => .rfl⟩

/-- What survives to the end was there all the time: a fulfilled claim does not come back. -/
theorem between (h : Γ.Keeps declared Γ') (h' : Γ'.Keeps declared' Γ'') (distinct : Γ''.names.Nodup)
    {p : Name × Binding} (hp : p ∈ Γ.bindings) (hp' : p ∈ Γ''.bindings) : p ∈ Γ'.bindings := by
  obtain ⟨x, b⟩ := p
  cases b with
  | free T => exact h.firm hp rfl
  | definition T v => exact h.firm hp rfl
  | claim T =>
      rcases h.claimed hp with kept | ⟨v, fulfilled⟩
      · exact kept
      · cases binding_unique distinct hp' (h'.firm fulfilled rfl)

theorem trans (h : Γ.Keeps declared Γ') (h' : Γ'.Keeps declared' Γ'') (distinct : Γ''.names.Nodup) :
    Γ.Keeps (declared ++ declared') Γ'' where
  firm hp hb := h'.firm (h.firm hp hb) hb
  claimed hp := by
    rcases h.claimed hp with kept | ⟨v, fulfilled⟩
    · exact h'.claimed kept
    · exact .inr ⟨v, h'.firm fulfilled rfl⟩
  added hp := by
    rcases h'.added hp with hp | new
    · exact (h.added hp).imp_right (List.mem_append_left _)
    · exact .inr (List.mem_append_right _ new)
  order hp hp'' hq hq'' := by
    have hp' := h.between h' distinct hp hp''
    have hq' := h.between h' distinct hq hq''
    exact (h.order hp hp' hq hq').trans (h'.order hp' hp'' hq' hq'')

theorem cons {x : Name} (hx : x ∉ Γ.names) (b : Binding) : Γ.Keeps [x] ⟨(x, b) :: Γ.bindings⟩ where
  firm hp _ := .tail _ hp
  claimed hp := .inl (.tail _ hp)
  added hp := by
    rcases List.mem_cons.1 hp with heq | hp
    · cases heq
      exact .inr (.head _)
    · exact .inl hp
  order {p q} hp _ _ _ := by
    have other : p ≠ (x, b) := by
      rintro rfl
      exact hx (mem_names hp)
    exact ⟨fun h => h.cons _, fun h => (List.sublist_cons_iff.1 h).elim id
      fun ⟨_, heq, _⟩ => (other (List.cons.inj heq).1).elim⟩

theorem fulfil (distinct : Γ.names.Nodup) {x : Name} {T : Value}
    (claimed : (x, .claim T) ∈ Γ.bindings) (v : Value) : Γ.Keeps [x] (Γ.bindDefinition x T v) where
  firm hp hb := .tail _ (List.mem_filter.2 ⟨hp, by simp [hb]⟩)
  claimed {y S} hp := by
    by_cases hy : y = x
    · subst hy
      cases binding_unique distinct hp claimed
      exact .inr ⟨v, .head _⟩
    · exact .inl (.tail _ (List.mem_filter.2 ⟨hp, by simp [hy]⟩))
  added hp := by
    rcases List.mem_cons.1 hp with heq | hp
    · cases heq
      exact .inr (.head _)
    · exact .inl (List.mem_of_mem_filter hp)
  order {p q} hp hp' hq hq' := by
    -- The definition is new, so whatever survives is in the filtered rest.
    have new : (x, .definition T v) ∉ Γ.bindings := fun h => nomatch binding_unique distinct h claimed
    have rest := fun r (hr : r ∈ Γ.bindings) (hr' : r ∈ (Γ.bindDefinition x T v).bindings) =>
      (List.mem_cons.1 hr').resolve_left fun heq => new (heq ▸ hr)
    rw [pair_sublist_filter (rest p hp hp') (rest q hq hq')]
    refine ⟨fun h => h.cons _, fun h => ?_⟩
    rcases List.sublist_cons_iff.1 h with h | ⟨_, heq, _⟩
    · exact h
    · exact (new ((List.cons.inj heq).1 ▸ hp)).elim

end Keeps

theorem nodup_bindDefinition {Γ : Context} (distinct : Γ.names.Nodup) {x : Name} {T : Value}
    (claimed : (x, .claim T) ∈ Γ.bindings) (S v : Value) : (Γ.bindDefinition x S v).names.Nodup := by
  refine List.nodup_cons.2 ⟨fun hx => ?_, distinct.sublist (List.filter_sublist.map _)⟩
  obtain ⟨⟨y, b⟩, hb, rfl⟩ := List.mem_map.1 hx
  obtain ⟨hb, passes⟩ := List.mem_filter.1 hb
  cases binding_unique distinct hb claimed
  simp [Binding.isClaim] at passes

end Context

/-- The names that a declaration gives a binding. -/
def Declaration.names : Declaration → List Name
  | .claim x _ | .define x _ => [x]
  | .checkSame _ _ _ | .normalize _ | .malformed _ => []

/-- An accepted declaration keeps the names distinct, and all bindings but a claim that it fulfils. -/
theorem Context.Declared.keeps {Γ Γ' : Context} {d : Declaration} (h : Γ.Declared d Γ')
    (distinct : Γ.names.Nodup) : Γ'.names.Nodup ∧ Γ.Keeps d.names Γ' := by
  cases h with
  | claim unbound =>
      have hx := notMem_names_of_lookup unbound
      exact ⟨distinct.cons hx, .cons hx _⟩
  | define unbound =>
      have hx := notMem_names_of_lookup unbound
      rw [bindDefinition_of_notMem hx]
      exact ⟨distinct.cons hx, .cons hx _⟩
  | fulfil claimed =>
      have hx := mem_bindings_of_lookup claimed
      exact ⟨nodup_bindDefinition distinct hx _ _, .fulfil distinct hx _⟩
  | checkSame => exact ⟨distinct, .refl Γ⟩
  | normalize => exact ⟨distinct, .refl Γ⟩

/-! ## Everything that is asked of a top level -/

/-- What can be asked of a top level. -/
inductive Demand where
  | submit (s : Statement)
  | normType (type : Expr)

namespace Toplevel

/-- The top level after a demand, however it ended, and the names that were declared: that of a claim or
definition which was accepted. -/
def serve (n : Nat) (t : Toplevel) : Demand → List Name × Toplevel
  | .submit s =>
      match t.submit n s with
      | (.ok (.accepted _), t') => (s.declaration.names, t')
      | (_, t') => ([], t')
  | .normType type => ([], (t.normType n type).2)

/-- The top level after several demands, each with its own bound on nested requests. -/
def serveAll (t : Toplevel) : List (Nat × Demand) → List Name × Toplevel
  | [] => ([], t)
  | (n, d) :: ds =>
      let (declared, t') := t.serve n d
      let (later, t'') := t'.serveAll ds
      (declared ++ later, t'')

theorem perform_context {α : Type} (t : Toplevel) (x : Context → ByNeed α) :
    (t.perform x).2.context = t.context := by
  unfold perform
  split <;> rfl

/-- An accepted statement does to the context what its declaration does. Any other leaves it alone. -/
theorem submit_cases (n : Nat) (t : Toplevel) (s : Statement) :
    (∃ result t', t.submit n s = (.ok (.accepted result), t') ∧
        t.context.Declared s.declaration t'.context) ∨
      (∀ result, (t.submit n s).1 ≠ .ok (.accepted result)) ∧
        (t.submit n s).2.context = t.context := by
  simp only [submit, TypeKernel.submit, bind, EStateM.bind, attempt]
  cases h : (process n t.context s.declaration : ByNeed _) t.session with
  | ok p session =>
      obtain ⟨Γ', result⟩ := p
      have returns : Returns (process n t.context s.declaration : ByNeed _) (Γ', result) :=
        ⟨t.session, session, h⟩
      exact .inl ⟨result, ⟨Γ', session⟩, rfl, declared_of_process returns⟩
  | error reason session =>
      refine .inr ⟨?_, ?_⟩
      · rintro result accepted
        cases reason with
        | failed e => cases e <;> cases accepted
        | exhausted => cases accepted
      · cases reason with
        | failed e => cases e <;> rfl
        | exhausted => rfl

theorem keeps_serve (n : Nat) (t : Toplevel) (distinct : t.context.names.Nodup) (d : Demand) :
    (t.serve n d).2.context.names.Nodup ∧
      t.context.Keeps (t.serve n d).1 (t.serve n d).2.context := by
  cases d with
  | normType type =>
      simp only [serve, normType, perform_context]
      exact ⟨distinct, .refl _⟩
  | submit s =>
      rcases t.submit_cases n s with ⟨result, t', h, declared⟩ | ⟨refused, same⟩
      · simp only [serve, h]
        exact declared.keeps distinct
      · simp only [serve, same]
        exact ⟨distinct, .refl _⟩

theorem keeps_serveAll (ds : List (Nat × Demand)) : ∀ t : Toplevel, t.context.names.Nodup →
    (t.serveAll ds).2.context.names.Nodup ∧
      t.context.Keeps (t.serveAll ds).1 (t.serveAll ds).2.context := by
  induction ds with
  | nil => exact fun t distinct => ⟨distinct, .refl _⟩
  | cons d ds ih =>
      intro t distinct
      obtain ⟨distinct', keeps⟩ := t.keeps_serve d.1 distinct d.2
      obtain ⟨distinct'', keeps'⟩ := ih (t.serve d.1 d.2).2 distinct'
      exact ⟨distinct'', keeps.trans keeps' distinct''⟩

end Toplevel

/-- Between any two moments of a run, whatever was asked of the top level and however it ended: names stay
distinct, variables and definitions stay as they are, a claim stays or becomes a definition at the claimed
type, nothing else appears but what accepted claims and definitions name, and what survives keeps its
order. -/
theorem toplevel_context_kept (t : Toplevel) (distinct : t.context.names.Nodup)
    (before after : List (Nat × Demand)) :
    ((t.serveAll before).2.serveAll after).2.context.names.Nodup ∧
      (t.serveAll before).2.context.Keeps ((t.serveAll before).2.serveAll after).1
        ((t.serveAll before).2.serveAll after).2.context :=
  (t.serveAll before).2.keeps_serveAll after (t.keeps_serveAll before distinct).1

/-- A top level with a variable on top of a claim. -/
def claimBelow : Toplevel :=
  ⟨⟨[("n", .free .nat), ("k", .claim .nat)]⟩, .empty⟩

/-- A claim of a name in use, a type that is none, a definition of the claimed name, and a statement without
steps to process it. -/
def mixedDemands : List (Nat × Demand) :=
  [(9, .submit ⟨.claim "n" .nat, none⟩), (9, .normType (.malformed .unknown)),
    (9, .submit ⟨.define "k" (.add1 .zero), none⟩), (0, .submit ⟨.normalize (.var "k"), none⟩)]

/-- Only the definition is accepted. It moves `k` to the front, and the variable stays where it was. -/
theorem claimBelow_kept : claimBelow.context.names.Nodup ∧
    (claimBelow.serveAll mixedDemands).1 = ["k"] ∧
    (claimBelow.serveAll mixedDemands).2.context.names = ["k", "n"] ∧
    (claimBelow.serveAll mixedDemands).2.context.names.Nodup ∧
    claimBelow.context.Keeps ["k"] (claimBelow.serveAll mixedDemands).2.context := by
  have distinct : claimBelow.context.names.Nodup := by decide
  have kept := toplevel_context_kept claimBelow distinct [] mixedDemands
  exact ⟨distinct, rfl, rfl, kept.1, kept.2⟩

end TypeKernel
