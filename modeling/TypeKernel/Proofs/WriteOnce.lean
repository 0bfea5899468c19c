/-
# TypeKernel.Proofs.WriteOnce — a cell changes once

On a bench anything may be done in any order: values are delayed, copied, applied, taken apart, bound and
forced, and actions fail halfway. Whatever is done, a cell keeps its origin, changes only by being filled with
a form, and then keeps that form; a force that fails leaves it empty; and no cell is mentioned that was not
allocated (`cells_write_once`).

One action keeps a bench explained by origins (`Bench.Explained.act`) and at most adds origins and results,
so any sequence of actions does (`Bench.Explained.runAll`).
-/
import TypeKernel.Bench
import TypeKernel.Proofs.Origins

namespace TypeKernel

set_option autoImplicit false

theorem Value.part?_mem {v w : Value} {field : String} (h : v.part? field = some w) :
    .value w ∈ (Piece.value v).parts := by
  cases v with
  | unary | binary | equal | quant | neutral =>
      simp only [Value.part?] at h
      split_ifs at h <;> simp_all [Piece.parts]
  | const | quote | lam | delayed => cases h

namespace Bench

/-- The pieces on a bench: its environment, the values in its slots and the results in its cells. -/
inductive Holds (b : Bench) : Piece → Prop
  | env : b.Holds (.env b.env)
  | slot {name : String} {v : Value} (h : (name, v) ∈ b.slots) : b.Holds (.value v)
  | result {c : Nat} {v : Value} (h : b.session.result? c = some v) : b.Holds (.value v)

/-- A cell is mentioned somewhere on a bench, with this environment and this expression. -/
def Mentions (b : Bench) (c : Nat) (ρ : Env) (e : Expr) : Prop :=
  ∃ p, b.Holds p ∧ p.Mentions c ρ e

/-- Do actions one after the other, each with its bound on the steps, whether or not they fail. -/
def runAll (b : Bench) (actions : List (Nat × Action)) : Bench :=
  actions.foldl (fun b a => (b.act a.1 a.2).2) b

/-- Origins that explain a bench. -/
structure Explained (O : Origins) (b : Bench) : Prop where
  accounts : Accounts O b.session
  env : (Piece.env b.env).CitesOnly O O.all
  slots : ∀ slot ∈ b.slots, (Piece.value slot.2).CitesOnly O O.all

/-- What actions do to a bench that is explained: origins and results are added and nothing is lost. -/
structure Advances (O : Origins) (b : Bench) (O' : Origins) (b' : Bench) : Prop where
  explained : Explained O' b'
  origins : O <+: O'
  kept : ∀ c v, b.session.result? c = some v → b'.session.result? c = some v

theorem Advances.trans {O O' O'' : Origins} {b b' b'' : Bench} (h : Advances O b O' b')
    (h' : Advances O' b' O'' b'') : Advances O b O'' b'' :=
  ⟨h'.explained, h.origins.trans h'.origins, fun c v hv => h'.kept c v (h.kept c v hv)⟩

namespace Explained

variable {O : Origins} {b : Bench}

/-- Everything on an explained bench mentions allocated cells only, each with its origin. -/
theorem holds (h : Explained O b) {p : Piece} (hp : b.Holds p) : p.CitesOnly O O.all := by
  cases hp with
  | env => exact h.env
  | slot hv => exact h.slots _ hv
  | result hv => exact h.accounts.shut.result _ (h.accounts.lt_of_result hv) _ hv

/-- A cell that is mentioned is mentioned with its origin. -/
theorem origin (h : Explained O b) {c : Nat} {σ : Env} {e : Expr} (hc : b.Mentions c σ e) :
    O[c]? = some (σ, e) := by
  obtain ⟨p, hp, hc⟩ := hc
  exact (h.holds hp c σ e hc).2

theorem allocated (h : Explained O b) {c : Nat} {σ : Env} {e : Expr} (hc : b.Mentions c σ e) :
    c < b.session.cells.size := by
  rw [← h.accounts.size]
  exact (List.getElem?_eq_some_iff.1 (h.origin hc)).1

theorem refl (h : Explained O b) : Advances O b O b :=
  ⟨h, List.prefix_refl O, fun _ _ hv => hv⟩

theorem session (h : Explained O b) {O' : Origins} {K' : Correspondence} {s' : Session}
    (m : Moves O (.among O O.all) b.session O' K' s') : Advances O b O' { b with session := s' } where
  explained := ⟨m.knows.accounts, h.env.later m.origins, fun slot hs => (h.slots slot hs).later m.origins⟩
  origins := m.origins
  kept := m.kept

theorem put (h : Explained O b) {v : Value} (hv : (Piece.value v).CitesOnly O O.all) (slot : String) :
    Explained O { b with slots := (slot, v) :: b.slots } :=
  ⟨h.accounts, h.env, List.forall_mem_cons.2 ⟨hv, h.slots⟩⟩

theorem make (h : Explained O b) (slot : String) {x : ByNeed Value}
    (hx : Arrives O (.among O O.all) b.session Both (x b.session)) :
    ∃ O', Advances O b O' (b.make slot x).2 := by
  unfold Bench.make
  revert hx
  cases x b.session with
  | ok v s' =>
      rintro ⟨O', K', v', m, hv⟩
      have adv := h.session m
      exact ⟨O', adv.explained.put (m.knows.cites_all hv) slot, adv.origins, adv.kept⟩
  | error reason s' =>
      rintro ⟨O', K', m⟩
      exact ⟨O', h.session m⟩

theorem withSlot (h : Explained O b) (slot : String) {k : Value → Except BenchError Answer × Bench}
    (hk : ∀ v, (Piece.value v).CitesOnly O O.all → ∃ O', Advances O b O' (k v).2) :
    ∃ O', Advances O b O' (b.withSlot slot k).2 := by
  unfold Bench.withSlot
  cases hv : b.slots.lookup slot with
  | none => exact ⟨O, h.refl⟩
  | some v =>
      obtain ⟨before, after, heq, -⟩ := List.lookup_eq_some_iff.1 hv
      exact hk v (h.slots (slot, v) (heq ▸ List.mem_append_right before (.head after)))

theorem withForced (h : Explained O b) (n : Nat) {v : Value} (hv : (Piece.value v).CitesOnly O O.all)
    {k : Value → Session → Except BenchError Answer × Bench}
    (hk : ∀ O' w s', Advances O b O' { b with session := s' } → (Piece.value w).CitesOnly O' O'.all →
      ∃ O'', Advances O b O'' (k w s').2) :
    ∃ O', Advances O b O' (b.withForced n v k).2 := by
  have forced := (confined_run n).asks (.force hv.known) O b.session h.accounts.knows
  unfold Bench.withForced Value.force
  revert forced
  cases (run n (.force v) : ByNeed Value) b.session with
  | ok w s' =>
      rintro ⟨O', K', w', m, hw⟩
      exact hk O' w s' (h.session m) (m.knows.cites_all hw)
  | error reason s' =>
      rintro ⟨O', K', m⟩
      exact ⟨O', h.session m⟩

theorem act (h : Explained O b) (n : Nat) (action : Action) : ∃ O', Advances O b O' (b.act n action).2 := by
  have asks := (confined_run n).asks
  have k := h.accounts.knows
  have env : Matches (.among O O.all) (.env b.env) (.env b.env.erase) := h.env.known
  cases action with
  | delay slot e => exact h.make slot (confined.suspend env (h.env.code e) O b.session k)
  | later slot e => exact h.make slot (asks.later env (h.env.code e) O b.session k)
  | eval slot e => exact h.make slot (asks (.eval env (h.env.code e)) O b.session k)
  | copy slot source =>
      exact h.withSlot source fun v hv => h.make slot (confined.pure (R := Both) hv.known O b.session k)
  | call slot fn arg =>
      refine h.withSlot fn fun f hf => h.withSlot arg fun a ha => ?_
      exact h.make slot (asks.call hf.known ha.known O b.session k)
  | project slot p target =>
      exact h.withSlot target fun v hv => h.make slot (asks.project p hv.known O b.session k)
  | instantiate slot x body arg =>
      refine h.withSlot arg fun a ha => h.make slot ?_
      have closure : (Piece.closure (.code b.env x body)).CitesOnly O O.all :=
        .build rfl (List.forall_mem_singleton.2 h.env)
      exact asks (.apply closure.known ha.known) O b.session k
  | part slot source field =>
      refine h.withSlot source fun v hv => h.withForced n hv fun O' w s' adv hw => ?_
      cases hu : w.part? field with
      | none => exact ⟨O', adv⟩
      | some u =>
          have part := hw.part (Value.part?_mem hu)
          exact ⟨O', adv.explained.put part slot, adv.origins, adv.kept⟩
  | bind x source =>
      refine h.withSlot source fun v hv => ?_
      have env : (Piece.env (b.env.extend x v)).CitesOnly O O.all :=
        .build rfl (List.forall_mem_cons.2 ⟨h.env, List.forall_mem_singleton.2 hv⟩)
      exact ⟨O, ⟨h.accounts, env, h.slots⟩, List.prefix_refl O, fun _ _ hc => hc⟩
  | inspect slot => exact h.withSlot slot fun _ _ => ⟨O, h.refl⟩
  | force slot => exact h.withSlot slot fun v hv => h.withForced n hv fun O' _ _ adv _ => ⟨O', adv⟩
  | describe slot => exact h.withSlot slot fun _ _ => ⟨O, h.refl⟩

theorem runAll (h : Explained O b) (actions : List (Nat × Action)) :
    ∃ O', Advances O b O' (b.runAll actions) := by
  induction actions generalizing O b with
  | nil => exact ⟨O, h.refl⟩
  | cons action rest ih =>
      obtain ⟨O₁, adv₁⟩ := h.act action.1 action.2
      obtain ⟨O₂, adv₂⟩ := ih adv₁.explained
      exact ⟨O₂, adv₁.trans adv₂⟩

/-- Whatever actions come between, a cell is mentioned with the same environment and expression. -/
theorem same_origin (h : Explained O b) {actions : List (Nat × Action)} {c : Nat} {σ σ' : Env} {e e' : Expr}
    (hc : b.Mentions c σ e) (hc' : (b.runAll actions).Mentions c σ' e') : σ' = σ ∧ e' = e := by
  obtain ⟨O', adv⟩ := h.runAll actions
  have before : O'[c]? = some (σ, e) := Origins.lookup_mono adv.origins (h.origin hc)
  have after : O'[c]? = some (σ', e') := adv.explained.origin hc'
  cases before.symm.trans after
  exact ⟨rfl, rfl⟩

end Explained

end Bench

/-- Cells are written once. A bench starts after any history, with an environment that is at hand there, and
`early` and then `late` actions are done. Results are forms and stay. A cell that is mentioned is allocated,
and from then on it is mentioned with one environment and one expression, those with which it was delayed. A
force that fails leaves it empty, unless no steps are allowed at all and the cell is not even looked at. -/
theorem cells_write_once {s : Session} {ps : List Piece} (h : History .empty [] s ps) {ρ : Env}
    (hρ : .env ρ ∈ ps) (early late : List (Nat × Action)) :
    let b := Bench.runAll ⟨ρ, [], s⟩ early
    let b' := b.runAll late
    b.session.cells.size ≤ b'.session.cells.size ∧
    (∀ c v, b.session.result? c = some v → v.isDelayed = false ∧ b'.session.result? c = some v) ∧
    (∀ n slot e σ f, ((b.act n (.delay slot e)).2.runAll late).Mentions b.session.cells.size σ f →
      σ = b.env ∧ f = e) ∧
    ∀ c σ e, b.Mentions c σ e → c < b.session.cells.size ∧
      (∀ σ' e', b'.Mentions c σ' e' → σ' = σ ∧ e' = e) ∧
      ∀ n reason s', ((Value.delayed c σ e).force (n + 1) : ByNeed Value) b.session = .error reason s' →
        s'.cells[c]? = some none := by
  intro b b'
  obtain ⟨O₀, acc, cites⟩ := h.accounts .empty (List.forall_mem_nil _)
  have bare : Bench.Explained O₀ ⟨ρ, [], s⟩ := ⟨acc, cites _ hρ, List.forall_mem_nil _⟩
  obtain ⟨O, first⟩ := bare.runAll early
  obtain ⟨O', second⟩ := first.explained.runAll late
  have ex : Bench.Explained O b := first.explained
  refine ⟨?_, ?_, ?_, ?_⟩
  · rw [← ex.accounts.size, ← second.explained.accounts.size]
    exact second.origins.length_le
  · intro c v hv
    exact ⟨ex.accounts.forced c v hv, second.kept c v hv⟩
  · intro n slot e σ f later
    obtain ⟨O₁, delayed⟩ := ex.act n (.delay slot e)
    have new : (b.act n (.delay slot e)).2.Mentions b.session.cells.size b.env e :=
      ⟨_, .slot (.head _), .here⟩
    exact delayed.explained.same_origin new later
  · intro c σ e hc
    refine ⟨ex.allocated hc, fun σ' e' hc' => ex.same_origin hc hc', fun n reason s' failed => ?_⟩
    exact ex.accounts.force_error (ex.origin hc) failed

/-- Two slots share a cell, which is filled for both, and the force of another cell fails. -/
theorem copies_share_cell :
    let e : Expr := .proj .car (.binary .cons .zero .zero)
    let b := Bench.runAll ⟨.empty, [], .empty⟩
      [(9, .delay "d" e), (9, .copy "copy" "d"), (9, .delay "bad" .todo)]
    let b' := b.runAll [(9, .force "copy"), (9, .force "bad")]
    b.session.cells = #[none, none] ∧ b'.session.cells = #[some .zero, none] ∧
      (∀ σ f, b'.Mentions 0 σ f → σ = .empty ∧ f = e) ∧
      ∃ reason s', ((Value.delayed 1 .empty .todo).force 9 : ByNeed Value) b.session = .error reason s' ∧
        s'.cells[1]? = some none := by
  intro e b b'
  have empty : History .empty [] .empty [.env .empty] := .build .start rfl (List.nil_subset _)
  have once := cells_write_once empty (.head _)
    [(9, .delay "d" e), (9, .copy "copy" "d"), (9, .delay "bad" .todo)]
    [(9, .force "copy"), (9, .force "bad")]
  have shared : b.Mentions 0 .empty e := ⟨_, .slot (.tail _ (.head _)), .here⟩
  have bad : b.Mentions 1 .empty .todo := ⟨_, .slot (.head _), .here⟩
  refine ⟨rfl, rfl, (once.2.2.2 0 .empty e shared).2.1, _, _, rfl, ?_⟩
  exact (once.2.2.2 1 .empty .todo bad).2.2 8 _ _ rfl

end TypeKernel
