/-
# TypeKernel.Proofs.Folds — recursors compute folds

Forcing a number, a list or a vector layer by layer ends, if it does, in a spine: what each layer hands to
the step, outermost first. The recursors take their target apart lazily, each with a rule of its own, and
evaluation goes back and forth between forcing the target and calling the step. Still each of them gives
the fold of the step over the spine, from the base (`recursors_compute_folds`): the step receives the
predecessor, or the head and the tail, or the length of the tail, the head and the tail, and then the
result below. The motive of an induction plays no role, so inductions agree with folds.

By name this is an equation between unbounded outcomes (`Layers.answer_eq`), and runs by need follow
those by name.
-/
import TypeKernel.Proofs.Isolation
import TypeKernel.Proofs.Rules

namespace TypeKernel

set_option autoImplicit false

open Machine

/-! ## Folds over a spine -/

section Fold

variable {m : Type → Type} [Machine m] (ask : Request → m Value)

/-- Apply a function to arguments, one after the other. -/
def applyAll : Value → List Value → m Value
  | fn, [] => return fn
  | fn, arg :: args => do
      let fn ← Eval.call ask fn arg
      applyAll fn args

/-- The right fold of a step over rows of arguments: the step is applied to the first row and to the fold
over the others. -/
def foldAll (base step : Value) : List (List Value) → m Value
  | [] => return base
  | row :: rows => do
      let fn ← applyAll ask step row
      let result ← foldAll base step rows
      Eval.call ask fn result

end Fold

/-- The data that recursors take apart. -/
inductive Datum where
  | nat | list | vec

/-- The innermost layer. -/
def Datum.last : Datum → Value
  | .nat => .zero
  | .list => .nil
  | .vec => .vecNil

/-- What any other layer hands to a step, and the layers below it. -/
def Datum.layer? : Datum → Value → Option (List Value × Value)
  | .nat, .add1 w => some ([w], w)
  | .list, .listCons e es => some ([e, es], es)
  | .vec, .vecCons e es => some ([e, es], es)
  | _, _ => none

/-- Started in the session `s`, forcing the layers of a value ends in the session `s'`. The rows are what
the layers hand to a step. -/
inductive Spine (d : Datum) : Value → Session → List (List Value) → Session → Prop
  | last {k v s s'} (forced : (v.force k : ByNeed Value) s = .ok d.last s') : Spine d v s [] s'
  | layer {k v w row below rows s s₁ s'} (forced : (v.force k : ByNeed Value) s = .ok w s₁)
      (isLayer : d.layer? w = some (row, below)) (rest : Spine d below s₁ rows s') :
      Spine d v s (row :: rows) s'

/-! ## By name -/

/-- The layers of a value by name. -/
inductive Layers (d : Datum) : Value → List (List Value) → Prop
  | last {v} (forced : Forces v d.last) : Layers d v []
  | layer {v w row below rows} (forced : Forces v w) (isLayer : d.layer? w = some (row, below))
      (rest : Layers d below rows) : Layers d v (row :: rows)

namespace Datum

theorem layer?_nat {w below : Value} {row : List Value} (h : nat.layer? w = some (row, below)) :
    w = .add1 below ∧ row = [below] := by
  cases w with
  | unary u v =>
      cases u with
      | add1 =>
          cases h
          exact ⟨rfl, rfl⟩
      | _ => cases h
  | _ => cases h

theorem layer?_list {w below : Value} {row : List Value} (h : list.layer? w = some (row, below)) :
    ∃ e, w = .listCons e below ∧ row = [e, below] := by
  cases w with
  | binary b e es =>
      cases b with
      | listCons =>
          cases h
          exact ⟨e, rfl, rfl⟩
      | _ => cases h
  | _ => cases h

theorem layer?_vec {w below : Value} {row : List Value} (h : vec.layer? w = some (row, below)) :
    ∃ e, w = .vecCons e below ∧ row = [e, below] := by
  cases w with
  | binary b e es =>
      cases b with
      | vecCons =>
          cases h
          exact ⟨e, rfl, rfl⟩
      | _ => cases h
  | _ => cases h

end Datum

/-- A recursor that returns the base at the last layer, and at any other layer applies the step to what it
takes from the row and to its own result below, computes the fold. -/
theorem Layers.answer_eq {d : Datum} {base step : Value} {r : Value → Request}
    (take : List Value → List Value) (atLast : ∀ {v}, Forces v d.last → answer (r v) = .ok base)
    (atLayer : ∀ {v w row below}, Forces v w → d.layer? w = some (row, below) →
      answer (r v) = do
        let fn ← applyAll answer step (take row)
        let result ← answer (r below)
        Eval.call answer fn result)
    {v : Value} {rows : List (List Value)} (h : Layers d v rows) :
    answer (r v) = foldAll answer base step (rows.map take) := by
  induction h with
  | last forced => exact atLast forced
  | layer forced isLayer _ ih =>
      rw [atLayer forced isLayer, ih]
      rfl

theorem applyAll_cons (fn a : Value) (args : List Value) :
    applyAll answer fn (a :: args) = Eval.call answer fn a >>= fun g => applyAll answer g args :=
  rfl

theorem applyAll_single (fn a : Value) : applyAll answer fn [a] = Eval.call answer fn a := by
  rw [applyAll_cons]
  cases Eval.call answer fn a <;> rfl

theorem applyAll_pair (fn a b : Value) :
    applyAll answer fn [a, b] = Eval.callBoth answer fn a b := by
  simp only [applyAll_cons _ a, applyAll_single]
  rfl

theorem applyAll_triple (fn a b c : Value) :
    applyAll answer fn [a, b, c] = Eval.callBoth answer fn a b >>= fun g => Eval.call answer g c := by
  rw [applyAll_cons, Eval.callBoth]
  cases Eval.call answer fn a with
  | error reason => rfl
  | ok g => exact applyAll_pair g b c

section ByName

variable {t m b s k : Value} {o : Option Value} {rows : List (List Value)}

theorem Layers.iterNat (h : Layers .nat t rows) :
    answer (.fold .iterNat t o b s) = foldAll answer b s (List.replicate rows.length []) := by
  rw [← List.map_const']
  refine h.answer_eq (r := fun t => .fold .iterNat t o b s) (fun _ => []) (fun forced => ?_)
    fun forced isLayer => ?_
  · rw [answer_fold, Eval.fold, Eval.iterNat, forced]
    rfl
  · obtain ⟨rfl, -⟩ := Datum.layer?_nat isLayer
    rw [answer_fold, Eval.fold, Eval.iterNat, forced]
    rfl

theorem Layers.recNat (h : Layers .nat t rows) :
    answer (.fold .recNat t o b s) = foldAll answer b s rows := by
  rw [← rows.map_id]
  refine h.answer_eq (r := fun t => .fold .recNat t o b s) id (fun forced => ?_)
    fun forced isLayer => ?_
  · rw [answer_fold, Eval.fold, Eval.recNat, forced]
    rfl
  · obtain ⟨rfl, rfl⟩ := Datum.layer?_nat isLayer
    rw [answer_fold, Eval.fold, Eval.recNat, forced, id, applyAll_single]
    rfl

theorem Layers.indNat (h : Layers .nat t rows) :
    answer (.induct .indNat t m b s) = foldAll answer b s rows := by
  rw [← rows.map_id]
  refine h.answer_eq (r := fun t => .induct .indNat t m b s) id (fun forced => ?_)
    fun forced isLayer => ?_
  · rw [answer_indNat, Eval.indNat, forced]
    rfl
  · obtain ⟨rfl, rfl⟩ := Datum.layer?_nat isLayer
    rw [answer_indNat, Eval.indNat, forced, id, applyAll_single]
    rfl

theorem Layers.recList (h : Layers .list t rows) :
    answer (.fold .recList t o b s) = foldAll answer b s rows := by
  rw [← rows.map_id]
  refine h.answer_eq (r := fun t => .fold .recList t o b s) id (fun forced => ?_)
    fun forced isLayer => ?_
  · rw [answer_fold, Eval.fold, Eval.recList, forced]
    rfl
  · obtain ⟨e, rfl, rfl⟩ := Datum.layer?_list isLayer
    rw [answer_fold, Eval.fold, Eval.recList, forced, id, applyAll_pair]
    rfl

theorem Layers.indList (h : Layers .list t rows) :
    answer (.induct .indList t m b s) = foldAll answer b s rows := by
  rw [← rows.map_id]
  refine h.answer_eq (r := fun t => .induct .indList t m b s) id (fun forced => ?_)
    fun forced isLayer => ?_
  · rw [answer_indList, Eval.indList, forced]
    rfl
  · obtain ⟨e, rfl, rfl⟩ := Datum.layer?_list isLayer
    rw [answer_indList, Eval.indList, forced, id, applyAll_pair]
    rfl

/-- The induction over vectors takes two targets apart: the length is forced once for each entry. -/
theorem Layers.indVec {lengths : List (List Value)} (h : Layers .vec t rows)
    (hk : Layers .nat k lengths) (same : lengths.length = rows.length) :
    answer (.indVec k t m b s) = foldAll answer b s (List.zipWith (· ++ ·) lengths rows) := by
  induction h generalizing k lengths with
  | last forced =>
      cases List.length_eq_zero_iff.1 same
      rw [answer_indVec, Eval.indVec, forced]
      rfl
  | layer forced isLayer _ ih =>
      obtain ⟨e, rfl, rfl⟩ := Datum.layer?_vec isLayer
      cases hk with
      | last => cases same
      | @layer _ _ _ smaller _ forcedLength isSmaller below =>
          obtain ⟨rfl, rfl⟩ := Datum.layer?_nat isSmaller
          rw [answer_indVec, Eval.indVec, forced]
          simp only [ByName.ok_bind, forcedLength, ih below (Nat.succ.inj same), foldAll,
            List.zipWith_cons_cons, List.cons_append, List.nil_append, applyAll_triple]
          cases Eval.callBoth answer s smaller e <;> rfl

end ByName

/-! ## By need -/

theorem finitary_applyAll (args : List Value) : ∀ fn, Finitary fun ask => applyAll ask fn args := by
  induction args with
  | nil => exact fun fn => .const _
  | cons arg args ih => exact fun fn => (Eval.finitary_call fn arg).bind ih

theorem finitary_foldAll (base step : Value) (rows : List (List Value)) :
    Finitary fun ask => foldAll ask base step rows := by
  induction rows with
  | nil => exact .const _
  | cons row rows ih =>
      exact (finitary_applyAll row step).bind fun fn => ih.bind fun result =>
        Eval.finitary_call fn result

/-- Computations with one unbounded outcome are equal from some bound on. -/
theorem Finitary.eventually_eq {α : Type} {F G : Asking α} (hF : Finitary F) (hG : Finitary G)
    (same : F answer = G answer) : ∃ N, ∀ k, N ≤ k → F (run k) = G (run k) := by
  obtain ⟨N₁, h₁⟩ := hF.finite settled
  obtain ⟨N₂, h₂⟩ := hG.finite settled
  have above : ∀ {H : Asking α}, Finitary H → ∀ k, Approximates (H (run k)) (H answer) :=
    fun hH k => hH.mono fun r => run_approx_answer k r
  refine ⟨max N₁ N₂, fun k hk => ?_⟩
  by_cases ends : F answer = .error .exhausted
  · -- without an outcome both are out of steps at every bound
    have out : ∀ {H : Asking α}, Finitary H → H answer = .error .exhausted →
        H (run k) = .error .exhausted := fun hH never => (above hH k).elim id (·.trans never)
    rw [out hF ends, out hG (same ▸ ends)]
  · have hFk := (h₁ k (by omega)).resolve_left ends
    have hGk := (h₂ k (by omega)).resolve_left (same ▸ ends)
    rw [← hFk, ← hGk, same]

/-- Computations that end in the same ways, whichever of them is known to end. -/
def EndSame {α : Type} (x y : Nat → ByNeed α) (s t : Session) : Prop :=
  EndAlike x y s t ∧ EndAlike y x t s

/-- Two computations of values, in two sessions, give the same: both fail, and with the same error, or
both return, and what they return reads back alike at each type at hand. -/
structure GiveAlike (x y : Nat → ByNeed Value) (ps : List Piece) (s t : Session) : Prop where
  ends : EndSame (fun k => do let _ ← x k; return ()) (fun k => do let _ ← y k; return ()) s t
  reads : ∀ (Γ : Context) {T : Value}, .value T ∈ ps →
    EndSame (fun k => x k >>= readBack k Γ T) (fun k => y k >>= readBack k Γ T) s t

/-- Computations that follow finitary ones by name with one unbounded outcome. -/
theorem GiveAlike.of_answer {K L : Correspondence} {x y : Nat → ByNeed Value} {F G : Asking Value}
    {ps : List Piece} {s t : Session} (hF : Finitary F) (hG : Finitary G)
    (same : F answer = G answer)
    (hx : ∀ n, (byNeed n).rel K Both (x n) fun i => F (run i)) (hs : Remembers K s)
    (hy : ∀ n, (byNeed n).rel L Both (y n) fun i => G (run i)) (ht : Remembers L t)
    (heldK : Held K ps) (heldL : Held L ps) : GiveAlike x y ps s t := by
  obtain ⟨N, hN⟩ := hF.eventually_eq hG same
  have alike : ∀ {α : Type} {u v : Nat → ByNeed α} {g : Nat → Value → ByName α},
      (∀ n, (byNeed n).rel K Same (u n) fun i => F (run i) >>= g i) →
      (∀ n, (byNeed n).rel L Same (v n) fun i => G (run i) >>= g i) → EndSame u v s t := by
    intro α u v g hu hv
    constructor
    · exact .of_eventually hu hs hv ht ⟨N, fun k hk => by rw [hN k hk]⟩
    · exact .of_eventually hv ht hu hs ⟨N, fun k hk => by rw [hN k hk]⟩
  constructor
  · refine alike (g := fun _ _ => .ok ()) (fun n => ?_) fun n => ?_
    · exact byNeed_bind (hx n) fun _ _ _ _ _ _ => (byNeed n).pure rfl
    · exact byNeed_bind (hy n) fun _ _ _ _ _ _ => (byNeed n).pure rfl
  · intro Γ T hT
    refine alike (g := fun i v => readBack i Γ T.erase v) (fun n => ?_) fun n => ?_
    · exact byNeed_bind (hx n) fun _ _ _ le hM hv =>
        byNeed_readings n hM rfl (.value ((heldK _ hT).mono le) hv)
    · exact byNeed_bind (hy n) fun _ _ _ le hM hv =>
        byNeed_readings n hM rfl (.value ((heldL _ hT).mono le) hv)

theorem byNeed_applyAll {n : Nat} {args : List Value} : ∀ {K : Correspondence} {fn fn' : Value},
    Both K fn fn' → Held K (args.map .value) →
    (byNeed n).rel K Both (applyAll (run n) fn args) fun i => applyAll (run i) fn' (args.map Value.erase) := by
  induction args with
  | nil => exact fun hf _ => (byNeed n).pure hf
  | cons arg args ih =>
      intro K fn fn' hf held
      refine (byNeed n).bind ((byNeed_run n).call hf held.head) fun K' g g' le hg => ?_
      exact ih hg (held.tail.mono le)

theorem byNeed_foldAll {n : Nat} {base step : Value} {rows : List (List Value)} :
    ∀ {K : Correspondence}, Both K base base.erase → Both K step step.erase →
    Held K (rows.flatten.map .value) →
    (byNeed n).rel K Both (foldAll (run n) base step rows)
      fun i => foldAll (run i) base.erase step.erase (rows.map (List.map Value.erase)) := by
  induction rows with
  | nil => exact fun hb _ _ => (byNeed n).pure hb
  | cons row rows ih =>
      intro K hb hs held
      rw [List.flatten_cons, List.map_append] at held
      have first := held.of_subset (List.subset_append_left _ _)
      have others := held.of_subset (List.subset_append_right _ _)
      refine (byNeed n).bind (byNeed_applyAll hs first) fun K₁ fn fn' le₁ hf => ?_
      refine (byNeed n).bind (ih (hb.mono le₁) (hs.mono le₁) (others.mono le₁)) fun K₂ v v' le₂ hv => ?_
      exact (byNeed_run n).call (hf.mono le₂) hv

namespace Datum

theorem last_erase (d : Datum) : d.last.erase = d.last := by
  cases d <;> rfl

theorem layer?_erase {d : Datum} {w below : Value} {row : List Value}
    (h : d.layer? w = some (row, below)) :
    d.layer? w.erase = some (row.map Value.erase, below.erase) := by
  cases d with
  | nat =>
      obtain ⟨rfl, rfl⟩ := layer?_nat h
      rfl
  | list =>
      obtain ⟨e, rfl, rfl⟩ := layer?_list h
      rfl
  | vec =>
      obtain ⟨e, rfl, rfl⟩ := layer?_vec h
      rfl

/-- What a layer hands on are parts of it. -/
theorem layer?_parts {d : Datum} {w below : Value} {row : List Value}
    (h : d.layer? w = some (row, below)) :
    row.map .value = (Piece.value w).parts ∧ below ∈ row := by
  cases d with
  | nat =>
      obtain ⟨rfl, rfl⟩ := layer?_nat h
      exact ⟨rfl, by simp⟩
  | list =>
      obtain ⟨e, rfl, rfl⟩ := layer?_list h
      exact ⟨rfl, by simp⟩
  | vec =>
      obtain ⟨e, rfl, rfl⟩ := layer?_vec h
      exact ⟨rfl, by simp⟩

end Datum

theorem Faithful.forces {K : Correspondence} {s s' : Session} {v w : Value} {k : Nat}
    (rem : Remembers K s) (hv : Both K v v.erase) (forced : (v.force k : ByNeed Value) s = .ok w s') :
    ∃ K', K.Le K' ∧ Remembers K' s' ∧ Both K' w w.erase ∧ Forces v.erase w.erase := by
  obtain ⟨K', w', le, rem', hw, N, byName⟩ := (byNeed_run k (.force hv) s rem).ok forced
  cases rem'.eq_erase hw
  exact ⟨K', le, rem', hw, answer_of_run (byName N (Nat.le_refl N))⟩

theorem Spine.layers {d : Datum} {v : Value} {s s' : Session} {rows : List (List Value)}
    (h : Spine d v s rows s') : ∀ {K : Correspondence}, Remembers K s → Both K v v.erase →
    ∃ K', K.Le K' ∧ Remembers K' s' ∧ Held K' (rows.flatten.map .value) ∧
      Layers d v.erase (rows.map (List.map Value.erase)) := by
  induction h with
  | last forced =>
      intro K rem hv
      obtain ⟨K', le, rem', -, byName⟩ := rem.forces hv forced
      exact ⟨K', le, rem', List.forall_mem_nil _, .last (d.last_erase ▸ byName)⟩
  | layer forced isLayer _ ih =>
      intro K rem hv
      obtain ⟨K₁, le₁, rem₁, hw, byName⟩ := rem.forces hv forced
      obtain ⟨parts, below⟩ := Datum.layer?_parts isLayer
      have row := Held.parts rem₁.exact hw
      rw [← parts] at row
      obtain ⟨K₂, le₂, rem₂, rest, layers⟩ := ih rem₁ (row _ (List.mem_map_of_mem below))
      refine ⟨K₂, le₁.trans le₂, rem₂, ?_, .layer byName (Datum.layer?_erase isLayer) layers⟩
      rw [List.flatten_cons, List.map_append]
      exact List.forall_mem_append.2 ⟨row.mono le₂, rest⟩

theorem mem_flatten_zipWith_append {α : Type} {a : α} {as bs : List (List α)}
    (h : a ∈ (List.zipWith (· ++ ·) as bs).flatten) : a ∈ as.flatten ∨ a ∈ bs.flatten := by
  induction as generalizing bs with
  | nil => simp at h
  | cons x as ih =>
      cases bs with
      | nil => simp at h
      | cons y bs =>
          simp only [List.zipWith_cons_cons, List.flatten_cons, List.mem_append] at h ⊢
          rcases h with (h | h) | h
          · exact .inl (.inl h)
          · exact .inr (.inl h)
          · exact (ih h).imp .inr .inr

/-- Whatever has been done with what is at hand in the session `s`, a request gives the fold over the
rows, in any session after `s'`, in which the rows are at hand. -/
def FoldsTo (r : Request) (base step : Value) (rows : List (List Value)) (ps : List Piece)
    (s s' : Session) : Prop :=
  ∀ s₁ ps₁ s₂ ps₂, History s ps s₁ ps₁ → History s' (rows.flatten.map .value ++ ps) s₂ ps₂ →
    GiveAlike (fun k => run k r) (fun k => foldAll (run k) base step rows) ps s₁ s₂

section Requests

variable {s₀ s : Session} {ps : List Piece}

/-- Requests that are answered alike by name give the same in any two later sessions. -/
theorem History.giveAlike (h : History s₀ [] s ps) {r r' : Request} (hr : r.pieces ⊆ ps)
    (hr' : r'.pieces ⊆ ps) (same : answer r.erase = answer r'.erase) {s₁ s₂ : Session}
    {ps₁ ps₂ : List Piece} (h₁ : History s ps s₁ ps₁) (h₂ : History s ps s₂ ps₂) :
    GiveAlike (fun k => run k r) (fun k => run k r') ps s₁ s₂ := by
  obtain ⟨K₁, -, rem₁, held₁⟩ := (h.trans h₁).held (.start s₀) (List.forall_mem_nil _)
  obtain ⟨K₂, -, rem₂, held₂⟩ := (h.trans h₂).held (.start s₀) (List.forall_mem_nil _)
  have atHand₁ := held₁.of_subset h₁.subset
  have atHand₂ := held₂.of_subset h₂.subset
  exact .of_answer (.ask r.erase) (.ask r'.erase) same
    (fun n => byNeed_run n ((atHand₁.of_subset hr).request rem₁.exact)) rem₁
    (fun n => byNeed_run n ((atHand₂.of_subset hr').request rem₂.exact)) rem₂ atHand₁ atHand₂

theorem FoldsTo.of_answer (h : History s₀ [] s ps) {r : Request} (hr : r.pieces ⊆ ps)
    {base step : Value} (hb : .value base ∈ ps) (hs : .value step ∈ ps) {K : Correspondence}
    {s' : Session} (rem : Remembers K s') {rows : List (List Value)}
    (held : Held K (rows.flatten.map .value ++ ps))
    (same : answer r.erase =
      foldAll answer base.erase step.erase (rows.map (List.map Value.erase))) :
    FoldsTo r base step rows ps s s' := by
  intro s₁ ps₁ s₂ ps₂ h₁ h₂
  obtain ⟨K₁, -, rem₁, held₁⟩ := (h.trans h₁).held (.start s₀) (List.forall_mem_nil _)
  obtain ⟨K₂, -, rem₂, held₂⟩ := h₂.held rem held
  have atHand₁ := held₁.of_subset h₁.subset
  have atHand₂ := held₂.of_subset h₂.subset
  have given := atHand₂.of_subset (List.subset_append_right _ ps)
  have passed := atHand₂.of_subset (List.subset_append_left (rows.flatten.map .value) ps)
  exact .of_answer (.ask r.erase) (finitary_foldAll _ _ _) same
    (fun n => byNeed_run n ((atHand₁.of_subset hr).request rem₁.exact)) rem₁
    (fun n => byNeed_foldAll (given _ hb) (given _ hs) passed) rem₂ atHand₁ given

end Requests

/-- Recursors compute folds and agree with inductions. Let base, step, motive and target be at hand in a
session, and let the target force to a finite spine. Then iteration applies the step to the base once for
each layer of a number. Recursion and induction over numbers and lists give the fold of the step over the
spine, for every motive, and so agree with each other. Induction over a vector whose length has as many
layers gives the fold in which the length of the tail is passed first. -/
theorem recursors_compute_folds {s₀ s : Session} {ps : List Piece} (h : History s₀ [] s ps)
    {target base step m : Value} {o : Option Value} (ht : .value target ∈ ps)
    (hb : .value base ∈ ps) (hs : .value step ∈ ps) (hm : .value m ∈ ps)
    (ho : o.toList.map .value ⊆ ps) :
    (∀ {rows s'}, Spine .nat target s rows s' →
      FoldsTo (.fold .iterNat target o base step) base step (List.replicate rows.length []) ps s s' ∧
      FoldsTo (.fold .recNat target o base step) base step rows ps s s' ∧
      FoldsTo (.induct .indNat target m base step) base step rows ps s s' ∧
      ∀ {s₁ ps₁ s₂ ps₂}, History s ps s₁ ps₁ → History s ps s₂ ps₂ →
        GiveAlike (fun k => run k (.fold .recNat target o base step))
          (fun k => run k (.induct .indNat target m base step)) ps s₁ s₂) ∧
    (∀ {rows s'}, Spine .list target s rows s' →
      FoldsTo (.fold .recList target o base step) base step rows ps s s' ∧
      FoldsTo (.induct .indList target m base step) base step rows ps s s' ∧
      ∀ {s₁ ps₁ s₂ ps₂}, History s ps s₁ ps₁ → History s ps s₂ ps₂ →
        GiveAlike (fun k => run k (.fold .recList target o base step))
          (fun k => run k (.induct .indList target m base step)) ps s₁ s₂) ∧
    ∀ {rows s' length lengths s''}, Spine .vec target s rows s' → .value length ∈ ps →
      Spine .nat length s' lengths s'' → lengths.length = rows.length →
      FoldsTo (.indVec length target m base step) base step
        (List.zipWith (· ++ ·) lengths rows) ps s s'' := by
  obtain ⟨K, -, rem, held⟩ := h.held (.start s₀) (List.forall_mem_nil _)
  have fold : ∀ f, (Request.fold f target o base step).pieces ⊆ ps := by
    simp [Request.pieces, ht, hb, hs, ho]
  have induct : ∀ i, (Request.induct i target m base step).pieces ⊆ ps := by
    simp [Request.pieces, ht, hb, hs, hm]
  refine ⟨fun {rows s'} spine => ?_, fun {rows s'} spine => ?_, ?_⟩
  · obtain ⟨K', le, rem', passed, layers⟩ := spine.layers rem (held _ ht)
    have atHand := List.forall_mem_append.2 ⟨passed, held.mono le⟩
    have iterated : answer (.fold .iterNat target.erase (o.map Value.erase) base.erase step.erase) =
        foldAll answer base.erase step.erase
          ((List.replicate rows.length []).map (List.map Value.erase)) := by
      simpa using layers.iterNat
    refine ⟨FoldsTo.of_answer h (fold _) hb hs rem' ?_ iterated,
      FoldsTo.of_answer h (fold _) hb hs rem' atHand layers.recNat,
      FoldsTo.of_answer h (induct _) hb hs rem' atHand layers.indNat, fun {s₁ ps₁ s₂ ps₂} h₁ h₂ => ?_⟩
    · rw [List.flatten_replicate_nil]
      exact held.mono le
    · exact h.giveAlike (fold _) (induct _) (layers.recNat.trans layers.indNat.symm) h₁ h₂
  · obtain ⟨K', le, rem', passed, layers⟩ := spine.layers rem (held _ ht)
    have atHand := List.forall_mem_append.2 ⟨passed, held.mono le⟩
    refine ⟨FoldsTo.of_answer h (fold _) hb hs rem' atHand layers.recList,
      FoldsTo.of_answer h (induct _) hb hs rem' atHand layers.indList, fun {s₁ ps₁ s₂ ps₂} h₁ h₂ => ?_⟩
    exact h.giveAlike (fold _) (induct _) (layers.recList.trans layers.indList.symm) h₁ h₂
  · intro rows s' length lengths s'' spine hk lengthSpine same
    obtain ⟨K', le, rem', passed, layers⟩ := spine.layers rem (held _ ht)
    obtain ⟨K'', le', rem'', passed', layers'⟩ := lengthSpine.layers rem' ((held _ hk).mono le)
    have request : (Request.indVec length target m base step).pieces ⊆ ps := by
      simp [Request.pieces, hk, ht, hb, hs, hm]
    have rowsPassed : Held K'' ((List.zipWith (· ++ ·) lengths rows).flatten.map .value) := by
      intro p hp
      obtain ⟨v, hv, rfl⟩ := List.mem_map.1 hp
      rcases mem_flatten_zipWith_append hv with hv | hv
      · exact passed' _ (List.mem_map_of_mem hv)
      · exact passed.mono le' _ (List.mem_map_of_mem hv)
    refine FoldsTo.of_answer h request hb hs rem''
      (List.forall_mem_append.2 ⟨rowsPassed, held.mono (le.trans le')⟩) ?_
    rw [List.map_zipWith]
    simp only [List.map_append]
    rw [← List.zipWith_map]
    exact layers.indVec layers' (by simpa using same)

/-- The number two, delayed in the first cell. -/
def delayedTwo : Value :=
  .delayed 0 .empty (.add1 (.add1 .zero))

/-- `(λ (k) (λ (r) (add1 r)))`. -/
def countingStep : Value :=
  .lam "k" (.code .empty "k" (.lam "r" (.add1 (.var "r"))))

/-- Forcing the number finds two layers, in cells of their own. Recursion and induction, with a motive
that is not even a function, both count them. -/
theorem delayedTwo_folds : ∃ s ps rows s', History .empty [] s ps ∧
    Spine .nat delayedTwo s rows s' ∧ rows.length = 2 ∧
    FoldsTo (.fold .recNat delayedTwo (some .nat) .zero countingStep) .zero countingStep rows ps s s' ∧
    FoldsTo (.induct .indNat delayedTwo .nat .zero countingStep) .zero countingStep rows ps s s' ∧
    ByNeed.outcome (run 20 (.induct .indNat delayedTwo .nat .zero countingStep) >>=
      readBack 20 .empty .nat) s = .ok (.add1 (.add1 .zero)) := by
  have suspended : History .empty [] Session.empty.allocate [.value delayedTwo, .env .empty] :=
    .done (.build .start rfl (List.nil_subset _)) (List.Subset.refl _)
      (rfl : (Act.suspend .empty (.add1 (.add1 .zero))).perform .empty = _)
  have code := suspended.build (p := .closure (.code .empty "k" (.lam "r" (.add1 (.var "r"))))) rfl
    (by simp [Piece.parts])
  have step := code.build (p := .value countingStep) rfl (by simp [countingStep, Piece.parts])
  have atHand := (step.build (p := .value .zero) rfl (List.nil_subset _)).build (p := .value .nat) rfl
    (List.nil_subset _)
  have spine : Spine .nat delayedTwo Session.empty.allocate _ _ :=
    .layer (k := 9) rfl rfl (.layer (k := 9) rfl rfl (.last (k := 9) rfl))
  refine ⟨_, _, _, _, atHand, spine, rfl, ?_, ?_, rfl⟩
  · refine ((recursors_compute_folds (m := .nat) atHand ?_ ?_ ?_ ?_ ?_).1 spine).2.1 <;> simp
  · refine ((recursors_compute_folds (o := none) atHand ?_ ?_ ?_ ?_ ?_).1 spine).2.2.1 <;> simp

end TypeKernel
