/-
# TypeKernel.Proofs.OtherNames — normal forms do not depend on names

Reading back chooses names for binders, after the names that the expression has and apart from those that the
context uses. Neither matters. Expressions that differ only in the names of binders have normal forms that
differ only in these (`normalForm_invariant_under_renaming`), and so have values that are read back in a
context with more names (`readBack_invariant_under_weakening`). Nothing has to be typed for this. Comparisons
of values and of types thus have the same verdict.

As in checking this needs room for names. Where a name in use has a subscript that is too long, a binder cannot
be named after it, and reading back fails that would have succeeded with another name.
-/
import TypeKernel.Proofs.Composed
import TypeKernel.Proofs.Memoization
import TypeKernel.Proofs.Rechecking

namespace TypeKernel

set_option autoImplicit false

open Machine

/-- Whether two expressions have the same value at a type. -/
def verdict {m : Type → Type} [Machine m] (n : Nat) (Γ : Context) (T : Value) (e f : Expr) : m Bool := do
  let v ← Γ.env.eval n e
  let w ← Γ.env.eval n f
  convert n Γ T v w

/-- Whether two expressions are the same type. -/
def typeVerdict {m : Type → Type} [Machine m] (n : Nat) (Γ : Context) (e f : Expr) : m Bool := do
  let v ← Γ.env.eval n e
  let w ← Γ.env.eval n f
  sameType n Γ v w

/-! ## One run tracks another -/

namespace Tracking

variable {m : Type → Type} [Machine m] {L : Tracking m} {n b : Nat} {K : Correspondence} {V : Pairing}
  {Γ Γ' : Context} {T T' : Value} {e e' f f' : Expr} (fr : L.Frame n b K V Γ Γ')
  (env : Matches K (.env Γ.env) (.env Γ'.env)) (hT : Both K T T') (he : K.Code (K.pairing Γ.env Γ'.env) e e')

include fr env hT he

theorem normalForm : L.rel n b b K (L.Written b V Γ Γ') (normalForm n Γ T e) fun i =>
    TypeKernel.normalForm i Γ' T' e' :=
  L.bind (L.ask (.eval env he)) fun _ _ _ g hv => readBack (fr.grows g) (hT.mono g.le) hv

theorem verdict (hf : K.Code (K.pairing Γ.env Γ'.env) f f') :
    L.rel n b b K (fun _ => Eq) (verdict n Γ T e f) fun i => TypeKernel.verdict i Γ' T' e' f' := by
  refine L.bind (L.ask (.eval env he)) fun K₁ v v' g₁ hv => ?_
  refine L.bind (L.ask (.eval (env.mono g₁.le) (hf.weaken env g₁.le))) fun K₂ w w' g₂ hw => ?_
  exact convert ((fr.grows g₁).grows g₂) ((hT.mono g₁.le).mono g₂.le) (hv.mono g₂.le) hw

end Tracking

namespace Context.HasRoom

variable {Γ : Context} {n : Nat} {ps : List Piece} {K : Correspondence} {s : Session} {T : Value} {e f : Expr}
  (rem : Remembers K s) (held : Held K ps) (hΓ : Γ.pieces ⊆ ps) (hT : ∀ {J}, Held J ps → Both J T T.erase)

include rem held hΓ hT

theorem clear_normalForm (room : Γ.HasRoom 0 ps [e] n) : Clear (normalForm n Γ T e) s :=
  room.clear rem held fun spacious held' =>
    have meets := spacious.meets (held'.of_subset hΓ)
    Tracking.normalForm meets.toFrame meets.env (hT held') (spacious.code (room.code e (.head _)) meets.env)

theorem clear_verdict (room : Γ.HasRoom 0 ps [e, f] n) : Clear (verdict n Γ T e f) s :=
  room.clear rem held fun spacious held' =>
    have meets := spacious.meets (held'.of_subset hΓ)
    Tracking.verdict meets.toFrame meets.env (hT held') (spacious.code (room.code e (.head _)) meets.env)
      (spacious.code (room.code f (.tail _ (.head _))) meets.env)

end Context.HasRoom

/-! ## By name -/

namespace Context

variable {Γ Δ Δ' : Context}

/-- Binders may have any names, and the names of the context are free. -/
abbrev variation (Γ : Context) : Correspondence :=
  .varied (· ∈ Γ.names) none

theorem Encloses.alike {v : Value} (h : Γ.Encloses v) : Both Γ.variation v v :=
  TypeKernel.Matches.mono h (Correspondence.within_le_varied _ _)

/-- Two contexts that have the names of `Γ`, and maybe others. -/
theorem own_frame (left : Γ.names ⊆ Δ.names) (right : Γ.names ⊆ Δ'.names) {n : Nat} :
    Tracking.byName.Frame n 0 Γ.variation Γ.own Δ Δ' where
  fits := own_fits left right False.elim
  names _ _ hx := hx
  room := .untracked rfl

theorem Closed.env_alike (h : Γ.Closed) : TypeKernel.Matches Γ.variation (.env Γ.env) (.env Γ.env) :=
  TypeKernel.Matches.mono h (Correspondence.within_le_varied _ _)

/-- In a closed context, expressions that differ in the names of binders are evaluated alike. -/
theorem Closed.code_alike (h : Γ.Closed) {e e' : Expr} (same : e.SameUpToBinders e') :
    Γ.variation.Code (Γ.variation.pairing Γ.env Γ.env) e e' := by
  rw [← (Correspondence.within_le_varied (· ∈ Γ.names) none).pairing h]
  refine same.mono id (fun _ _ hx => hx) ?_
  rintro x _ rfl
  exact TypeKernel.Matches.pairing (fun _ _ hx => hx) rfl h x

end Context

section ByName

variable {Γ Δ Δ' : Context} {n : Nat} {T v w : Value} {e e' f f' : Expr}

theorem leads_normalForm (closed : Γ.Closed) (wT : Γ.Encloses T) (same : e.SameUpToBinders e') :
    Leads Γ.variation (Alike (Tracking.byName.Picked 0 Γ.names Γ.names) Γ.own) (normalForm n Γ T e)
      (fun i => normalForm i Γ T e') :=
  Tracking.normalForm (L := .byName) (Context.own_frame (List.Subset.refl _) (List.Subset.refl _))
    closed.env_alike wT.alike (closed.code_alike same)

theorem leads_verdict (closed : Γ.Closed) (wT : Γ.Encloses T) (same : e.SameUpToBinders e')
    (same' : f.SameUpToBinders f') :
    Leads Γ.variation Eq (verdict n Γ T e f) (fun i => verdict i Γ T e' f') :=
  Tracking.verdict (L := .byName) (Context.own_frame (List.Subset.refl _) (List.Subset.refl _))
    closed.env_alike wT.alike (closed.code_alike same) (closed.code_alike same')

theorem normalForm_known {a : Expr} (h : normalForm n Γ T e = (.ok a : ByName Expr)) : a.Known := by
  obtain ⟨v, -, read⟩ := Returns.bind (m := ByName) h
  exact Reads.known (Reads.of_readings read)

/-- In a closed context a result leads to one under other names. -/
theorem Leads.reaches {α β : Type} {R : α → β → Prop} {x : ByName α} {y : Nat → ByName β}
    (h : Leads Γ.variation R x y) {a : α} (ha : x = .ok a) : Reaches False (R a) y :=
  h (fun _ _ _ _ => trivial) id a ha

end ByName

/-! ## By need -/

theorem byNeed_verdict {K : Correspondence} (hK : K.Exact) {Γ Γ' : Context} (hΓ : Γ.Matches K Γ')
    {T T' : Value} (hT : Both K T T') (n : Nat) (e f : Expr) :
    (byNeed n).rel K Same (verdict n Γ T e f) fun i => verdict i Γ' T' e f := by
  refine byNeed_bind (byNeed_eval hK hΓ e) fun K₁ v v' le₁ hK₁ hv => ?_
  refine byNeed_bind (byNeed_eval hK₁ (hΓ.mono le₁) f) fun K₂ w w' le₂ hK₂ hw => ?_
  have le := le₁.trans le₂
  exact byNeed_convert hK₂ (hΓ.mono le) (hT.mono le) (hv.mono le₂) hw

/-- The names of the context are all that matters to a comparison. -/
theorem byNeed_convert_of_names {K : Correspondence} (hK : K.Exact) {Γ Γ' : Context}
    (names : Γ.names = Γ'.names) {T T' v v' w w' : Value} (hT : Both K T T') (hv : Both K v v')
    (hw : Both K w w') (n : Nat) :
    (byNeed n).rel K Same (convert n Γ T v w) fun i => convert i Γ' T' v' w' :=
  rel_byNeed (Tracking.convert (Tracking.byNeed_frame hK names) hT hv hw)

theorem Context.value_mem_atHand (Γ : Context) {vs : List Value} {v : Value} (hv : v ∈ vs) :
    .value v ∈ Γ.atHand vs :=
  List.mem_append_right _ (List.mem_map_of_mem hv)

theorem Context.pieces_subset_atHand (Γ : Context) (vs : List Value) : Γ.pieces ⊆ Γ.atHand vs :=
  List.subset_append_left _ _

namespace Enclosed

variable {K : Correspondence} {Γ Γ' : Context} {vs : List Value} {s : Session} {T T' : Value}
  {e e' f f' : Expr} {ps : List Piece} (en : Enclosed K Γ vs Γ') (rem : Remembers K s)
  (near : Γ.pieces ⊆ ps) (atHand : ps ⊆ Γ.atHand vs) (hT : ∀ {J}, Held J ps → Both J T T.erase)

include en rem near atHand hT

theorem recurs_normalForm (mT : Both K T T') (wT : Γ'.Encloses T') (same : e.SameUpToBinders e') :
    Recurs (Γ.HasRoom 0 ps [e']) (fun k => normalForm k Γ T e) (fun k => normalForm k Γ T e')
      (fun a b => a.alphaEquiv b = some true) s (Γ.atHand vs) := by
  refine .of_reaches rem (en.held rem) (fun n => byNeed_normalForm rem.exact en.context mT n e)
    (fun le hK n => byNeed_normalForm hK (en.context.mono le) (mT.mono le) n e') (fun n a ha => ?_)
    fun rem' held _ room => room.clear_normalForm rem' (held.of_subset atHand) near hT
  refine ((leads_normalForm en.closed wT same).reaches ha).imp fun b hb => ?_
  exact hb.alphaEquiv_of_eq Context.own_eq (normalForm_known ha)

theorem recurs_verdict (mT : Both K T T') (wT : Γ'.Encloses T') (same : e.SameUpToBinders e')
    (same' : f.SameUpToBinders f') :
    Recurs (Γ.HasRoom 0 ps [e', f']) (fun k => verdict k Γ T e f) (fun k => verdict k Γ T e' f') Eq s
      (Γ.atHand vs) :=
  .of_reaches rem (en.held rem) (fun n => byNeed_verdict rem.exact en.context mT n e f)
    (fun le hK n => byNeed_verdict hK (en.context.mono le) (mT.mono le) n e' f')
    (fun _ _ ha => (leads_verdict en.closed wT same same').reaches ha)
    fun rem' held _ room => room.clear_verdict rem' (held.of_subset atHand) near hT

end Enclosed

/-- A function that returns its argument after a detour, `(λ (z) (which-Nat (add1 z) 0 (λ (z) z)))`. -/
def detour : Expr :=
  .lam "z" (.fold .whichNat (.add1 (.var "z")) .zero (.lam "z" (.var "z")))

/-- The type `(Π ((y Nat)) Nat)` in an environment. -/
def natFunctions (ρ : Env) : Value :=
  .pi "y" .nat (.code ρ "y" .nat)

theorem natFunctions_named {count : Nat} (limit : count < 10 ^ Text.digitLimit) {ρ : Env}
    (hρ : Piece.Named (Text.Roomy count) (.env ρ)) :
    Piece.Named (Text.Roomy count) (.value (natFunctions ρ)) := by
  have plain := Text.roomy_of_plain limit (x := "y") (by decide)
  exact .quant .pi ⟨rfl, .inl plain⟩ (.const .nat) (.code ⟨rfl, .inl plain⟩ hρ (.const .nat))

/-- A context with one variable, and the type of functions on numbers. -/
theorem composed_variable (z : Name) : Composed (Context.empty.bindFree z .nat) .empty
    [natFunctions (Context.empty.bindFree z .nat).env, .nat] :=
  (((Composed.start .empty).eval (n := 9) (e := .nat) rfl).free z (.head _)).eval (n := 9)
    (e := .pi "y" .nat .nat) rfl

/-- A context with more bindings in front. -/
def Context.extendBy (Γ : Context) (more : List (Name × Binding)) : Context :=
  ⟨more ++ Γ.bindings⟩

theorem Context.names_extendBy (Γ : Context) (more : List (Name × Binding)) :
    (Γ.extendBy more).names = more.map Prod.fst ++ Γ.names :=
  List.map_append

theorem Reading.Matches.mono {K K' : Correspondence} {r r' : Reading} (h : r.Matches K r') (le : K.Le K') :
    r.Matches K' r' := by
  cases h with
  | value hA hv => exact .value (TypeKernel.Matches.mono hA le) (TypeKernel.Matches.mono hv le)
  | type hv => exact .type (TypeKernel.Matches.mono hv le)
  | neutral he => exact .neutral (TypeKernel.Matches.mono he le)

namespace Enclosed

-- Of the contexts `Δ` and `Θ` only the names matter, so the same contexts serve by name.
variable {K : Correspondence} {Γ Γ' Δ Θ : Context} {vs : List Value} {s : Session}
  {T T' v v' w w' : Value} (en : Enclosed K Γ vs Γ') (rem : Remembers K s) (left : Γ.names ⊆ Δ.names)
  (right : Γ.names ⊆ Θ.names)

include en left right in
theorem frame {n : Nat} : Tracking.byName.Frame n 0 Γ'.variation Γ'.own Δ Θ :=
  Context.own_frame (en.context.names ▸ left) (en.context.names ▸ right)

include en rem left right

theorem recurs_readings {r r' : Reading} (atHand : r.pieces ⊆ Γ.atHand vs) (mr : r.Matches K r')
    (wr : r'.Matches Γ'.variation r') :
    Recurs (Θ.HasRoom 0 r.pieces []) (fun k => readings k Δ r) (fun k => readings k Θ r)
      (fun a b => a.alphaEquiv b = some true) s (Γ.atHand vs) := by
  refine .of_reaches rem (en.held rem) (fun n => byNeed_readings n rem.exact rfl mr)
    (fun le hK n => byNeed_readings n hK rfl (mr.mono le)) (fun n a ha => ?_)
    fun rem' held _ room => room.clear_readings rem' (held.of_subset atHand) (List.Subset.refl _)
  have leads : Leads Γ'.variation (Alike (Tracking.byName.Picked 0 Δ.names Θ.names) Γ'.own)
      (readings n Δ r') (fun i => readings i Θ r') := Tracking.byName.readings n (en.frame left right) wr
  exact (leads.reaches ha).imp fun b hb =>
    hb.alphaEquiv_of_eq Context.own_eq (Reads.known (Reads.of_readings ha))

theorem recurs_convert {ps : List Piece} (atHand : ps ⊆ Γ.atHand vs)
    (hT : ∀ {J}, Held J ps → Both J T T.erase) (hv : .value v ∈ ps) (hw : .value w ∈ ps)
    (mT : Both K T T') (wT : Γ'.Encloses T') (mv : Both K v v') (wv : Γ'.Encloses v') (mw : Both K w w')
    (ww : Γ'.Encloses w') :
    Recurs (Θ.HasRoom 0 ps []) (fun k => convert k Δ T v w) (fun k => convert k Θ T v w) Eq s
      (Γ.atHand vs) := by
  refine .of_reaches rem (en.held rem) (byNeed_convert_of_names rem.exact rfl mT mv mw)
    (fun le hK => byNeed_convert_of_names hK rfl (mT.mono le) (mv.mono le) (mw.mono le)) (fun n a ha => ?_)
    fun rem' held _ room => room.clear_convert rem' (held.of_subset atHand) hT hv hw
  have leads : Leads Γ'.variation Eq (convert n Δ T' v' w') (fun i => convert i Θ T' v' w') :=
    Tracking.convert (L := .byName) (en.frame left right) wT.alike wv.alike ww.alike
  exact leads.reaches ha

end Enclosed

/-- A function cannot be read back if it suggests a name that is in use and has a subscript that is too long. -/
theorem not_readBack_overlongName {m : Type → Type} [Machine m] [Returning m] {Γ : Context}
    (h : overlongName ∈ Γ.names) {n : Nat} {x : Name} {d : Value} {r b : Closure} {e : Expr} :
    ¬ Returns (readBack n Γ (.pi x d r) (.lam overlongName b) : m Expr) e := by
  intro returns
  cases n with
  | zero => exact Returning.not_stop returns
  | succ n =>
      obtain ⟨A, forced, returns⟩ := returns.bind
      cases n with
      | zero => exact Returning.not_stop forced
      | succ n =>
          cases forced.pure_eq
          obtain ⟨f, forced, returns⟩ := returns.bind
          cases forced.pure_eq
          obtain ⟨y, fresh, -⟩ := returns.bind
          cases (fresh_overlongName h).symm.trans fresh.numeral

/-- With a fresh name to hand, a constant function reads back. -/
theorem readBack_constantly_zero {Γ : Context} {x y z : Name} (h : Γ.fresh x = .ok y) (ρ ρ' : Env)
    (s : Session) : ∃ s', (readBack 9 Γ (.pi z .nat (.code ρ z .nat)) (.lam x (.code ρ' x .zero)) :
      ByNeed Expr) s = .ok (.lam y .zero) s' := by
  have fresh : (freshName Γ x : ByNeed Name) = pure y := by
    unfold freshName
    rw [h]
    rfl
  -- The type and the function are forced first, then a name is chosen.
  obtain ⟨s₁, run⟩ : ∃ s₁, (readBack 9 Γ (.pi z .nat (.code ρ z .nat)) (.lam x (.code ρ' x .zero)) :
      ByNeed Expr) s = (freshName Γ x >>= fun y => do
        let result ← run 8 (.apply (.code ρ z .nat) (.ofVar y .nat))
        let body ← Eval.call (run 8) (.lam x (.code ρ' x .zero)) (.ofVar y .nat)
        let e ← readings 8 (Γ.bindFree y .nat) (.value result body)
        return .lam y e : ByNeed Expr) s₁ := ⟨_, rfl⟩
  rw [run, fresh]
  exact ⟨_, rfl⟩

theorem normalForm_constantly_zero {Γ : Context} {x y : Name} (h : Γ.fresh x = .ok y) (s : Session) :
    ∃ s', (normalForm 9 Γ (natFunctions Γ.env) (.lam x .zero) : ByNeed Expr) s = .ok (.lam y .zero) s' := by
  have evaluated : (Γ.env.eval 9 (.lam x .zero) : ByNeed Value) s = .ok (.lam x (.code Γ.env x .zero)) s := rfl
  obtain ⟨s', read⟩ := readBack_constantly_zero (z := "y") h Γ.env Γ.env s
  refine ⟨s', ?_⟩
  simp only [normalForm, bind, EStateM.bind, evaluated]
  exact read

theorem not_normalForm_overlongName {m : Type → Type} [Machine m] [Returning m] {Γ : Context}
    (h : overlongName ∈ Γ.names) {n : Nat} {ρ : Env} {b e : Expr} :
    ¬ Returns (normalForm n Γ (natFunctions ρ) (.lam overlongName b) : m Expr) e := by
  intro returns
  obtain ⟨v, evaluated, read⟩ := returns.bind
  cases n with
  | zero => exact Returning.not_stop evaluated
  | succ n =>
      have same := evaluated.pure_eq
      subst same
      exact not_readBack_overlongName h read

theorem y_notMem_overlongName : "y" ∉ (Context.empty.bindFree overlongName .nat).names := by
  intro here
  have same := congrArg String.toList (List.mem_singleton.1 here)
  simp [overlongName] at same

end TypeKernel
