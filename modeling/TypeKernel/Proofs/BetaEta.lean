/-
# TypeKernel.Proofs.BetaEta — the laws of functions and pairs

Evaluation works with environments and read-back with types, and neither mentions the laws of the λ-calculus.
They hold all the same, for all expressions, typed or not.

* β: a function applied to an operand has the normal form of its body with the operand put in
  (`normalForm_beta`). Either side may fail where the other does not, as an operand that is put in brings its
  annotation along.
* η: a value is the same as the function that applies it, at a `Π`, and as the pair of its projections, at a
  `Σ`. At `Trivial` all values are the same, and at `Absurd` all that can be read back (`convert_eta`). Where
  the parameter cannot be named, because its name in use has too long a subscript, the comparison fails.

In each case one side lags behind the other (`Lags`). The redex has the operand as an entry where its
contraction has the operand itself. The expansion of a value evaluates it under one more binder, or later.
-/
import TypeKernel.Proofs.LaggingReadBack
import TypeKernel.Proofs.OtherNames

namespace TypeKernel

set_option autoImplicit false

open Machine

/-! ## Closed contexts do not lag behind themselves -/

/-- Each variable stands for itself. -/
def Placing.self : Placing :=
  fun a z => a = .var z

/-- A cheap expression has its value at once. -/
theorem Env.later?_cases {ρ : Env} {e : Expr} {w : Value} (h : ρ.later? e = some w) :
    w = .delayed 0 ρ e ∨ run 1 (.eval ρ e) = (.ok w : ByName Value) := by
  cases e with
  | var x => exact .inr (Eval.later_of_later? h 0)
  | quote a | const c => cases h; exact .inr rfl
  | _ => cases h; exact .inl rfl

namespace Context

variable {Γ : Context} {slack : Slack} {n : Nat} {e : Expr} {v w : Value}

theorem Encloses.trails (h : Γ.Encloses v) : Trails slack Γ.own v v :=
  TypeKernel.Matches.lags (K := .within (· ∈ Γ.names)) id (fun _ _ hx => hx) (fun _ _ _ hx => hx) h

namespace Closed

theorem meets (h : Γ.Closed) : Meets slack Γ.own .self Γ.env Γ.env := by
  have meets : Meets slack Γ.own ((Correspondence.within (· ∈ Γ.names)).pairing Γ.env Γ.env).placing Γ.env
      Γ.env := TypeKernel.Matches.lags id (fun _ _ hx => hx) (fun _ _ _ hx => hx) h
  refine meets.narrow nofun ?_
  rintro _ x rfl
  exact ⟨x, rfl, TypeKernel.Matches.pairing (fun _ _ hx => hx) rfl h x⟩

theorem entry (h : Γ.Closed) {x : Name} (hw : Γ.env.get? x = some w) : Trails slack Γ.own w w :=
  h.meets.entries (.var x) x w w rfl hw hw

theorem brings (h : Γ.Closed) (n : Nat) (e : Expr) :
    Brings slack (Trails slack Γ.own) (run n (.eval Γ.env e)) fun i => run i (.eval Γ.env e) :=
  (keeps slack Γ.own n).answers (.eval h.meets (.refl e fun _ _ => rfl))

end Closed

theorem own_fits_self {strict : Prop} : Γ.own.Fits strict Γ.names Γ.names :=
  own_fits (List.Subset.refl _) (List.Subset.refl _) fun _ => rfl

end Context

/-! ## β -/

theorem Expr.Clad.strip {t c a : Expr} (h : Expr.Clad (.the t c) a) : Expr.Clad c a := by
  induction h with
  | bare => exact .the t (.bare c)
  | the t' _ ih => exact .the t' ih

/-- Under β the sides name binders apart, and either may fail alone. -/
def Slack.beta : Slack :=
  ⟨True, False⟩

/-- The operand stands for the parameter, with or without the annotations around it. -/
def Placing.operand (x : Name) (a : Expr) : Placing :=
  fun e z => z = x ∧ Expr.Clad e a ∨ z ≠ x ∧ e = .var z

namespace Context.Closed

variable {Γ : Context} (h : Γ.Closed) {x : Name} {a e : Expr} {w arg : Value}

include h

theorem operand_trails (hc : Expr.Clad e a) (hw : Γ.env.later? e = some w)
    (harg : Γ.env.later? a = some arg) : Trails .beta Γ.own w arg := by
  cases hc with
  | bare =>
      obtain ⟨_, same, related⟩ := h.meets.later? (.refl a fun _ _ => rfl) hw
      cases same.symm.trans harg
      exact related
  | the t hc =>
      cases harg
      rcases Env.later?_cases hw with rfl | here
      · have meets : Meets .beta Γ.own .self Γ.env Γ.env := h.meets
        exact .delayed .self meets.bares meets.entries meets.bound (.refl e fun _ _ => rfl) (.the t hc)
      · exact ((h.brings 1 e).clad (.the t hc)).late here 0

theorem operand (harg : Γ.env.later? a = some arg) :
    Meets .beta Γ.own (.operand x a) Γ.env (Γ.env.extend x arg) where
  bares := by
    rintro t c z (⟨rfl, hc⟩ | ⟨-, hc⟩)
    · exact ⟨trivial, .inl ⟨rfl, hc.strip⟩⟩
    · cases hc
  entries := by
    rintro e z w w' (⟨rfl, hc⟩ | ⟨hz, rfl⟩) hw hw'
    · cases (Env.get?_extend_self Γ.env z arg).symm.trans hw'
      exact h.operand_trails hc hw harg
    · cases hw.symm.trans ((Env.get?_extend_of_ne Γ.env arg (Ne.symm hz)).symm.trans hw')
      exact h.entry hw
  bound := by
    rintro e z (⟨rfl, -⟩ | ⟨hz, rfl⟩) he
    · rw [Env.get?_extend_self]
      rfl
    · rw [Env.get?_extend_of_ne _ _ (Ne.symm hz)]
      exact he

end Context.Closed

/-- A redex is evaluated as the body of the function, with the operand as a new entry. -/
theorem run_redex {ρ : Env} {x : Name} {b a : Expr} {i : Nat} {w : Value}
    (h : run i (.eval ρ (.app (.lam x b) a)) = (.ok w : ByName Value)) :
    ∃ arg j, ρ.later? a = some arg ∧ run j (.eval (ρ.extend x arg) b) = (.ok w : ByName Value) := by
  cases i with
  | zero => cases h
  | succ i =>
      obtain ⟨f, hf, h⟩ := Returns.bind (m := ByName) h
      cases i with
      | zero => cases hf
      | succ i =>
          cases Returns.pure_eq (m := ByName) hf
          obtain ⟨arg, harg, h⟩ := Returns.bind (m := ByName) h
          exact ⟨arg, i, Eval.later?_of_later harg, h⟩

/-- The redex lags behind the body with the operand put in. -/
theorem Context.Closed.beta {Γ : Context} (h : Γ.Closed) (x : Name) (b a : Expr) (n : Nat) :
    Brings .beta (Trails .beta Γ.own) (run n (.eval Γ.env (b.replace x a))) fun i =>
      run i (.eval Γ.env (.app (.lam x b) a)) := by
  intro v hv
  refine ⟨fun i w hw => ?_, .inl trivial⟩
  obtain ⟨arg, j, harg, hw⟩ := run_redex hw
  have expands : Expands False (.operand x a) (b.replace x a) b := Expr.expands_subst b fun z _ => by
    by_cases hz : z = x
    · exact .inl ⟨hz, by simpa [hz] using .bare a⟩
    · exact .inr ⟨hz, by simp [hz]⟩
  exact ((keeps .beta Γ.own n).answers (.eval (h.operand harg) expands) v hv).1 j w hw

theorem Enclosed.normalForm_byName {K : Correspondence} {Γ Γ' : Context} {vs : List Value} {s s₁ s' : Session}
    {ps : List Piece} {T T' : Value} {n : Nat} {e r : Expr} (en : Enclosed K Γ vs Γ')
    (rem : Remembers K s) (mT : Both K T T') (later : History s (Γ.atHand vs) s₁ ps)
    (h : (normalForm n Γ T e : ByNeed Expr) s₁ = .ok r s') :
    ∃ M, normalForm M Γ' T' e = (.ok r : ByName Expr) := by
  obtain ⟨K₁, le, rem₁, -⟩ := later.held rem (en.held rem)
  obtain ⟨_, _, _, _, rfl, M, returns⟩ :=
    (byNeed_normalForm rem₁.exact (en.context.mono le) (mT.mono le) n e s₁ rem₁).ok h
  exact ⟨M, returns M (Nat.le_refl M)⟩

/-- A redex and its contraction have α-equivalent normal forms, at any type, if both have one. The expressions
need not be typed. -/
theorem normalForm_beta {Γ : Context} {s : Session} {vs : List Value} (hΓ : Composed Γ s vs) {T : Value}
    (hT : T ∈ vs) {x : Name} {b a : Expr} {n₁ n₂ : Nat} {s₁ s₂ s₁' s₂' : Session} {ps₁ ps₂ : List Piece}
    (later₁ : History s (Γ.atHand vs) s₁ ps₁) (later₂ : History s (Γ.atHand vs) s₂ ps₂) {r₁ r₂ : Expr}
    (h₁ : (normalForm n₁ Γ T (.app (.lam x b) a) : ByNeed Expr) s₁ = .ok r₁ s₁')
    (h₂ : (normalForm n₂ Γ T (b.replace x a) : ByNeed Expr) s₂ = .ok r₂ s₂') :
    r₁.alphaEquiv r₂ = some true := by
  obtain ⟨K, Γ', rem, en⟩ := hΓ.enclosed
  obtain ⟨T', mT, wT⟩ := en.values T hT
  obtain ⟨M₁, h₁⟩ := en.normalForm_byName rem mT later₁ h₁
  obtain ⟨M₂, h₂⟩ := en.normalForm_byName rem mT later₂ h₂
  have along : Brings .beta (Transcribed False Γ'.own Γ' Γ') (normalForm M₂ Γ' T' (b.replace x a)) fun i =>
      normalForm i Γ' T' (.app (.lam x b) a) :=
    .bind (en.closed.beta x b a M₂) fun _ _ hv =>
      reads_along .beta M₂ Context.own_fits_self (.value wT.trails hv)
  have same : r₂.alphaEquiv r₁ = some true :=
    ((along r₂ h₂).1 M₁ r₁ h₁).alphaEquiv_of_eq Context.own_eq (normalForm_known h₂)
  exact Expr.alphaEquiv_of_nameless_eq (normalForm_known h₁) (Expr.nameless_eq_of_alphaEquiv same).symm

/-- The operand `y` is put below a binder of that name. -/
theorem normalForm_redex_with_clash : ∃ Γ s s₁ s₂ vs T r₁ r₂, Composed Γ s vs ∧ T ∈ vs ∧
    (normalForm 9 Γ T (.app (.lam "x" (.lam "y" (.var "x"))) (.var "y")) : ByNeed Expr) s = .ok r₁ s₁ ∧
    (normalForm 9 Γ T (Expr.replace (.lam "y" (.var "x")) "x" (.var "y")) : ByNeed Expr) s = .ok r₂ s₂ ∧
    r₁.alphaEquiv r₂ = some true := by
  have replaced : Expr.replace (.lam "y" (.var "x")) "x" (.var "y") = .lam "y₁" (.var "y") := by rfl
  have redex : (normalForm 9 (Context.empty.bindFree "y" .nat)
      (natFunctions (Context.empty.bindFree "y" .nat).env) (.app (.lam "x" (.lam "y" (.var "x"))) (.var "y")) :
        ByNeed Expr) .empty = .ok (.lam "y₁" (.var "y")) .empty := rfl
  have contracted : (normalForm 9 (Context.empty.bindFree "y" .nat)
      (natFunctions (Context.empty.bindFree "y" .nat).env) (Expr.replace (.lam "y" (.var "x")) "x" (.var "y")) :
        ByNeed Expr) .empty = .ok (.lam "y₁" (.var "y")) .empty := replaced ▸ rfl
  exact ⟨_, _, _, _, _, _, _, _, composed_variable "y", .head _, redex, contracted,
    normalForm_beta (composed_variable "y") (.head _) .start .start redex contracted⟩

/-! ## η -/

/-- Under the law of functions the sides name the parameter apart. -/
def Slack.expansion : Slack :=
  ⟨False, False⟩

/-- Under the law of pairs the sides have all names in common. -/
def Slack.projections : Slack :=
  ⟨False, True⟩

namespace Context.Closed

variable {Γ : Context} (h : Γ.Closed) {slack : Slack} {V : Pairing} {n k : Nat} {y : Name} {e : Expr}
  {v f a arg arg' : Value}

include h

theorem apart (hV : ∀ x x', Γ.own x x' → V x x') (y : Name) (u : Value) :
    Meets slack V (fun a z => a = .var z ∧ z ≠ y) Γ.env (Γ.env.extend y u) where
  bares := nofun
  entries := by
    rintro _ z w w' ⟨rfl, hz⟩ hw hw'
    cases hw.symm.trans ((Env.get?_extend_of_ne Γ.env u (Ne.symm hz)).symm.trans hw')
    exact (h.entry hw).mono hV
  bound := by
    rintro _ z ⟨rfl, hz⟩ hw
    rw [Env.get?_extend_of_ne _ _ (Ne.symm hz)]
    exact hw

/-- The function that applies `e` to its parameter is called as `e` is. -/
theorem call_expansion (hV : ∀ x x', Γ.own x x' → V x x') (hy : y ∉ e.freeNames)
    (hv : run k (.eval Γ.env e) = (.ok v : ByName Value)) (hf : run n (.force v) = (.ok f : ByName Value))
    (ha : Trails slack V arg arg') :
    Brings slack (Trails slack V) (Eval.call (run n) f arg) fun i =>
      Eval.call (run i) (.lam y (.code Γ.env y (.app e (.var y)))) arg' := by
  have below : Brings slack (Trails slack V) (run k (.eval Γ.env e)) fun i =>
      run i (.eval (Γ.env.extend y arg') e) :=
    (keeps slack V k).answers (.eval (h.apart hV y arg') (.refl e fun x hx => ⟨rfl, fun heq => hy (heq ▸ hx)⟩))
  obtain ⟨values, ends⟩ := below v hv
  have found : (Γ.env.extend y arg').later? (.var y) = some arg' := Env.get?_extend_self _ _ _
  have body : Brings slack (Trails slack V) (Eval.call (run n) f arg) fun i =>
      Eval.evaluate (run i) (Γ.env.extend y arg') (.app e (.var y)) := by
    -- The right side evaluates `e` once more and finds the argument.
    refine .rightFirst (ends.imp_right fun ends => ends.imp fun _ _ => trivial) fun i g hg => ?_
    refine .rightFirst (.inr ((Eval.later_reaches found).imp fun _ _ => trivial)) fun _ u hu => ?_
    cases found.symm.trans (Eval.later?_of_later hu)
    exact (keeps slack V n).call ((values i g hg).forced hf) ha
  have runs : Brings slack (Trails slack V) (Eval.call (run n) f arg) fun i =>
      run i (.eval (Γ.env.extend y arg') (.app e (.var y))) := body.succ nofun fun _ => rfl
  exact runs.succ nofun fun _ => rfl

theorem project_later {p : Projection} (hv : run k (.eval Γ.env e) = (.ok v : ByName Value))
    (ha : Eval.project (run n) p v = (.ok a : ByName Value)) :
    Trails slack Γ.own a (.delayed 0 Γ.env (.proj p e)) := by
  have along : Brings slack (Trails slack Γ.own) (run k (.eval Γ.env e) >>= Eval.project (run n) p) fun i =>
      Eval.evaluate (run i) Γ.env (.proj p e) :=
    .bind (h.brings k e) fun _ _ hv => (keeps slack Γ.own n).project p hv
  have runs : Brings slack (Trails slack Γ.own) (run k (.eval Γ.env e) >>= Eval.project (run n) p) fun i =>
      run i (.eval Γ.env (.proj p e)) := along.succ nofun fun _ => rfl
  exact runs.late ((ByName.bind_ok hv).trans ha) 0

end Context.Closed

section ByName

variable {Γ : Context} {slack : Slack} {n k : Nat} {T A v w : Value} {e f : Expr}

theorem Context.Encloses.along_form (wT : Γ.Encloses T) (hT : Forces T A)
    (element : ∀ m A', Formed slack Γ.own A A' →
      Brings slack (Transcribed slack.strict Γ.own Γ Γ) (ReadBack.readElement (run m) (readings m) Γ v A) fun i =>
        ReadBack.readElement (run i) (readings i) Γ w A') :
    Brings slack (Transcribed slack.strict Γ.own Γ Γ) (readBack n Γ T v) fun i => readBack i Γ T w := by
  cases n with
  | zero => exact .leftFails
  | succ n =>
      have forced := (keeps slack Γ.own n).forces wT.trails
      refine .succ (.bindOf forced fun B B' hB formed => ?_) nofun fun _ => rfl
      cases hT.symm.trans (answer_of_run hB)
      exact element n B' formed

/-- At a `Π`, a value reads back as the function that applies it, if the sides may name the parameter apart. -/
theorem Context.Closed.along_expansion (h : Γ.Closed) (apart : ¬ slack.strict) (wT : Γ.Encloses T) {x : Name} {d : Value}
    {r : Closure} (hT : Forces T (.pi x d r)) {y : Name} (hy : y ∉ e.freeNames)
    (hv : run k (.eval Γ.env e) = (.ok v : ByName Value)) :
    Brings slack (Transcribed slack.strict Γ.own Γ Γ) (readBack n Γ T v) fun i =>
      readBack i Γ T (.lam y (.code Γ.env y (.app e (.var y)))) := by
  refine wT.along_form hT fun m A' formed => ?_
  cases formed with
  | quant _ _ hd hr =>
      have there : Brings slack (fun _ g => g = .lam y (.code Γ.env y (.app e (.var y))))
          (run m (.force v)) fun i => run i (.force (.lam y (.code Γ.env y (.app e (.var y))))) :=
        .succ (.of_ok fun _ _ => rfl) nofun fun _ => rfl
      -- The two functions suggest different names for the parameter, and each side chooses its own.
      refine .bindOf there fun f g hf heq => ?_
      subst heq
      refine .bind (.freshName slack fun strict => (apart strict).elim) fun z z' hz => ?_
      exact ReadBack.along_function (reads_along slack m) own_fits_self hd hr hz
        (h.call_expansion (fun _ _ hx => own_fits_self.le_under hz hx) hy hv hf
          (.ofVar own_fits_self hz hd))

theorem Context.Closed.along_projections (h : Γ.Closed) (wT : Γ.Encloses T) {x : Name} {d : Value}
    {r : Closure} (hT : Forces T (.sigma x d r)) (hv : run k (.eval Γ.env e) = (.ok v : ByName Value)) :
    Brings slack (Transcribed slack.strict Γ.own Γ Γ) (readBack n Γ T v) fun i =>
      readBack i Γ T (.cons (.delayed 0 Γ.env (.proj .car e)) (.delayed 0 Γ.env (.proj .cdr e))) := by
  refine wT.along_form hT fun m A' formed => ?_
  cases formed with
  | quant _ _ hd hr =>
      refine ReadBack.along_pair (reads_along slack m) own_fits_self hd hr ?_ ?_
      · exact .succ (.of_ok fun a ha => h.project_later (p := .car) hv ha) nofun fun _ => rfl
      · exact .succ (.of_ok fun a ha => h.project_later (p := .cdr) hv ha) nofun fun _ => rfl

/-- If two expressions read back alike and one of them has a normal form, their comparison succeeds. -/
theorem Context.Closed.reaches_verdict (h : Γ.Closed) (slack : Slack) (wT : Γ.Encloses T) (hw : Evals Γ.env f w)
    (tight : ¬ slack.loose) (along : ∀ v, run n (.eval Γ.env e) = (.ok v : ByName Value) →
      Brings slack (Transcribed slack.strict Γ.own Γ Γ) (readBack n Γ T v) fun i => readBack i Γ T w)
    {a : Expr} (ha : normalForm n Γ T e = (.ok a : ByName Expr)) :
    Reaches slack.strict (· = true) fun i => verdict i Γ T e f := by
  obtain ⟨v, hv, read⟩ := Returns.bind (m := ByName) ha
  have left : Reaches slack.strict (· = v) fun i => run i (.eval Γ.env e) :=
    .inl ⟨v, rfl, run_of_answer (answer_of_run hv)⟩
  have right : Reaches slack.strict (· = w) fun i => run i (.eval Γ.env f) :=
    .inl ⟨w, rfl, run_of_answer hw⟩
  have self : Trails slack Γ.own v v := (h.brings n e v hv).1 n v hv
  have again := (reads_along slack n own_fits_self (.value wT.trails self) a read).2.resolve_left tight
  have other := (along v hv a read).2.resolve_left tight
  refine left.bind fun _ hleft => right.bind fun _ hright => ?_
  subst hleft hright
  refine again.bind fun a₁ h₁ => other.bind fun b hb => ?_
  -- Both have been compared with the normal form that is known.
  have same : a₁.alphaEquiv b = some true := by
    rw [← h₁.alphaEquiv hb own_oneToOne]
    exact Expr.alphaEquiv_of_nameless_eq (normalForm_known ha) rfl
  rw [same]
  exact .pure rfl

theorem readBack_trivial (hT : Forces T .trivial) :
    ∃ N, ∀ i, N ≤ i → ∀ v, readBack i Γ T v = (.ok .sole : ByName Expr) := by
  obtain ⟨N, forced⟩ := run_of_answer hT
  refine ⟨N + 1, fun i hi v => ?_⟩
  obtain ⟨j, rfl⟩ : ∃ j, i = j + 1 := ⟨i - 1, by omega⟩
  exact ByName.bind_ok (forced j (by omega))

theorem readBack_absurd (hT : Forces T .absurd) {a : Expr}
    (h : readBack n Γ T v = (.ok a : ByName Expr)) : ∃ e, a = .the .absurd e := by
  cases n with
  | zero => cases h
  | succ n =>
      obtain ⟨A, hA, h⟩ := Returns.bind (m := ByName) h
      cases hT.symm.trans (answer_of_run hA)
      obtain ⟨u, -, h⟩ := Returns.bind (m := ByName) h
      cases u with
      | neutral B stuck =>
          obtain ⟨e, -, h⟩ := Returns.bind (m := ByName) h
          exact ⟨e, Returns.pure_eq (m := ByName) h⟩
      | _ => cases h

end ByName

/-! ## By need -/

/-- The computation gives something that satisfies `P`, in `s` and in every session that follows it. -/
def Endures {α : Type} (x : Nat → ByNeed α) (P : α → Prop) (s : Session) (ps : List Piece) : Prop :=
  ∃ N, ∀ s₁ ps₁, History s ps s₁ ps₁ → Gives Error.Never N x (fun a _ => P a) s₁

theorem Both.forces {K : Correspondence} {T T' A : Value} (mT : Both K T T') {s s' : Session}
    (rem : Remembers K s) {k : Nat} (h : (T.force k : ByNeed Value) s = .ok A s') :
    ∃ K' A', Both K' A A' ∧ Forces T' A' := by
  obtain ⟨K', A', _, _, mA, M, returns⟩ := (byNeed_run k (.force mT) s rem).ok h
  exact ⟨K', A', mA, answer_of_run (returns M (Nat.le_refl M))⟩

namespace Enclosed

variable {K : Correspondence} {Γ Γ' : Context} {vs : List Value} {s : Session} {T T' : Value}
  (en : Enclosed K Γ vs Γ') (rem : Remembers K s) (mT : Both K T T')

include en rem mT

/-- At a `Π`, an expression and its expansion are compared if there is room for names. -/
theorem recurs_expansion (hT : T ∈ vs) (wT : Γ'.Encloses T') {x : Name} {d : Value} {r : Closure}
    (forced : Forces T' (.pi x d r)) {e : Expr} {y : Name} (hy : y ∉ e.freeNames) :
    Recurs (Γ.HasRoom 0 (.value T :: Γ.pieces) [e, .lam y (.app e (.var y))]) (fun k => normalForm k Γ T e)
      (fun k => verdict k Γ T e (.lam y (.app e (.var y)))) (fun _ b => b = true) s (Γ.atHand vs) := by
  have atHand : .value T :: Γ.pieces ⊆ Γ.atHand vs :=
    List.cons_subset.2 ⟨Γ.value_mem_atHand hT, Γ.pieces_subset_atHand vs⟩
  refine .of_reaches rem (en.held rem) (fun n => byNeed_normalForm rem.exact en.context mT n e)
    (fun le hK n => byNeed_verdict hK (en.context.mono le) (mT.mono le) n e _) (fun n _ ha => ?_)
    fun rem' held _ room =>
      room.clear_verdict rem' (held.of_subset atHand) (List.subset_cons_self _ _) (· _ (.head _))
  exact en.closed.reaches_verdict .expansion wT (answer_of_run (n := 1) rfl) id
    (fun _ hv => en.closed.along_expansion id wT forced hy hv) ha

/-- At a `Σ`, both sides choose the same names, so that none is missing on one side alone. -/
theorem endures_projections (wT : Γ'.Encloses T') {x : Name} {d : Value} {r : Closure}
    (forced : Forces T' (.sigma x d r)) {n : Nat} {e a : Expr} {s₁ : Session}
    (ha : (normalForm n Γ T e : ByNeed Expr) s = .ok a s₁) :
    Endures (fun k => verdict k Γ T e (.cons (.proj .car e) (.proj .cdr e))) (· = true) s (Γ.atHand vs) := by
  obtain ⟨_, _, _, _, rfl, M, returns⟩ := (byNeed_normalForm rem.exact en.context mT n e s rem).ok ha
  have reaches : Reaches True (· = true) fun i => verdict i Γ' T' e (.cons (.proj .car e) (.proj .cdr e)) :=
    en.closed.reaches_verdict .projections wT (answer_of_run (n := 1) rfl) id
      (fun _ hv => en.closed.along_projections wT forced hv) (returns M (Nat.le_refl M))
  obtain ⟨N, attains⟩ := reaches.attains (F := Error.Never) fun apart => (apart trivial).elim
  refine ⟨N, fun s₁ ps₁ later => ?_⟩
  obtain ⟨K₁, le, rem₁, -⟩ := later.held rem (en.held rem)
  have verdicts : Attains Error.Never N K₁ (fun k => verdict k Γ T e (.cons (.proj .car e) (.proj .cdr e)))
      fun _ b => ∃ c, c = true ∧ b = c :=
    attains fun n => byNeed_verdict rem₁.exact (en.context.mono le) (mT.mono le) n e _
  refine verdicts.gives rem₁ fun _ b _ _ _ hb => ?_
  obtain ⟨_, verdict, rfl⟩ := hb
  exact verdict

/-- What is the same by name from some number of steps on is the same by need. -/
theorem endures_convert {v v' w w' : Value} (mv : Both K v v') (mw : Both K w w') {N : Nat}
    (same : ∀ i, N ≤ i → convert i Γ' T' v' w' = (.ok true : ByName Bool)) :
    Endures (fun k => convert k Γ T v w) (· = true) s (Γ.atHand vs) := by
  refine ⟨N, fun s₁ ps₁ later => ?_⟩
  obtain ⟨K₁, le, rem₁, -⟩ := later.held rem (en.held rem)
  have attains : Attains Error.Never N K₁ (fun k => convert k Γ T v w) fun _ b => b = true :=
    .of_rel (fun n => byNeed_convert (n := n) rem₁.exact (en.context.mono le) (mT.mono le) (mv.mono le)
      (mw.mono le)) fun i hi => .inl (same i hi)
  exact attains.gives rem₁ fun _ _ _ _ _ hb => hb

theorem endures_trivial (hT : Forces T' .trivial) {v w : Value} (hv : v ∈ vs) (hw : w ∈ vs) :
    Endures (fun k => convert k Γ T v w) (· = true) s (Γ.atHand vs) := by
  obtain ⟨v', mv, -⟩ := en.values v hv
  obtain ⟨w', mw, -⟩ := en.values w hw
  obtain ⟨N, reads⟩ := readBack_trivial (Γ := Γ') hT
  refine en.endures_convert rem mT mv mw (N := N) fun i hi => ?_
  exact (ByName.bind_ok (reads i hi v')).trans (ByName.bind_ok (reads i hi w'))

theorem endures_absurd (hT : Forces T' .absurd) {v w : Value} (hv : v ∈ vs) (hw : w ∈ vs) {n m : Nat}
    {a b : Expr} {s₁ s₂ : Session} (ha : (readBack n Γ T v : ByNeed Expr) s = .ok a s₁)
    (hb : (readBack m Γ T w : ByNeed Expr) s = .ok b s₂) :
    Endures (fun k => convert k Γ T v w) (· = true) s (Γ.atHand vs) := by
  obtain ⟨v', mv, -⟩ := en.values v hv
  obtain ⟨w', mw, -⟩ := en.values w hw
  obtain ⟨_, _, _, _, rfl, M₁, reads₁⟩ :=
    (byNeed_readings n rem.exact en.context.names (.value mT mv) s rem).ok ha
  obtain ⟨_, _, _, _, rfl, M₂, reads₂⟩ :=
    (byNeed_readings m rem.exact en.context.names (.value mT mw) s rem).ok hb
  obtain ⟨e, rfl⟩ := readBack_absurd hT (reads₁ M₁ (Nat.le_refl M₁))
  obtain ⟨f, rfl⟩ := readBack_absurd hT (reads₂ M₂ (Nat.le_refl M₂))
  refine en.endures_convert rem mT mv mw (N := max M₁ M₂) fun i hi => ?_
  exact (ByName.bind_ok (reads₁ i (by omega))).trans (ByName.bind_ok (reads₂ i (by omega)))

end Enclosed

end TypeKernel
