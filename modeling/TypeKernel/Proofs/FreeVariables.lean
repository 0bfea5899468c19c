/-
# TypeKernel.Proofs.FreeVariables — evaluation depends only on free variables

Environments that agree on the free names of an expression give it the same value, as far as this can be
observed: reading it back has the same outcome. The values themselves are not the same, because delayed values
and closures capture the whole environment. So the two evaluations are run side by side, by name and with the
same bound on the steps (`parallel`), and compared under a correspondence in which nothing differs but the two
environments (`Correspondence.around`). All else matches itself.

A correspondence can tell its pair of environments from others only if they differ in size. If they do not, both
are compared with a third, in which an entry is repeated.
-/
import TypeKernel.Proofs.Composed
import TypeKernel.Proofs.Memoization
import TypeKernel.Proofs.OutOfReach

namespace TypeKernel

set_option autoImplicit false

open Machine

theorem Expr.notMem_freeNames {e : Expr} {x : Name} (h : e.occursFree x = some false) : x ∉ e.freeNames := by
  have under : ∀ {y : Name} {b : Expr}, (b.occursFree x = some false → x ∉ b.freeNames) →
      (if y = x then some false else b.occursFree x) = some false → x ∉ b.freeNames.filter (· ≠ y) := by
    intro y b ih h hx
    obtain ⟨hb, hne⟩ := List.mem_filter.1 hx
    rw [if_neg (Ne.symm (of_decide_eq_true hne))] at h
    exact ih h hb
  induction e with
  | var y =>
      have hne : y ≠ x := by simpa [occursFree] using h
      simpa [freeNames] using hne.symm
  | quote _ | const _ | todo | malformed _ => simp [freeNames]
  | unary _ _ ih | proj _ _ ih => exact ih h
  | lam y b ih => exact under ih h
  | quant _ y _ _ ihd ihr =>
      simp only [occursFree, orSearch_eq_false] at h
      simpa only [freeNames, List.mem_append, not_or] using And.intro (ihd h.1) (under ihr h.2)
  | binary _ _ _ ih₁ ih₂ | the _ _ ih₁ ih₂ | app _ _ ih₁ ih₂ | indAbsurd _ _ ih₁ ih₂ | trans _ _ ih₁ ih₂
  | cong _ _ ih₁ ih₂ =>
      simp only [occursFree, orSearch_eq_false] at h
      simp only [freeNames, List.mem_append, not_or]
      exact ⟨ih₁ h.1, ih₂ h.2⟩
  | equal _ _ _ ih₁ ih₂ ih₃ | fold _ _ _ _ ih₁ ih₂ ih₃ | transport _ _ _ _ ih₁ ih₂ ih₃ =>
      simp only [occursFree, orSearch_eq_false] at h
      simp only [freeNames, List.mem_append, not_or]
      exact ⟨ih₁ h.1, ih₂ h.2.1, ih₃ h.2.2⟩
  | induct _ _ _ _ _ ih₁ ih₂ ih₃ ih₄ =>
      simp only [occursFree, orSearch_eq_false] at h
      simp only [freeNames, List.mem_append, not_or]
      exact ⟨ih₁ h.1, ih₂ h.2.1, ih₃ h.2.2.1, ih₄ h.2.2.2⟩
  | indVec _ _ _ _ _ ih₁ ih₂ ih₃ ih₄ ih₅ =>
      simp only [occursFree, orSearch_eq_false] at h
      simp only [freeNames, List.mem_append, not_or]
      exact ⟨ih₁ h.1, ih₂ h.2.1, ih₃ h.2.2.1, ih₄ h.2.2.2.1, ih₅ h.2.2.2.2⟩

/-! ## Everything matches itself -/

theorem Pairing.under_self {V : Pairing} (h : ∀ z, V z z) (x z : Name) : V.under x x z z := by
  by_cases hz : z = x
  · exact .inl ⟨hz, hz⟩
  · exact .inr ⟨hz, hz, h z⟩

mutual

theorem Value.within_all : (v : Value) → v.Within fun _ => True
  | .const c => .const c
  | .quote a => .quote a
  | .unary u v => .unary u v.within_all
  | .binary b v w => .binary b v.within_all w.within_all
  | .equal t l r => .equal t.within_all l.within_all r.within_all
  | .quant q _ d r => .quant q rfl d.within_all r.within_all
  | .lam _ b => .lam rfl b.within_all
  | .neutral t e => .neutral t.within_all e.within_all
  | .delayed _ ρ e =>
      have hρ := ρ.within_all
      .delayed trivial hρ (.refl (fun _ => rfl) e (hρ.pairing (fun _ _ h => h) rfl))

theorem Neutral.within_all : (e : Neutral) → Matches (.within fun _ => True) (.neutral e) (.neutral e)
  | .var _ => .var ⟨rfl, trivial⟩
  | .app f a => .app f.within_all a.within_all
  | .proj p t => .proj p t.within_all
  | .fold f t b s => .fold f t.within_all b.within_all s.within_all
  | .induct i t m b s => .induct i t.within_all m.within_all b.within_all s.within_all
  | .transport k t m b => .transport k t.within_all m.within_all b.within_all
  | .indAbsurd t m => .indAbsurd t.within_all m.within_all
  | .indVec n t m b s => .indVec n.within_all t.within_all m.within_all b.within_all s.within_all
  | .trans l r => .trans l.within_all r.within_all
  | .cong t f => .cong t.within_all f.within_all

theorem Typed.within_all : (t : Typed) → Matches (.within fun _ => True) (.typed t) (.typed t)
  | .mk t v => .typed t.within_all v.within_all

theorem Closure.within_all : (c : Closure) → c.Within fun _ => True
  | .code ρ _ b =>
      have hρ := ρ.within_all
      .code rfl hρ (.refl (fun _ => rfl) b (Pairing.under_self (hρ.pairing (fun _ _ h => h) rfl) _))
  | .family _ f => .family rfl f.within_all

theorem Family.within_all : (f : Family) → Matches (.within fun _ => True) (.family f) (.family f)
  | .always t => .always t.within_all
  | .fixed m v => .fixed m.within_all v.within_all
  | .fixedBoth m v w => .fixedBoth m.within_all v.within_all w.within_all
  | .wrapped u m => .wrapped u m.within_all
  | .natStep m => .natStep m.within_all
  | .listStep e m => .listStep e.within_all m.within_all
  | .listStepTail m v => .listStepTail m.within_all v.within_all
  | .vecMotive e => .vecMotive e.within_all
  | .vecStep e m => .vecStep e.within_all m.within_all
  | .vecStepHead e m n => .vecStepHead e.within_all m.within_all n.within_all
  | .vecStepTail m n v => .vecStepTail m.within_all n.within_all v.within_all
  | .equalMotive t l => .equalMotive t.within_all l.within_all

theorem Env.within_all : (ρ : Env) → ρ.Within fun _ => True
  | .empty => .empty
  | .extend ρ _ v => .extend rfl ρ.within_all v.within_all

end

/-! ## Runs side by side -/

/-- Outcomes by name that are both results, which `R` relates, or the same failure. -/
inductive Parallel {α β : Type} (R : α → β → Prop) : ByName α → ByName β → Prop
  | ok {a b} (h : R a b) : Parallel R (.ok a) (.ok b)
  | error (reason : Stop) : Parallel R (.error reason) (.error reason)

theorem Parallel.bind {α β γ δ : Type} {R : α → β → Prop} {S : γ → δ → Prop} {x : ByName α} {y : ByName β}
    {f : α → ByName γ} {g : β → ByName δ} (h : Parallel R x y) (hfg : ∀ a b, R a b → Parallel S (f a) (g b)) :
    Parallel S (x >>= f) (y >>= g) := by
  cases h with
  | ok h => exact hfg _ _ h
  | error reason => exact .error reason

theorem Parallel.eq {α : Type} {R : α → α → Prop} {x y : ByName α} (h : Parallel R x y)
    (hR : ∀ a b, R a b → a = b) : x = y := by
  cases h with
  | ok h => rw [hR _ _ h]
  | error reason => rfl

/-- A correspondence under which nothing differs but environments. -/
structure Correspondence.Even (K : Correspondence) : Prop where
  plain : K.Plain
  bare : ¬ K.annotated
  binders : ∀ x y, K.binders x y → x = y

/-- Runs by name with the same bound on the steps. -/
def parallel (n : Nat) : Simulation Nat ByName ByName where
  rel K R x y := K.Even → Parallel (R K) x (y n)
  pure h _ := .ok h
  bind h hfg even := (h even).bind fun a b hab => hfg _ a b (.refl _) hab even
  fail e _ _ := .error (.failed e)
  suspend hρ he even := .ok (.delayed (even.plain _ _ _ _) hρ he)
  leftFails _ _ ha even := (even.bare ha).elim
  rightAlone ha _ even := (even.bare ha).elim

theorem parallel_force {n : Nat} (h : (parallel n).Asks (run n) fun i => run i) {K : Correspondence}
    {v v' : Value} (hv : Both K v v') :
    (parallel n).rel K Both (Eval.force (run n) v) (fun i => Eval.force (run i) v') := by
  have itself := hv
  cases hv with
  | delayed _ hρ he =>
      simp only [Eval.force_delayed]
      exact (parallel n).bind (h (.eval hρ he)) fun _ _ _ _ hw => h (.force hw)
  | _ => exact (parallel n).pure itself

theorem parallel_run (n : Nat) : (parallel n).Asks (run n) fun i => run i := by
  induction n with
  | zero => exact fun _ _ _ _ _ => .error .exhausted
  | succ n ih => exact fun _ _ _ hr even => ih.step (parallel_force ih) (fun ha => (even.bare ha).elim) hr even

/-- Runs side by side choose the same names. -/
def Tracking.parallel : Tracking ByName where
  toNaming := .keeping none fun _ => True
  rel n _ _ := (TypeKernel.parallel n).rel
  pure := (TypeKernel.parallel _).pure
  bind h hfg even := (h even).bind fun a b hab =>
    hfg _ a b (.untracked rfl (.refl _) fun _ _ hx => hx) hab even
  fail := (TypeKernel.parallel _).fail
  suspend := (TypeKernel.parallel _).suspend
  leftFails := (TypeKernel.parallel _).leftFails
  rightAlone := (TypeKernel.parallel _).rightAlone
  ask hr := parallel_run _ hr
  lower h := h _ (.untracked rfl (.refl _) fun _ _ hx => hx)
  fresh := by
    intro n b K X X' x x' _ hX hx even
    cases hX trivial
    cases even.binders _ _ hx
    cases hy : freshAmong X x with
    | error d => exact .error _
    | ok y => exact .ok ⟨⟨freshAmong_notMem hy, freshAmong_notMem hy, fun _ => rfl⟩, .untracked rfl⟩
  scope _ h even := h ⟨even.plain, even.bare, even.binders⟩
  report _ _ _ := .ok trivial
  reject hr _ := hr trivial ▸ .error _
  exhausted hy _ := hy ▸ .error _
  succ h hy even := (hy _).symm ▸ h even

/-! ## Environments that agree -/

/-- Evaluate an expression, and read the value back at a type. -/
def Env.evalAndRead {m : Type → Type} [Machine m] (ρ : Env) (Γ : Context) (T : Value) (e : Expr) (n : Nat) :
    m Expr := do
  let v ← ρ.eval n e
  readBack n Γ T v

theorem Env.get?_erase : (ρ : Env) → (x : Name) → ρ.erase.get? x = (ρ.get? x).map Value.erase
  | .empty, _ => rfl
  | .extend ρ y v, x => by
      simp only [Env.erase, Env.get?]
      split
      · rfl
      · exact ρ.get?_erase x

/-- The environments have the same values for the names that may occur free in an expression, and none for the
same of them. -/
def Env.AgreeOn (ρ σ : Env) (e : Expr) : Prop :=
  ∀ x, e.occursFree x ≠ some false → ρ.get? x = σ.get? x

/-- Two environments of different sizes, with the names on which they agree. -/
def Env.beside (ρ σ : Env) (apart : ρ.size ≠ σ.size) : Outer where
  left := ρ
  right := σ
  pairs x x' := x = x' ∧ ρ.get? x = σ.get? x
  apart := apart
  alike := by
    rintro x _ ⟨rfl, hx⟩
    rw [hx]
    cases σ.get? x with
    | none => exact .inl ⟨rfl, rfl, rfl⟩
    | some v => exact .inr ⟨rfl, rfl⟩

/-- Nothing differs but a pair of environments. -/
def Correspondence.around (o : Outer) : Correspondence :=
  { Correspondence.within fun _ => True with outer := some o }

namespace Correspondence

theorem within_le_around (o : Outer) : (within fun _ => True).Le (around o) :=
  ⟨fun _ _ h => h, fun _ _ h => h, fun _ _ _ _ _ _ h => h, fun h => h, nofun⟩

theorem around_even (o : Outer) : (around o).Even :=
  ⟨fun _ _ _ _ => trivial, id, fun _ _ hx => hx⟩

theorem around_frame (o : Outer) (Γ : Context) (n : Nat) : Tracking.parallel.Frame n 0 (around o) Eq Γ Γ where
  fits := ⟨fun _ => rfl, fun _ _ _ hx => hx, fun hs => (hs trivial).elim, by rintro x _ y _ rfl rfl; rfl⟩
  names _ _ hx := hx.1
  room := .untracked rfl

end Correspondence

namespace Env

variable {ρ σ : Env} {e : Expr}

theorem matches_beside (apart : ρ.size ≠ σ.size) :
    Matches (.around (ρ.beside σ apart)) (.env ρ) (.env σ) := by
  refine .outer (K := .around (ρ.beside σ apart)) (o := ρ.beside σ apart) rfl ?_
  rintro x _ v v' ⟨rfl, hx⟩ hv hv'
  cases hv.symm.trans (hx.trans hv')
  exact v.within_all.mono (Correspondence.within_le_around _)

namespace AgreeOn

/-- Code that looks up only names on which the environments agree. -/
theorem code (h : ρ.AgreeOn σ e) (apart : ρ.size ≠ σ.size) :
    (Correspondence.around (ρ.beside σ apart)).Code
      ((Correspondence.around (ρ.beside σ apart)).pairing ρ σ) e e := by
  have pairs : (Correspondence.around (ρ.beside σ apart)).pairing ρ σ = (ρ.beside σ apart).pairs :=
    Correspondence.pairing_outer (o := ρ.beside σ apart) rfl
  rw [pairs]
  have itself : Resembles False Eq Eq e e := .refl (fun _ => rfl) e fun _ => rfl
  refine itself.narrow ?_
  rintro x _ rfl occurs
  exact ⟨rfl, h x occurs⟩

/-- The same outcome by name, in environments of different sizes. -/
theorem evalAndRead_of_apart (h : ρ.AgreeOn σ e) (apart : ρ.size ≠ σ.size) (Γ : Context) (T : Value) (n : Nat) :
    (ρ.evalAndRead Γ T e n : ByName Expr) = σ.evalAndRead Γ T e n := by
  have frame := Correspondence.around_frame (ρ.beside σ apart) Γ n
  have hT := T.within_all.mono (Correspondence.within_le_around (ρ.beside σ apart))
  have runs : Tracking.parallel.rel n 0 0 _ (Tracking.parallel.Written 0 Eq Γ Γ) (ρ.evalAndRead Γ T e n)
      fun i => σ.evalAndRead Γ T e i :=
    Tracking.parallel.bind (parallel_run n (.eval (matches_beside apart) (h.code apart)))
      fun K v v' grows hv => Tracking.parallel.readings n (frame.grows grows) (.value (hT.mono grows.le) hv)
  exact (runs (Correspondence.around_even _)).eq fun _ _ written => Tracking.Written.eq frame written trivial

/-- The same outcome by name. -/
theorem evalAndRead (h : ρ.AgreeOn σ e) (Γ : Context) (T : Value) (n : Nat) :
    (ρ.evalAndRead Γ T e n : ByName Expr) = σ.evalAndRead Γ T e n := by
  by_cases apart : ρ.size = σ.size
  · cases σ with
    | empty =>
        cases ρ with
        | empty => rfl
        | extend => cases apart
    | extend σ y v =>
        -- Its newest entry, entered again, sets an environment apart from both.
        have again : ∀ x, ((σ.extend y v).extend y v).get? x = (σ.extend y v).get? x := by
          intro x
          by_cases hx : y = x
          · subst hx
            rw [get?_extend_self, get?_extend_self]
          · rw [get?_extend_of_ne _ _ hx]
        have larger : (σ.extend y v).size ≠ ((σ.extend y v).extend y v).size :=
          Nat.ne_of_lt (Nat.lt_succ_self _)
        have first : ρ.AgreeOn ((σ.extend y v).extend y v) e := fun x hx => (h x hx).trans (again x).symm
        have second : (σ.extend y v).AgreeOn ((σ.extend y v).extend y v) e := fun x _ => (again x).symm
        rw [first.evalAndRead_of_apart (apart ▸ larger), second.evalAndRead_of_apart larger]
  · exact h.evalAndRead_of_apart apart Γ T n

theorem erase (h : ρ.AgreeOn σ e) : ρ.erase.AgreeOn σ.erase e := by
  intro x hx
  rw [ρ.get?_erase, σ.get?_erase, h x hx]

end AgreeOn

end Env

theorem byNeed_evalAndRead {K : Correspondence} (hK : K.Exact) {ρ : Env} {T : Value}
    (held : Held K [.env ρ, .value T]) (Γ : Context) (e : Expr) (n : Nat) :
    (byNeed n).rel K Same (ρ.evalAndRead Γ T e n) fun i => ρ.erase.evalAndRead Γ T.erase e i := by
  have request : (Request.eval ρ e).Matches K (.eval ρ.erase e) :=
    Held.request (r := .eval ρ e) hK (held.of_subset (List.cons_subset_cons _ (List.nil_subset _)))
  refine byNeed_bind (byNeed_run n request) fun K₁ v v' le hK₁ hv => ?_
  exact byNeed_readings n hK₁ rfl (.value (held.tail.head.mono le) hv)

/-- Evaluation depends only on free variables. In environments that agree on the names that occur free, an
expression has one outcome, whether this is a normal form or a failure, in all sessions in which both are at hand.
And if the parameter of a closure does not occur free in its body, neither applying it nor using the result looks
at the cell of the argument, or at any other that the closure does not refer to. -/
theorem evaluation_depends_on_free_names :
    (∀ {s₀ s : Session} {ps : List Piece}, History s₀ [] s ps → ∀ {ρ σ : Env} {T : Value},
      .env ρ ∈ ps → .env σ ∈ ps → .value T ∈ ps →
      ∀ e : Expr, ρ.AgreeOn σ e →
      ∀ {s₁ ps₁ s₂ ps₂}, History s ps s₁ ps₁ → History s ps s₂ ps₂ → ∀ Γ : Context,
        EndAlike (ρ.evalAndRead Γ T e) (σ.evalAndRead Γ T e) s₁ s₂) ∧
    ∀ {s : Session} {c : Nat} {ρ : Env} {x : Name} {b : Expr}, s.cells[c]? = some none →
      b.occursFree x = some false → ¬ s.Refers c (.closure (.code ρ x b)) → ∀ v n,
      Ignores c (Closure.apply n (.code ρ x b) v) s ∧
      ∀ w s', (Closure.apply n (.code ρ x b) v : ByNeed Value) s = .ok w s' → ∀ s₁, Uses c w s' s₁ →
        s₁.cells[c]? = some none ∧ (∀ k, Ignores c (w.force k) s₁) ∧
        ∀ k Γ T, ¬ s₁.Refers c (.value T) → Ignores c (readBack k Γ T w) s₁ := by
  constructor
  · intro s₀ s ps h ρ σ T hρ hσ hT e agree s₁ ps₁ s₂ ps₂ h₁ h₂ Γ
    obtain ⟨K, -, rem, held⟩ := h.held (.start s₀) (List.forall_mem_nil _)
    obtain ⟨K₁, le₁, rem₁, -⟩ := h₁.held rem held
    obtain ⟨K₂, le₂, rem₂, -⟩ := h₂.held rem held
    have holds : ∀ {τ : Env}, .env τ ∈ ps → Held K [.env τ, .value T] := fun hτ =>
      .cons (held _ hτ) (.cons (held _ hT) (List.forall_mem_nil _))
    refine .of_rel (z := fun i => ρ.erase.evalAndRead Γ T.erase e i)
      (byNeed_evalAndRead rem₁.exact ((holds hρ).mono le₁) Γ e) rem₁ (fun n => ?_) rem₂
    simp only [agree.erase.evalAndRead]
    exact byNeed_evalAndRead rem₂.exact ((holds hσ).mono le₂) Γ e n
  · intro s c ρ x b empty absent hidden v n
    have sparing := Guard.sparing_apply (Expr.notMem_freeNames absent) hidden v n s (.start empty)
    refine ⟨sparing.ignores, fun w s' returned s₁ uses => ?_⟩
    obtain ⟨spares, allowed⟩ := sparing.returns returned
    have hides : s₁.Hides c w := uses.hides ⟨spares.empty, spares.not_refers allowed⟩
    refine ⟨hides.empty, fun k => (hides.force k s₁ (.start hides.empty)).ignores, fun k Γ T hT => ?_⟩
    obtain ⟨P, reads⟩ := hides.readBack hT k Γ
    exact (reads s₁ (.start hides.empty)).ignores

/-- To apply zero to itself fails, but nobody does it when it is the value of `x` in `(λ (z) (add1 y))`. With `y` as
zero, this gives `(λ (z) 1)`, and the argument of a function with this body is ignored. -/
theorem constant_ignores_argument :
    let s := Session.empty.allocate
    let argument := Value.delayed 0 .empty (.app .zero .zero)
    let ρ := Env.empty.extend "y" .zero
    let body := Expr.lam "z" (.add1 (.var "y"))
    let T := Value.pi "z" .nat (.code .empty "z" .nat)
    (∃ e s', (argument.force 9 : ByNeed Value) s = .error (.failed e) s') ∧ ¬ Ignores 0 (argument.force 9) s ∧
    (∃ s', ((ρ.extend "x" argument).evalAndRead .empty T body 9 : ByNeed Expr) s =
      .ok (.lam "z" (.add1 .zero)) s') ∧
    EndAlike ((ρ.extend "x" argument).evalAndRead .empty T body) (ρ.evalAndRead .empty T body) s s ∧
    Ignores 0 (Closure.apply 9 (.code ρ "x" body) argument) s := by
  intro s argument ρ body T
  refine ⟨⟨_, _, rfl⟩, not_ignores_force (by decide) _ _ _, ⟨_, rfl⟩, ?_, ?_⟩
  · have nothing : History .empty [] .empty [.env .empty] := .build .start rfl (List.nil_subset _)
    have delayed : History .empty [] s [.value argument, .env .empty] :=
      @History.done _ _ _ _ (.suspend .empty (.app .zero .zero)) _ _ nothing (List.Subset.refl _) rfl
    have environments := ((delayed.build (p := .value .zero) rfl (List.nil_subset _)).build (p := .env ρ) rfl
      (by simp [Piece.parts, ρ])).build (p := .env (ρ.extend "x" argument)) rfl (by simp [Piece.parts])
    have atHand := ((environments.build (p := .value .nat) rfl (List.nil_subset _)).build
      (p := .closure (.code .empty "z" .nat)) rfl (by simp [Piece.parts])).build (p := .value T) rfl
        (by simp [Piece.parts, T])
    refine evaluation_depends_on_free_names.1 atHand (by simp) (by simp) (by simp) body ?_ .start .start .empty
    intro x free
    by_cases here : "x" = x
    · subst here
      exact (free rfl).elim
    · exact Env.get?_extend_of_ne _ _ here
  · refine (evaluation_depends_on_free_names.2 rfl rfl (fun refers => ?_) argument 9).1
    cases refers with
    | captured hy hv refers =>
        cases List.mem_singleton.1 hy
        cases hv
        cases refers with
        | part _ hq => cases hq
    | part hp => cases hp

end TypeKernel
