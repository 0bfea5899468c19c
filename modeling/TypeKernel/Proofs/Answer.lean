/-
# TypeKernel.Proofs.Answer — evaluation without a step bound

More steps never change a finished outcome, so every request has one outcome that all large enough
bounds agree on: `answer`. It satisfies the rules of evaluation as an equation (`answer_eq`), in which
no bound appears. Whatever follows reasons about `answer`; the bound comes back only where a proof is
an induction on the length of a run (`answer_of_run`, `run_of_answer`).

Computations are ordered by how far they have got: an exhausted one approximates everything and all
others approximate only themselves. A rule is `Finitary` if it respects this order and looks at its
answers only finitely often.
-/
import TypeKernel.Eval.Basic
import TypeKernel.Machine.ByName

namespace TypeKernel

set_option autoImplicit false

/-- `x` has run out of steps, or is already `y`. -/
def Approximates {α : Type} (x y : ByName α) : Prop :=
  x = .error .exhausted ∨ x = y

namespace Approximates

variable {α β : Type}

theorem refl (x : ByName α) : Approximates x x := .inr rfl

theorem trans {x y z : ByName α} (h₁ : Approximates x y) (h₂ : Approximates y z) :
    Approximates x z := by
  rcases h₁ with rfl | rfl
  · exact .inl rfl
  · exact h₂

theorem bind {x y : ByName α} {f g : α → ByName β} (h : Approximates x y)
    (hf : ∀ a, Approximates (f a) (g a)) : Approximates (x >>= f) (y >>= g) := by
  rcases h with rfl | rfl
  · exact .inl rfl
  · cases x with
    | error reason => exact .inr rfl
    | ok a => exact hf a

end Approximates

/-! ## The unbounded outcome -/

open Classical in
/-- The outcome of a request that is given as many steps as it needs. -/
noncomputable def answer (r : Request) : ByName Value :=
  if h : ∃ n, (run n r : ByName Value) ≠ .error .exhausted then run (choose h) r
  else .error .exhausted

/-- Every outcome is reached from some bound on. -/
def Settled : Prop :=
  ∀ r, ∃ n, ∀ k, n ≤ k → Approximates (answer r) (run k r)

/-- A computation that asks for answers. -/
abbrev Asking (α : Type) := (Request → ByName Value) → ByName α

/-- A computation that gets no further than its answers do, and that needs finitely many of them. -/
structure Finitary {α : Type} (F : Asking α) : Prop where
  mono : ∀ ⦃ask ask' : Request → ByName Value⦄, (∀ r, Approximates (ask r) (ask' r)) →
    Approximates (F ask) (F ask')
  finite : Settled → ∃ n, ∀ k, n ≤ k → Approximates (F answer) (F (run k))

namespace Finitary

variable {α β : Type}

theorem const (x : ByName α) : Finitary fun _ => x :=
  ⟨fun _ _ _ => .refl x, fun _ => ⟨0, fun _ _ => .refl x⟩⟩

theorem ask (r : Request) : Finitary fun ask => ask r :=
  ⟨fun _ _ h => h r, fun h => h r⟩

theorem bind {F : Asking α} {G : α → Asking β} (hF : Finitary F) (hG : ∀ a, Finitary (G a)) :
    Finitary fun ask => F ask >>= fun a => G a ask := by
  refine ⟨fun _ _ h => (hF.mono h).bind fun a => (hG a).mono h, fun settled => ?_⟩
  obtain ⟨n₁, h₁⟩ := hF.finite settled
  cases hx : F answer with
  | error reason =>
      refine ⟨n₁, fun k hk => ?_⟩
      have hk := h₁ k hk
      rw [hx] at hk
      rcases hk with hk | hk
      · exact .inl (by cases hk; rfl)
      · exact .inr (by rw [← hk]; rfl)
  | ok a =>
      obtain ⟨n₂, h₂⟩ := (hG a).finite settled
      refine ⟨max n₁ n₂, fun k hk => ?_⟩
      have hF' : F answer = F (run k) := (h₁ k (by omega)).resolve_left (by rw [hx]; nofun)
      have := h₂ k (by omega)
      rw [← hF', hx]
      exact this

theorem ask_bind {r : Request} {G : Value → Asking β} (hG : ∀ v, Finitary (G v)) :
    Finitary fun ask => ask r >>= fun v => G v ask :=
  (Finitary.ask r).bind hG

end Finitary

/-! ## Every rule is finitary -/

namespace Eval

theorem finitary_call (fn arg : Value) : Finitary fun ask => call ask fn arg := by
  unfold call
  refine .ask_bind fun v => ?_
  cases v with
  | lam _ body => exact .ask _
  | neutral type stuck =>
      refine .ask_bind fun type => ?_
      cases type with
      | quant q _ domain range =>
          cases q with
          | pi => exact .ask_bind fun result => .const _
          | sigma => exact .const _
      | _ => exact .const _
  | _ => exact .const _

theorem finitary_callBoth (fn arg₁ arg₂ : Value) :
    Finitary fun ask => callBoth ask fn arg₁ arg₂ :=
  (finitary_call fn arg₁).bind fun result => finitary_call result arg₂

theorem finitary_applyFamily (arg : Value) (f : Family) :
    Finitary fun ask => applyFamily ask arg f := by
  cases f with
  | fixed motive v => exact finitary_call motive v
  | fixedBoth motive v w => exact finitary_callBoth motive v w
  | wrapped u motive => exact finitary_call motive _
  | natStep motive => exact (finitary_call motive arg).bind fun _ => .const _
  | listStepTail motive head => exact (finitary_call motive arg).bind fun _ => .const _
  | vecStepTail motive length head =>
      exact (finitary_callBoth motive length arg).bind fun _ => .const _
  | _ => exact .const _

theorem finitary_entryType (eliminator : Eliminator) (type : Value) (stuck : Neutral) :
    Finitary fun ask => entryType ask eliminator type stuck := by
  refine .ask_bind fun type => ?_
  cases type with
  | unary u v => cases u <;> exact .const _
  | _ => exact .const _

theorem finitary_equalityOf (eliminator : Eliminator) (type : Value) (stuck : Neutral) :
    Finitary fun ask => equalityOf ask eliminator type stuck := by
  refine .ask_bind fun type => ?_
  cases type <;> exact .const _

/-- A rule that looks at the form of a value: it is enough to look at each form. -/
theorem finitary_car (pair : Value) : Finitary fun ask => car ask pair := by
  refine .ask_bind fun v => ?_
  cases v with
  | binary b v₁ v₂ => cases b <;> exact .const _
  | neutral type stuck =>
      refine .ask_bind fun type => ?_
      cases type with
      | quant q _ domain range => cases q <;> exact .const _
      | _ => exact .const _
  | _ => exact .const _

theorem finitary_cdr (pair : Value) : Finitary fun ask => cdr ask pair := by
  refine .ask_bind fun v => ?_
  cases v with
  | binary b v₁ v₂ => cases b <;> exact .const _
  | neutral type stuck =>
      refine .ask_bind fun type => ?_
      cases type with
      | quant q _ domain range =>
          cases q with
          | pi => exact .const _
          | sigma => exact .ask_bind fun result => .const _
      | _ => exact .const _
  | _ => exact .const _

theorem finitary_head (vec : Value) : Finitary fun ask => head ask vec := by
  refine .ask_bind fun v => ?_
  cases v with
  | binary b v₁ v₂ => cases b <;> exact .const _
  | neutral type stuck =>
      refine .ask_bind fun type => ?_
      cases type with
      | binary b v₁ v₂ => cases b <;> exact .const _
      | _ => exact .const _
  | _ => exact .const _

theorem finitary_tail (vec : Value) : Finitary fun ask => tail ask vec := by
  refine .ask_bind fun v => ?_
  cases v with
  | binary b v₁ v₂ => cases b <;> exact .const _
  | neutral type stuck =>
      refine .ask_bind fun type => ?_
      cases type with
      | binary b v₁ v₂ =>
          cases b with
          | vec =>
              refine .ask_bind fun length => ?_
              cases length with
              | unary u v => cases u <;> exact .const _
              | _ => exact .const _
          | _ => exact .const _
      | _ => exact .const _
  | _ => exact .const _

theorem finitary_symm (target : Value) : Finitary fun ask => symm ask target := by
  refine .ask_bind fun v => ?_
  cases v with
  | unary u v => cases u <;> exact .const _
  | neutral type stuck => exact (finitary_equalityOf _ type stuck).bind fun _ => .const _
  | _ => exact .const _

theorem finitary_project (p : Projection) (target : Value) :
    Finitary fun ask => project ask p target := by
  cases p with
  | car => exact finitary_car target
  | cdr => exact finitary_cdr target
  | head => exact finitary_head target
  | tail => exact finitary_tail target
  | symm => exact finitary_symm target

theorem finitary_fold (f : Fold) (target : Value) (baseType : Option Value) (base step : Value) :
    Finitary fun ask => fold ask f target baseType base step := by
  cases f with
  | whichNat =>
      refine .ask_bind fun v => ?_
      cases v with
      | const c => cases c <;> exact .const _
      | unary u v =>
          cases u with
          | add1 => exact finitary_call step v
          | _ => exact .const _
      | _ => exact .const _
  | iterNat =>
      refine .ask_bind fun v => ?_
      cases v with
      | const c => cases c <;> exact .const _
      | unary u v =>
          cases u with
          | add1 => exact .ask_bind fun result => finitary_call step result
          | _ => exact .const _
      | _ => exact .const _
  | recNat =>
      refine .ask_bind fun v => ?_
      cases v with
      | const c => cases c <;> exact .const _
      | unary u v =>
          cases u with
          | add1 =>
              exact (finitary_call step v).bind fun fn => .ask_bind fun result =>
                finitary_call fn result
          | _ => exact .const _
      | _ => exact .const _
  | recList =>
      refine .ask_bind fun v => ?_
      cases v with
      | const c => cases c <;> exact .const _
      | binary b e es =>
          cases b with
          | listCons =>
              exact (finitary_callBoth step e es).bind fun fn => .ask_bind fun result =>
                finitary_call fn result
          | _ => exact .const _
      | neutral type stuck =>
          exact (Finitary.const _).bind fun _ =>
            (finitary_entryType _ type stuck).bind fun _ => .const _
      | _ => exact .const _

theorem finitary_induct (i : Induction) (target motive base step : Value) :
    Finitary fun ask => induct ask i target motive base step := by
  cases i with
  | indNat =>
      refine .ask_bind fun v => ?_
      cases v with
      | const c => cases c <;> exact .const _
      | unary u v =>
          cases u with
          | add1 =>
              exact (finitary_call step v).bind fun fn => .ask_bind fun result =>
                finitary_call fn result
          | _ => exact .const _
      | neutral type stuck =>
          exact (finitary_call motive _).bind fun _ => (finitary_call motive _).bind fun _ =>
            .const _
      | _ => exact .const _
  | indList =>
      refine .ask_bind fun v => ?_
      cases v with
      | const c => cases c <;> exact .const _
      | binary b e es =>
          cases b with
          | listCons =>
              exact (finitary_callBoth step e es).bind fun fn => .ask_bind fun result =>
                finitary_call fn result
          | _ => exact .const _
      | neutral type stuck =>
          exact (finitary_entryType _ type stuck).bind fun _ => (finitary_call motive _).bind
            fun _ => (finitary_call motive _).bind fun _ => .const _
      | _ => exact .const _
  | indEither =>
      refine .ask_bind fun v => ?_
      cases v with
      | unary u v =>
          cases u with
          | left => exact finitary_call base v
          | right => exact finitary_call step v
          | _ => exact .const _
      | neutral type stuck =>
          refine .ask_bind fun type => ?_
          cases type with
          | binary b l r =>
              cases b with
              | either => exact (finitary_call motive _).bind fun _ => .const _
              | _ => exact .const _
          | _ => exact .const _
      | _ => exact .const _

theorem finitary_indVec (length target motive base step : Value) :
    Finitary fun ask => indVec ask length target motive base step := by
  refine .ask_bind fun v => ?_
  cases v with
  | const c => cases c <;> exact .const _
  | binary b e es =>
      cases b with
      | vecCons =>
          refine .ask_bind fun length => ?_
          cases length with
          | unary u smaller =>
              cases u with
              | add1 =>
                  exact (finitary_callBoth step smaller e).bind fun fn =>
                    (finitary_call fn es).bind fun fn => .ask_bind fun result =>
                      finitary_call fn result
              | _ => exact .const _
          | _ => exact .const _
      | _ => exact .const _
  | neutral type stuck =>
      refine .ask_bind fun type => ?_
      cases type with
      | binary b entry k =>
          cases b with
          | vec =>
              exact (finitary_callBoth motive length _).bind fun _ =>
                (finitary_callBoth motive _ _).bind fun _ => .const _
          | _ => exact .const _
      | _ => exact .const _
  | _ => exact .const _

theorem finitary_indAbsurd (target motive : Value) :
    Finitary fun ask => indAbsurd ask target motive := by
  refine .ask_bind fun v => ?_
  cases v <;> exact .const _

theorem finitary_transport (k : Transport) (target motive base : Value) :
    Finitary fun ask => transport ask k target motive base := by
  cases k with
  | replace =>
      refine .ask_bind fun v => ?_
      cases v with
      | unary u v => cases u <;> exact .const _
      | neutral type stuck =>
          exact (finitary_equalityOf _ type stuck).bind fun _ => (finitary_call motive _).bind
            fun _ => (finitary_call motive _).bind fun _ => .const _
      | _ => exact .const _
  | indEqual =>
      refine .ask_bind fun v => ?_
      cases v with
      | unary u v => cases u <;> exact .const _
      | neutral type stuck =>
          exact (finitary_equalityOf _ type stuck).bind fun _ =>
            (finitary_callBoth motive _ _).bind fun _ => (finitary_callBoth motive _ _).bind
              fun _ => .const _
      | _ => exact .const _

theorem finitary_trans (left right : Value) : Finitary fun ask => trans ask left right := by
  refine .ask_bind fun left => .ask_bind fun right => ?_
  cases left with
  | unary u v =>
      cases u with
      | same =>
          cases right with
          | unary u v => cases u <;> exact .const _
          | neutral type stuck => exact (finitary_equalityOf _ type stuck).bind fun _ => .const _
          | _ => exact .const _
      | _ => exact .const _
  | neutral type stuck =>
      cases right with
      | unary u v =>
          cases u with
          | same => exact (finitary_equalityOf _ type stuck).bind fun _ => .const _
          | _ => exact .const _
      | neutral type' stuck' =>
          exact (finitary_equalityOf _ type stuck).bind fun _ =>
            (finitary_equalityOf _ type' stuck').bind fun _ => .const _
      | _ => exact .const _
  | _ => exact .const _

theorem finitary_cong (target : Value) (fnType : Option Value) (fn : Value) :
    Finitary fun ask => cong ask target fnType fn := by
  refine .ask_bind fun v => ?_
  cases v with
  | unary u v =>
      cases u with
      | same => exact (finitary_call fn v).bind fun _ => .const _
      | _ => exact .const _
  | neutral type stuck =>
      refine (finitary_equalityOf _ type stuck).bind fun parts => (Finitary.const _).bind
        fun fnType => .ask_bind fun fnType => ?_
      cases fnType with
      | quant q _ domain range =>
          cases q with
          | pi =>
              exact .ask_bind fun _ => (finitary_call fn _).bind fun _ => (finitary_call fn _).bind
                fun _ => .const _
          | sigma => exact .const _
      | _ => exact .const _
  | _ => exact .const _

theorem finitary_later (ρ : Env) (e : Expr) : Finitary fun ask => later ask ρ e := by
  cases e with
  | var | quote | const => exact .ask _
  | _ => exact .const _

theorem finitary_annotated (ρ : Env) (e : Expr) : Finitary fun ask => annotated ask ρ e := by
  cases e with
  | the type e => exact .ask_bind fun _ => (finitary_later ρ e).bind fun _ => .const _
  | _ => exact (finitary_later ρ _).bind fun _ => .const _

theorem finitary_evaluate (ρ : Env) (e : Expr) : Finitary fun ask => evaluate ask ρ e := by
  cases e with
  | unary u e => exact (finitary_later ρ e).bind fun _ => .const _
  | binary b e₁ e₂ =>
      exact (finitary_later ρ e₁).bind fun _ => (finitary_later ρ e₂).bind fun _ => .const _
  | equal type left right =>
      exact (finitary_later ρ type).bind fun _ => (finitary_later ρ left).bind fun _ =>
        (finitary_later ρ right).bind fun _ => .const _
  | quant q x domain range => exact (finitary_later ρ domain).bind fun _ => .const _
  | the type e => exact .ask _
  | app fn arg =>
      exact .ask_bind fun _ => (finitary_later ρ arg).bind fun _ => finitary_call _ _
  | proj p target => exact .ask_bind fun _ => finitary_project p _
  | fold f target base step =>
      exact (finitary_annotated ρ base).bind fun _ => .ask_bind fun _ =>
        (finitary_later ρ step).bind fun _ => .ask _
  | induct i target motive base step =>
      exact .ask_bind fun _ => (finitary_later ρ motive).bind fun _ =>
        (finitary_later ρ base).bind fun _ => (finitary_later ρ step).bind fun _ => .ask _
  | transport k target motive base =>
      exact .ask_bind fun _ => (finitary_later ρ motive).bind fun _ =>
        (finitary_later ρ base).bind fun _ => finitary_transport k _ _ _
  | indAbsurd target motive => exact .ask_bind fun _ => .ask_bind fun _ => finitary_indAbsurd _ _
  | indVec length target motive base step =>
      exact (finitary_later ρ length).bind fun _ => .ask_bind fun _ =>
        (finitary_later ρ motive).bind fun _ => (finitary_later ρ base).bind fun _ =>
          (finitary_later ρ step).bind fun _ => .ask _
  | trans left right => exact .ask_bind fun _ => .ask_bind fun _ => finitary_trans _ _
  | cong target fn =>
      exact (finitary_annotated ρ fn).bind fun _ => .ask_bind fun _ => finitary_cong _ _ _
  | _ => exact .const _

theorem force_delayed (ask : Request → ByName Value) (cell : Nat) (ρ : Env) (e : Expr) :
    force ask (.delayed cell ρ e) = ask (.eval ρ e) >>= fun v => ask (.force v) := by
  show (ask (.eval ρ e) >>= fun v => ask (.force v) >>= fun v => pure v) = _
  simp only [bind_pure]

theorem finitary_force (v : Value) : Finitary fun ask => force ask v := by
  cases v with
  | delayed cell ρ e => exact .ask_bind fun _ => .ask_bind fun _ => .const _
  | _ => exact .const _

theorem finitary_step (r : Request) : Finitary fun ask => step ask r := by
  cases r with
  | eval ρ e => exact finitary_evaluate ρ e
  | force v => exact finitary_force v
  | apply c v =>
      cases c with
      | code ρ x body => exact .ask _
      | family x f => exact finitary_applyFamily v f
  | fold f target type base step => exact finitary_fold f target type base step
  | induct i target motive base step => exact finitary_induct i target motive base step
  | indVec length target motive base step => exact finitary_indVec length target motive base step

end Eval

/-! ## The unbounded outcome obeys the rules -/

theorem run_succ_approx (n : Nat) : ∀ r, Approximates (run n r : ByName Value) (run (n + 1) r) := by
  induction n with
  | zero => exact fun r => .inl rfl
  | succ n ih => exact fun r => (Eval.finitary_step r).mono ih

theorem run_approx {n k : Nat} (h : n ≤ k) (r : Request) :
    Approximates (run n r : ByName Value) (run k r) := by
  induction h with
  | refl => exact .refl _
  | step _ ih => exact ih.trans (run_succ_approx _ r)

theorem run_approx_answer (n : Nat) (r : Request) : Approximates (run n r) (answer r) := by
  by_cases h : (run n r : ByName Value) = .error .exhausted
  · exact .inl h
  · have hex : ∃ n, (run n r : ByName Value) ≠ .error .exhausted := ⟨n, h⟩
    rw [answer, dif_pos hex]
    have hn : Approximates (run n r) (run (max n (Classical.choose hex)) r) :=
      run_approx (by omega) r
    have hc : Approximates (run (Classical.choose hex) r)
        (run (max n (Classical.choose hex)) r) := run_approx (by omega) r
    rw [hn.resolve_left h, hc.resolve_left (Classical.choose_spec hex)]
    exact .refl _

theorem settled : Settled := by
  intro r
  by_cases hex : ∃ n, (run n r : ByName Value) ≠ .error .exhausted
  · refine ⟨Classical.choose hex, fun k hk => ?_⟩
    rw [answer, dif_pos hex]
    exact run_approx hk r
  · exact ⟨0, fun k _ => .inl (by rw [answer, dif_neg hex])⟩

theorem answer_of_run {n : Nat} {r : Request} {v : Value} (h : run n r = (.ok v : ByName Value)) :
    answer r = .ok v := by
  rcases run_approx_answer n r with h' | h'
  · rw [h] at h'
    cases h'
  · rw [← h', h]

theorem run_of_answer {r : Request} {v : Value} (h : answer r = .ok v) :
    ∃ n, ∀ k, n ≤ k → run k r = (.ok v : ByName Value) := by
  obtain ⟨n, hn⟩ := settled r
  refine ⟨n, fun k hk => ?_⟩
  rw [← h]
  exact ((hn k hk).resolve_left (by rw [h]; nofun)).symm

/-- The unbounded outcome is given by the rules of evaluation, applied to unbounded outcomes. -/
theorem answer_eq (r : Request) : answer r = Eval.step answer r := by
  have upper : ∀ k, Approximates (run (k + 1) r) (Eval.step answer r) := fun k =>
    (Eval.finitary_step r).mono fun r => run_approx_answer k r
  obtain ⟨n, hn⟩ := settled r
  obtain ⟨k, hk⟩ := (Eval.finitary_step r).finite settled
  have h₁ : Approximates (answer r) (Eval.step answer r) :=
    (hn (max n k + 1) (by omega)).trans (upper _)
  have h₂ : Approximates (Eval.step answer r) (answer r) :=
    (hk (max n k) (by omega)).trans (run_approx_answer (max n k + 1) r)
  rcases h₁ with h₁ | h₁
  · rcases h₂ with h₂ | h₂
    · rw [h₁, h₂]
    · exact h₂.symm
  · exact h₁

end TypeKernel
