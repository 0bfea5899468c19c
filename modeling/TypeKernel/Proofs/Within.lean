/-
# TypeKernel.Proofs.Within — which free variables a value mentions

A value is within `N` if all its free variables are, wherever they stand: in neutral forms, in the types
that neutral forms record, in environments and in delayed values. This is matching of the value with
itself, under a correspondence that allows only the names in `N`, so evaluation keeps it.

A normal form of a value within `N` has its free variables in `N`, and its binders are named apart from the
names in use and from each other where they nest (`Expr.Tidy`).
-/
import TypeKernel.Proofs.ReadsAlike
import TypeKernel.Proofs.Rules

namespace TypeKernel

set_option autoImplicit false

/-- The free variables are in `N`, and nothing differs. -/
def Correspondence.within (N : Name → Prop) : Correspondence where
  binders := Eq
  families _ _ := rfl
  names x y := x = y ∧ N x
  cells _ _ _ _ _ _ := True
  annotated := False
  outer := none

/-- All free variables are in `N`. -/
abbrev Value.Within (N : Name → Prop) (v : Value) : Prop :=
  Both (.within N) v v

abbrev Closure.Within (N : Name → Prop) (c : Closure) : Prop :=
  Matches (.within N) (.closure c) (.closure c)

abbrev Env.Within (N : Name → Prop) (ρ : Env) : Prop :=
  Matches (.within N) (.env ρ) (.env ρ)

abbrev Task.Within (N : Name → Prop) (t : Task) : Prop :=
  t.Matches (.within N) t

theorem Correspondence.within_plain (N : Name → Prop) : (within N).Plain :=
  fun _ _ _ _ => trivial

theorem Correspondence.within_mono {N N' : Name → Prop} (h : ∀ x, N x → N' x) :
    (within N).Le (within N') :=
  ⟨fun _ _ h => h, fun x _ hx => ⟨hx.1, h x hx.2⟩, fun _ _ _ _ _ _ h => h, fun h => h, fun _ h => h⟩

section Evaluation

variable {N : Name → Prop} {v w : Value}

theorem Value.Within.ofVar {d : Value} (hd : d.Within N) {y : Name} (hy : N y) :
    (Value.ofVar y d).Within N :=
  .neutral hd (.var ⟨rfl, hy⟩)

theorem Value.Within.force (h : v.Within N) (hw : Forces v w) : w.Within N :=
  (byName_answer (.force h) (Correspondence.within_plain N)).both hw hw

theorem Closure.Within.apply {c : Closure} (hc : c.Within N) (hv : v.Within N)
    (hw : Applies c v w) : w.Within N :=
  (byName_answer (.apply hc hv) (Correspondence.within_plain N)).both hw hw

theorem Value.Within.call {f : Value} (hf : f.Within N) (hv : v.Within N) (hw : Calls f v w) :
    w.Within N :=
  (byName_answer.call hf hv (Correspondence.within_plain N)).both hw hw

theorem Value.Within.callBoth {f u : Value} (hf : f.Within N) (hv : v.Within N) (hu : u.Within N)
    (hw : CallsBoth f v u w) : w.Within N :=
  (byName_answer.callBoth hf hv hu (Correspondence.within_plain N)).both hw hw

theorem Value.Within.car (h : v.Within N) (hw : Eval.car answer v = .ok w) : w.Within N :=
  (byName_answer.project .car h (Correspondence.within_plain N)).both hw hw

theorem Value.Within.cdr (h : v.Within N) (hw : Eval.cdr answer v = .ok w) : w.Within N :=
  (byName_answer.project .cdr h (Correspondence.within_plain N)).both hw hw

theorem Env.Within.eval {ρ : Env} (h : ρ.Within N) {e : Expr} (hv : Evals ρ e v) : v.Within N :=
  (byName_answer (.eval h (.refl (fun _ => rfl) e (h.pairing (fun _ _ hx => hx) rfl)))
    (Correspondence.within_plain N)).both hv hv

end Evaluation

/-! ## Expressions -/

/-- The free variables are in `N`; the binders are not in `X` and differ from those around them. -/
def Expr.Tidy (N : Name → Prop) (X : List Name) : Expr → Prop
  | .var x => N x
  | .quote _ | .const _ | .todo | .malformed _ => True
  | .unary _ e => e.Tidy N X
  | .binary _ e₁ e₂ => e₁.Tidy N X ∧ e₂.Tidy N X
  | .equal t l r => t.Tidy N X ∧ l.Tidy N X ∧ r.Tidy N X
  | .quant _ y d r => d.Tidy N X ∧ y ∉ X ∧ r.Tidy (fun z => z = y ∨ N z) (y :: X)
  | .lam y b => y ∉ X ∧ b.Tidy (fun z => z = y ∨ N z) (y :: X)
  | .the t e => t.Tidy N X ∧ e.Tidy N X
  | .app f a => f.Tidy N X ∧ a.Tidy N X
  | .proj _ t => t.Tidy N X
  | .fold _ t b s => t.Tidy N X ∧ b.Tidy N X ∧ s.Tidy N X
  | .induct _ t m b s => t.Tidy N X ∧ m.Tidy N X ∧ b.Tidy N X ∧ s.Tidy N X
  | .transport _ t m b => t.Tidy N X ∧ m.Tidy N X ∧ b.Tidy N X
  | .indAbsurd t m => t.Tidy N X ∧ m.Tidy N X
  | .indVec k t m b s => k.Tidy N X ∧ t.Tidy N X ∧ m.Tidy N X ∧ b.Tidy N X ∧ s.Tidy N X
  | .trans l r => l.Tidy N X ∧ r.Tidy N X
  | .cong t f => t.Tidy N X ∧ f.Tidy N X

/-- The binders of a tidy expression are apart from the names around them. -/
theorem Expr.Tidy.binders {e : Expr} : ∀ {N : Name → Prop} {X : List Name},
    e.Tidy N X → e.Binders (fun X y => y ∉ X) X := by
  induction e with
  | var _ | quote _ | const _ | todo | malformed _ => exact fun _ => trivial
  | unary _ _ ih | proj _ _ ih => exact fun h => ih h
  | binary _ _ _ ih₁ ih₂ | the _ _ ih₁ ih₂ | app _ _ ih₁ ih₂ | indAbsurd _ _ ih₁ ih₂
  | trans _ _ ih₁ ih₂ | cong _ _ ih₁ ih₂ => exact fun h => ⟨ih₁ h.1, ih₂ h.2⟩
  | equal _ _ _ ih₁ ih₂ ih₃ | fold _ _ _ _ ih₁ ih₂ ih₃ | transport _ _ _ _ ih₁ ih₂ ih₃ =>
      exact fun h => ⟨ih₁ h.1, ih₂ h.2.1, ih₃ h.2.2⟩
  | induct _ _ _ _ _ ih₁ ih₂ ih₃ ih₄ =>
      exact fun h => ⟨ih₁ h.1, ih₂ h.2.1, ih₃ h.2.2.1, ih₄ h.2.2.2⟩
  | indVec _ _ _ _ _ ih₁ ih₂ ih₃ ih₄ ih₅ =>
      exact fun h => ⟨ih₁ h.1, ih₂ h.2.1, ih₃ h.2.2.1, ih₄ h.2.2.2.1, ih₅ h.2.2.2.2⟩
  | quant _ _ _ _ ihd ihr => exact fun h => ⟨ihd h.1, h.2.1, ihr h.2.2⟩
  | lam _ _ ih => exact fun h => ⟨h.1, ih h.2⟩

theorem Expr.Tidy.mono {e : Expr} : ∀ {N N' : Name → Prop} {X : List Name},
    e.Tidy N X → (∀ x, N x → N' x) → e.Tidy N' X := by
  have under : ∀ {N N' : Name → Prop} (y : Name), (∀ x, N x → N' x) →
      ∀ x, x = y ∨ N x → x = y ∨ N' x := fun _ h x hx => hx.imp id (h x)
  induction e with
  | var x => exact fun h hN => hN x h
  | quote a | const c | todo | malformed m => exact fun _ _ => trivial
  | unary u _ ih | proj p _ ih => exact fun h hN => ih h hN
  | binary b _ _ ih₁ ih₂ | the _ _ ih₁ ih₂ | app _ _ ih₁ ih₂ | indAbsurd _ _ ih₁ ih₂
  | trans _ _ ih₁ ih₂ | cong _ _ ih₁ ih₂ => exact fun h hN => ⟨ih₁ h.1 hN, ih₂ h.2 hN⟩
  | equal _ _ _ ih₁ ih₂ ih₃ | fold f _ _ _ ih₁ ih₂ ih₃ | transport k _ _ _ ih₁ ih₂ ih₃ =>
      exact fun h hN => ⟨ih₁ h.1 hN, ih₂ h.2.1 hN, ih₃ h.2.2 hN⟩
  | induct i _ _ _ _ ih₁ ih₂ ih₃ ih₄ =>
      exact fun h hN => ⟨ih₁ h.1 hN, ih₂ h.2.1 hN, ih₃ h.2.2.1 hN, ih₄ h.2.2.2 hN⟩
  | indVec _ _ _ _ _ ih₁ ih₂ ih₃ ih₄ ih₅ =>
      exact fun h hN =>
        ⟨ih₁ h.1 hN, ih₂ h.2.1 hN, ih₃ h.2.2.1 hN, ih₄ h.2.2.2.1 hN, ih₅ h.2.2.2.2 hN⟩
  | quant q y _ _ ihd ihr => exact fun h hN => ⟨ihd h.1 hN, h.2.1, ihr h.2.2 (under y hN)⟩
  | lam y _ ih => exact fun h hN => ⟨h.1, ih h.2 (under y hN)⟩

/-! ## Reading back -/

/-- A normal form mentions only what the value mentions, and its binders are apart. -/
theorem Reads.tidy {σ : Style} (hσ : σ.Fresh) (hi : σ.impossible = none) {X : List Name} {t : Task}
    {n : Expr} (h : Reads σ X t n) : ∀ {N : Name → Prop}, t.Within N → n.Tidy N X := by
  have element : ∀ n, σ.element n = n := fun n => by simp [Style.element, hi]
  have annotate : ∀ t e, σ.annotate t e = .the t e := fun t e => by
    simp [Style.annotate, element]
  have wider : ∀ (N : Name → Prop) (y : Name),
      (Correspondence.within N).Le (.within fun z => z = y ∨ N z) := fun N y =>
    Correspondence.within_mono fun _ h => .inr h
  induction h with
  | value hA _ ih =>
      intro N m
      cases m with | value mA mv => exact ih (.element (Value.Within.force mA hA) mv)
  | univ _ ih =>
      intro N m
      cases m with | element _ mv => exact ih (.type mv)
  | @lam _ _ _ _ _ _ y _ _ _ hf hy hB hb _ ih =>
      intro N m
      cases m with
      | element mA mv =>
        cases mA with
        | quant _ _ md mr =>
          have md' := md.mono (wider N y)
          have my := Value.Within.ofVar md' (.inl rfl)
          refine ⟨hy ▸ hσ _ _, ih (.value ?_ ?_)⟩
          · exact Closure.Within.apply (mr.mono (wider N y)) my hB
          · exact Value.Within.call ((Value.Within.force mv hf).mono (wider N y)) my hb
  | cons ha hb _ hB _ ihl ihn =>
      intro N m
      cases m with
      | element mA mv =>
        cases mA with
        | quant _ _ md mr =>
          have ma := Value.Within.car mv ha
          exact ⟨ihl (.value md ma), ihn (.value (Closure.Within.apply mr ma hB) (Value.Within.cdr mv hb))⟩
  | sole => exact fun _ => trivial
  | absurd hv _ ih =>
      intro N m
      cases m with
      | element _ mv =>
        cases Value.Within.force mv hv with
        | neutral _ me =>
          rw [element]
          exact ⟨trivial, ih (.neutral me)⟩
  | byForm _ hv _ ih =>
      intro N m
      cases m with | element mA mv => exact ih (.canonical mA (Value.Within.force mv hv))
  | stuck _ ih =>
      intro N m
      cases m with | canonical _ mv => cases mv with | neutral _ me => exact ih (.neutral me)
  | zero | quote _ | nil | vecNil | const _ => exact fun _ => trivial
  | add1 _ ih =>
      intro N m
      cases m with | canonical mA mv => cases mv with | unary _ mv => exact ih (.value mA mv)
  | listCons _ _ ih ihs =>
      intro N m
      cases m with
      | canonical mA mv =>
        cases mv with
        | binary _ mv mvs =>
          cases mA with
          | unary _ mE => exact ⟨ih (.value mE mv), ihs (.value (.unary .list mE) mvs)⟩
  | vecCons hk _ _ ih ihs =>
      intro N m
      cases m with
      | canonical mA mv =>
        cases mv with
        | binary _ mv mvs =>
          cases mA with
          | binary _ mE mk =>
            cases Value.Within.force mk hk with
            | unary _ mk => exact ⟨ih (.value mE mv), ihs (.value (.binary .vec mE mk) mvs)⟩
  | left _ ih =>
      intro N m
      cases m with
      | canonical mA mv =>
        cases mA with
        | binary _ ml _ => cases mv with | unary _ mv => exact ih (.value ml mv)
  | right _ ih =>
      intro N m
      cases m with
      | canonical mA mv =>
        cases mA with
        | binary _ _ mr => cases mv with | unary _ mv => exact ih (.value mr mv)
  | same _ ih =>
      intro N m
      cases m with
      | canonical mA mv =>
        cases mA with
        | equal mT _ _ => cases mv with | unary _ mv => exact ih (.value mT mv)
  | type hA _ ih =>
      intro N m
      cases m with | type mA => exact ih (.former (Value.Within.force mA hA))
  | @quant _ _ _ _ _ y _ _ _ hy _ hB _ ihd ihr =>
      intro N m
      cases m with
      | former mA =>
        cases mA with
        | quant _ _ md mr =>
          have my := Value.Within.ofVar (md.mono (wider N y)) (.inl rfl)
          refine ⟨ihd (.type md), hy ▸ hσ _ _, ihr (.type ?_)⟩
          exact Closure.Within.apply (mr.mono (wider N y)) my hB
  | list _ ih =>
      intro N m
      cases m with | former mA => cases mA with | unary _ mE => exact ih (.type mE)
  | vec _ _ ih ihk =>
      intro N m
      cases m with
      | former mA =>
        cases mA with | binary _ mE mk => exact ⟨ih (.type mE), ihk (.value (.const .nat) mk)⟩
  | either _ _ ihl ihr =>
      intro N m
      cases m with
      | former mA => cases mA with | binary _ ml mr => exact ⟨ihl (.type ml), ihr (.type mr)⟩
  | equal _ _ _ iht ihl ihr =>
      intro N m
      cases m with
      | former mA =>
        cases mA with
        | equal mT ml mr => exact ⟨iht (.type mT), ihl (.value mT ml), ihr (.value mT mr)⟩
  | stuckType _ ih =>
      intro N m
      cases m with | former mA => cases mA with | neutral _ me => exact ih (.neutral me)
  | var x =>
      intro N m
      cases m with | neutral me => cases me with | var hx => exact hx.2
  | app _ _ ihf iha =>
      intro N m
      cases m with
      | neutral me =>
        cases me with
        | app mf ma =>
          cases ma with | typed md ma => exact ⟨ihf (.neutral mf), iha (.value md ma)⟩
  | proj p _ ih =>
      intro N m
      cases m with | neutral me => cases me with | proj _ mt => exact ih (.neutral mt)
  | fold f _ _ _ _ iht ihB ihb ihs =>
      intro N m
      cases m with
      | neutral me =>
        cases me with
        | fold _ mt mb ms =>
          cases mb with
          | typed mB mb =>
            cases ms with
            | typed mS ms =>
              rw [annotate]
              exact ⟨iht (.neutral mt), ⟨ihB (.type mB), ihb (.value mB mb)⟩, ihs (.value mS ms)⟩
  | induct i _ _ _ _ iht ihm ihb ihs =>
      intro N m
      cases m with
      | neutral me =>
        cases me with
        | induct _ mt mm mb ms =>
          cases mm with
          | typed mM mm =>
            cases mb with
            | typed mB mb =>
              cases ms with
              | typed mS ms =>
                exact ⟨iht (.neutral mt), ihm (.value mM mm), ihb (.value mB mb),
                  ihs (.value mS ms)⟩
  | transport k _ _ _ iht ihm ihb =>
      intro N m
      cases m with
      | neutral me =>
        cases me with
        | transport _ mt mm mb =>
          cases mm with
          | typed mM mm =>
            cases mb with
            | typed mB mb => exact ⟨iht (.neutral mt), ihm (.value mM mm), ihb (.value mB mb)⟩
  | indAbsurd _ _ iht ihm =>
      intro N m
      cases m with
      | neutral me =>
        cases me with
        | indAbsurd mt mm =>
          cases mm with
          | typed _ mm =>
            rw [element]
            exact ⟨⟨trivial, iht (.neutral mt)⟩, ihm (.type mm)⟩
  | indVec _ _ _ _ _ ihk iht ihm ihb ihs =>
      intro N m
      cases m with
      | neutral me =>
        cases me with
        | indVec mk mt mm mb ms =>
          cases mk with
          | typed mN mk =>
            cases mm with
            | typed mM mm =>
              cases mb with
              | typed mB mb =>
                cases ms with
                | typed mS ms =>
                  exact ⟨ihk (.value mN mk), iht (.neutral mt), ihm (.value mM mm),
                    ihb (.value mB mb), ihs (.value mS ms)⟩
  | trans _ _ ihl ihr =>
      intro N m
      cases m with
      | neutral me =>
        cases me with
        | trans ml mr =>
          cases ml with
          | typed mL ml =>
            cases mr with | typed mR mr => exact ⟨ihl (.value mL ml), ihr (.value mR mr)⟩
  | cong _ _ _ iht ihF ihf =>
      intro N m
      cases m with
      | neutral me =>
        cases me with
        | cong mt mf =>
          cases mf with
          | typed mF mf =>
            rw [annotate]
            exact ⟨iht (.neutral mt), ihF (.type mF), ihf (.value mF mf)⟩

end TypeKernel
