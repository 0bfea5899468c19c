/-
# TypeKernel.Proofs.Tidy — outputs mention only what the context offers

In a context of accepted entries with different names, every type and every defined value mentions only
free variables of the context (`Context.Scoped`): definitions have been unfolded and claims were never
visible. Checking keeps this invariant when it enters binders, which it names apart from all names of the
context. It follows that an elaborated expression mentions only names that are bound and usable, and that a
normal form mentions only free variables; in both, no binder has a name of the context or of a binder
around it.
-/
import TypeKernel.Proofs.Established
import TypeKernel.Proofs.Scope
import TypeKernel.Proofs.Within

namespace TypeKernel

set_option autoImplicit false

open Machine

/-! ## Contexts -/

/-- The name is a free variable of the context. -/
def Context.BindsFree (Γ : Context) (x : Name) : Prop :=
  ∃ T, Γ.lookup x = some (.free T)

/-- All names are different, and types and defined values mention only free variables. -/
structure Context.Scoped (Γ : Context) : Prop where
  nodup : Γ.names.Nodup
  bindings : Γ.Matches (.within Γ.BindsFree) Γ

namespace Context

variable {Γ : Context} {x y : Name} {T v : Value} {b : Binding}

theorem BindsFree.visible (h : Γ.BindsFree x) : Γ.Visible x := by
  obtain ⟨T, hx⟩ := h
  exact ⟨_, hx, rfl⟩

theorem BindsFree.mem_names (h : Γ.BindsFree x) : x ∈ Γ.names :=
  h.visible.mem_names

theorem BindsFree.bind (h : Γ.BindsFree y) (hx : x ∉ Γ.names) :
    (Context.mk ((x, b) :: Γ.bindings)).BindsFree y := by
  obtain ⟨T, hT⟩ := h
  have hne : y ≠ x := by
    rintro rfl
    rw [Context.lookup_of_notMem hx] at hT
    cases hT
  refine ⟨T, ?_⟩
  rw [← hT, Context.lookup, List.lookup_cons, beq_false_of_ne hne]
  rfl

theorem visible_bindFree_iff : (Γ.bindFree y T).Visible x ↔ x = y ∨ Γ.Visible x := by
  by_cases h : x = y <;> simp [Visible, lookup_bindFree, h, Binding.isClaim]

theorem lookup_of_mem (hΓ : Γ.names.Nodup) (h : (x, b) ∈ Γ.bindings) : Γ.lookup x = some b := by
  obtain ⟨bs⟩ := Γ
  simp only [names, lookup] at *
  induction bs with
  | nil => cases h
  | cons p bs ih =>
      obtain ⟨y, c⟩ := p
      rw [List.map_cons, List.nodup_cons] at hΓ
      rcases List.mem_cons.1 h with h | h
      · cases h
        simp
      · have hne : x ≠ y := fun hxy => hΓ.1 (List.mem_map.2 ⟨_, h, hxy⟩)
        rw [List.lookup_cons, beq_false_of_ne hne]
        exact ih hΓ.2 h

namespace Scoped

theorem env (h : Γ.Scoped) : Γ.env.Within Γ.BindsFree :=
  h.bindings.env (fun _ => rfl) fun _ T hx => ⟨rfl, T, lookup_of_mem h.nodup hx⟩

theorem eval (h : Γ.Scoped) {e : Expr} (hv : Evals Γ.env e v) : v.Within Γ.BindsFree :=
  Env.Within.eval h.env hv

theorem type (h : Γ.Scoped) (hx : Γ.lookup x = some b) : b.type.Within Γ.BindsFree := by
  obtain ⟨b', hb', hb⟩ := h.bindings.lookup hx
  cases hx.symm.trans hb'
  exact hb.type

/-- What mentions only free variables of a context does so after a new name is bound. -/
theorem le_bind (hx : x ∉ Γ.names) :
    (Correspondence.within Γ.BindsFree).Le (.within (Context.mk ((x, b) :: Γ.bindings)).BindsFree) :=
  Correspondence.within_mono fun _ hz => hz.bind hx

/-- A new name may be bound to what mentions only free variables. -/
theorem bind (h : Γ.Scoped) (hx : x ∉ Γ.names) (hb : b.Matches (.within Γ.BindsFree) b) :
    (Context.mk ((x, b) :: Γ.bindings)).Scoped where
  nodup := h.nodup.cons hx
  bindings := .cons ⟨rfl, hb.mono (le_bind hx)⟩ (h.bindings.mono (le_bind hx))

theorem under (h : Γ.Scoped) (hT : T.Within Γ.BindsFree) (hy : y = Style.ofHints.pick Γ.names x) :
    (Γ.bindFree y T).Scoped :=
  h.bind (Context.pick_notMem hy) (.free hT)

/-- The range of a type, at the variable of a binder that checking enters. -/
theorem range {R : Closure} {B : Value} (hT : T.Within Γ.BindsFree) (hR : R.Within Γ.BindsFree)
    (hy : y = Style.ofHints.pick Γ.names x) (hB : Applies R (.ofVar y T) B) :
    B.Within (Γ.bindFree y T).BindsFree := by
  have le := le_bind (b := .free T) (Context.pick_notMem hy)
  refine Closure.Within.apply (hR.mono le) (Value.Within.ofVar (hT.mono le) ⟨T, ?_⟩) hB
  exact (lookup_bindFree Γ y T y).trans (if_pos rfl)

end Scoped

end Context

/-! ## Checking -/

/-- The type that is given is within `N`. -/
def Aim.Given (N : Name → Prop) : Aim → Prop
  | .check A => A.Within N
  | _ => True

/-- The type that is found is within `N`. -/
def Aim.Found (N : Name → Prop) : Aim → Prop
  | .synth T => T.Within N
  | _ => True

theorem Expr.Tidy.annotate {N : Name → Prop} {X : List Name} {e t : Expr} (he : e.Tidy N X)
    (ht : t.Tidy N X) : (e.annotate t).Tidy N X := by
  cases e with
  | the _ _ => exact he
  | _ => exact ⟨ht, he⟩

theorem Size.given_part (N : Name → Prop) (ℓ : Size) : ℓ.part.Given N := by
  cases ℓ with
  | small => exact .const .univ
  | large => trivial

theorem Size.found_whole (N : Name → Prop) (ℓ : Size) : ℓ.whole.Found N := by
  cases ℓ with
  | small => exact .const .univ
  | large => trivial

theorem Const.type?_within {c : Const} {T : Value} (h : c.type? = some T) (N : Name → Prop) :
    T.Within N := by
  cases c <;> cases h <;> exact .const _

theorem NatFold.within {f : Fold} {S : Value → Value} (hf : NatFold f S) {N : Name → Prop}
    {B : Value} (hB : B.Within N) : (S B).Within N :=
  hf.both hB

section Reading

variable {Γ : Context} {T : Value} {n : Expr}

theorem Reads.tidy_type (hT : T.Within Γ.BindsFree) (h : Reads .ofHints Γ.names (.type T) n) :
    n.Tidy Γ.BindsFree Γ.names :=
  h.tidy Style.ofHints_fresh rfl (.type hT)

theorem Reads.tidy_value {v : Value} (hT : T.Within Γ.BindsFree) (hv : v.Within Γ.BindsFree)
    (h : Reads .ofHints Γ.names (.value T v) n) : n.Tidy Γ.BindsFree Γ.names :=
  h.tidy Style.ofHints_fresh rfl (.value hT hv)

end Reading

theorem Expr.Tidy.under {Γ : Context} {y : Name} {T : Value} {e : Expr}
    (h : e.Tidy (Γ.bindFree y T).Visible (Γ.bindFree y T).names) :
    e.Tidy (fun z => z = y ∨ Γ.Visible z) (y :: Γ.names) :=
  h.mono fun _ => Context.visible_bindFree_iff.1

/-- As the kernel, but only types and elements of the context are compared. -/
def Discipline.scoped : Discipline where
  sameType Γ A T := Γ.Scoped ∧ A.Within Γ.BindsFree ∧ T.Within Γ.BindsFree ∧ kernel.sameType Γ A T
  same Γ T v w := Γ.Scoped ∧ T.Within Γ.BindsFree ∧ v.Within Γ.BindsFree ∧ w.Within Γ.BindsFree ∧
    kernel.same Γ T v w
  annotates := kernel.annotates
  simple := kernel.simple
  atom := kernel.atom
  lax := kernel.lax

/-- In scoped contexts, what the first discipline accepts is accepted by the second one and mentions only
what the context offers. -/
structure Discipline.Local (P P' : Discipline) : Prop where
  lax : P'.lax ↔ P.lax
  atom : ∀ {a}, P.atom a → P'.atom a
  sameType : ∀ {Γ : Context} {A T : Value}, Γ.Scoped → A.Within Γ.BindsFree → T.Within Γ.BindsFree →
    P.sameType Γ A T → P'.sameType Γ A T
  same : ∀ {Γ : Context} {T v w : Value}, Γ.Scoped → T.Within Γ.BindsFree → v.Within Γ.BindsFree →
    w.Within Γ.BindsFree → P.same Γ T v w → P'.same Γ T v w
  annotated : ∀ {Γ : Context} {T : Value} {e e' : Expr}, T.Within Γ.BindsFree →
    e.Tidy Γ.Visible Γ.names → P.Annotated Γ T e e' →
      e'.Tidy Γ.Visible Γ.names ∧ P'.Annotated Γ T e e'
  simple : ∀ {Γ : Context} {x : Name} {d a D : Value} {R : Closure} {e e' : Expr}, Γ.Scoped →
    R.Within Γ.BindsFree → a.Within Γ.BindsFree → e.Tidy Γ.Visible Γ.names →
      P.Annotated Γ (.pi x d R) e e' → P.simple Γ x d R a D →
        D.Within Γ.BindsFree ∧ P'.simple Γ x d R a D

theorem Discipline.kernel_local : kernel.Local Discipline.scoped where
  lax := .rfl
  atom h := h
  sameType hΓ mA mT h := ⟨hΓ, mA, mT, h⟩
  same hΓ mT mv mw h := ⟨hΓ, mT, mv, mw, h⟩
  annotated mT te h := by
    cases h with
    | kept lax => exact False.elim lax
    | added strict ht =>
        exact ⟨te.annotate ((Reads.tidy_type mT ht).mono fun _ => Context.BindsFree.visible),
          .added (P := Discipline.scoped) strict ht⟩
  simple hΓ _ _ _ _ h := by
    have ⟨_, _, _, _, _, _, _, hD⟩ := h
    exact ⟨hΓ.eval hD, h⟩

/-- What the rules accept in a scoped context is elaborated to a tidy expression, the type that they find
is a type of the context, and so are the types that they compare. -/
structure Judged.Stays (P : Discipline) (Γ : Context) (r : Renaming) (e : Expr) (aim : Aim)
    (core : Expr) : Prop where
  tidy : core.Tidy Γ.Visible Γ.names
  found : aim.Found Γ.BindsFree
  judged : Judged P Γ r e aim core

theorem Judged.stays {P P' : Discipline} (hP : P.Local P') {Γ : Context} {r : Renaming} {e core : Expr}
    {aim : Aim} (h : Judged P Γ r e aim core) :
    Γ.Scoped → aim.Given Γ.BindsFree → Judged.Stays P' Γ r e aim core := by
  induction h with
  | switch _ hT ih =>
      intro hΓ mA
      obtain ⟨te, mT, je⟩ := ih hΓ trivial
      exact ⟨te, trivial, .switch je (hP.sameType hΓ mA mT hT)⟩
  | lift _ hT ih =>
      intro hΓ _
      obtain ⟨te, _, je⟩ := ih hΓ trivial
      exact ⟨te, trivial, .lift je hT⟩
  | var hx hb => exact fun hΓ _ => ⟨⟨_, hx, hb⟩, hΓ.type hx, .var hx hb⟩
  | the _ hT _ iht ihe =>
      intro hΓ _
      have mT := hΓ.eval hT
      obtain ⟨tt, _, jt⟩ := iht hΓ trivial
      obtain ⟨te, _, je⟩ := ihe hΓ mT
      exact ⟨⟨tt, te⟩, mT, .the jt hT je⟩
  | const hc => exact fun _ _ => ⟨trivial, Const.type?_within hc _, .const hc⟩
  | univ => exact fun _ _ => ⟨trivial, trivial, .univ⟩
  | quant ℓ _ hD hy _ ihd ihb =>
      intro hΓ _
      obtain ⟨td, _, jd⟩ := ihd hΓ (ℓ.given_part _)
      obtain ⟨tb, _, jb⟩ := ihb (hΓ.under (hΓ.eval hD) hy) (ℓ.given_part _)
      exact ⟨⟨td, Context.pick_notMem hy, tb.under⟩, ℓ.found_whole _, .quant ℓ jd hD hy jb⟩
  | list ℓ _ ih =>
      intro hΓ _
      obtain ⟨te, _, je⟩ := ih hΓ (ℓ.given_part _)
      exact ⟨te, ℓ.found_whole _, .list ℓ je⟩
  | vec ℓ _ _ ihe ihk =>
      intro hΓ _
      obtain ⟨te, _, je⟩ := ihe hΓ (ℓ.given_part _)
      obtain ⟨tk, _, jk⟩ := ihk hΓ (.const .nat)
      exact ⟨⟨te, tk⟩, ℓ.found_whole _, .vec ℓ je jk⟩
  | either ℓ _ _ iha ihb =>
      intro hΓ _
      obtain ⟨ta, _, ja⟩ := iha hΓ (ℓ.given_part _)
      obtain ⟨tb, _, jb⟩ := ihb hΓ (ℓ.given_part _)
      exact ⟨⟨ta, tb⟩, ℓ.found_whole _, .either ℓ ja jb⟩
  | equal ℓ _ hT _ _ iht iha ihb =>
      intro hΓ _
      have mT := hΓ.eval hT
      obtain ⟨tt, _, jt⟩ := iht hΓ (ℓ.given_part _)
      obtain ⟨ta, _, ja⟩ := iha hΓ mT
      obtain ⟨tb, _, jb⟩ := ihb hΓ mT
      exact ⟨⟨tt, ta, tb⟩, ℓ.found_whole _, .equal ℓ jt hT ja jb⟩
  | lam hA hy hB _ ih =>
      intro hΓ mA
      cases Value.Within.force mA hA with
      | quant _ _ md mR =>
          obtain ⟨tb, _, jb⟩ := ih (hΓ.under md hy) (Context.Scoped.range md mR hy hB)
          exact ⟨⟨Context.pick_notMem hy, tb.under⟩, trivial, .lam hA hy hB jb⟩
  | cons hA _ hv hB _ iha ihb =>
      intro hΓ mA
      cases Value.Within.force mA hA with
      | quant _ _ md mR =>
          obtain ⟨ta, _, ja⟩ := iha hΓ md
          obtain ⟨tb, _, jb⟩ := ihb hΓ (Closure.Within.apply mR (hΓ.eval hv) hB)
          exact ⟨⟨ta, tb⟩, trivial, .cons hA ja hv hB jb⟩
  | add1 _ ih =>
      intro hΓ _
      obtain ⟨te, _, je⟩ := ih hΓ (.const .nat)
      exact ⟨te, .const .nat, .add1 je⟩
  | quote ha => exact fun _ _ => ⟨trivial, .const .atom, .quote (hP.atom ha)⟩
  | nil hA => exact fun _ _ => ⟨trivial, trivial, .nil hA⟩
  | listConsSynth strict _ _ iha ihb =>
      intro hΓ _
      obtain ⟨ta, mE, ja⟩ := iha hΓ trivial
      obtain ⟨tb, _, jb⟩ := ihb hΓ (.unary .list mE)
      exact ⟨⟨ta, tb⟩, .unary .list mE, .listConsSynth (mt hP.lax.1 strict) ja jb⟩
  | listCons hA _ _ iha ihb =>
      intro hΓ mA
      cases Value.Within.force mA hA with
      | unary _ mE =>
          obtain ⟨ta, _, ja⟩ := iha hΓ mE
          obtain ⟨tb, _, jb⟩ := ihb hΓ (.unary .list mE)
          exact ⟨⟨ta, tb⟩, trivial, .listCons hA ja jb⟩
  | vecNil hA hk =>
      intro hΓ mA
      cases Value.Within.force mA hA with
      | binary _ _ mk =>
          exact ⟨trivial, trivial, .vecNil hA (hP.same hΓ (.const .nat) (.const .zero) mk hk)⟩
  | vecCons hA hk _ _ iha ihb =>
      intro hΓ mA
      cases Value.Within.force mA hA with
      | binary _ mE mk =>
          cases Value.Within.force mk hk with
          | unary _ mm =>
              obtain ⟨ta, _, ja⟩ := iha hΓ mE
              obtain ⟨tb, _, jb⟩ := ihb hΓ (.binary .vec mE mm)
              exact ⟨⟨ta, tb⟩, trivial, .vecCons hA hk ja jb⟩
  | left hA _ ih =>
      intro hΓ mA
      cases Value.Within.force mA hA with
      | binary _ mL _ =>
          obtain ⟨te, _, je⟩ := ih hΓ mL
          exact ⟨te, trivial, .left hA je⟩
  | right hA _ ih =>
      intro hΓ mA
      cases Value.Within.force mA hA with
      | binary _ _ mR =>
          obtain ⟨te, _, je⟩ := ih hΓ mR
          exact ⟨te, trivial, .right hA je⟩
  | same hA _ hv ha hb ih =>
      intro hΓ mA
      cases Value.Within.force mA hA with
      | equal mT ma mb =>
          have mv := hΓ.eval hv
          obtain ⟨te, _, je⟩ := ih hΓ mT
          exact ⟨te, trivial,
            .same hA je hv (hP.same hΓ mT ma mv ha) (hP.same hΓ mT mv mb hb)⟩
  | app _ hF _ hv hB ihf iha =>
      intro hΓ _
      obtain ⟨tf, mF, jf⟩ := ihf hΓ trivial
      cases Value.Within.force mF hF with
      | quant _ _ md mR =>
          obtain ⟨ta, _, ja⟩ := iha hΓ md
          exact ⟨⟨tf, ta⟩, Closure.Within.apply mR (hΓ.eval hv) hB, .app jf hF ja hv hB⟩
  | car _ hT ih =>
      intro hΓ _
      obtain ⟨tt, mT, jt⟩ := ih hΓ trivial
      cases Value.Within.force mT hT with
      | quant _ _ md _ => exact ⟨tt, md, .car jt hT⟩
  | cdr _ hT hv ha hB ih =>
      intro hΓ _
      obtain ⟨tt, mT, jt⟩ := ih hΓ trivial
      cases Value.Within.force mT hT with
      | quant _ _ _ mR =>
          exact ⟨tt, Closure.Within.apply mR (Value.Within.car (hΓ.eval hv) ha) hB,
            .cdr jt hT hv ha hB⟩
  | head _ hT hk ih =>
      intro hΓ _
      obtain ⟨tt, mT, jt⟩ := ih hΓ trivial
      cases Value.Within.force mT hT with
      | binary _ mE _ => exact ⟨tt, mE, .head jt hT hk⟩
  | tail _ hT hk ih =>
      intro hΓ _
      obtain ⟨tt, mT, jt⟩ := ih hΓ trivial
      cases Value.Within.force mT hT with
      | binary _ mE mk =>
          cases Value.Within.force mk hk with
          | unary _ mm => exact ⟨tt, .binary .vec mE mm, .tail jt hT hk⟩
  | symm _ hT ih =>
      intro hΓ _
      obtain ⟨tt, mT, jt⟩ := ih hΓ trivial
      cases Value.Within.force mT hT with
      | equal mK ma mb => exact ⟨tt, .equal mK mb ma, .symm jt hT⟩
  | natFold hf _ hT _ _ hB iht ihb ihs =>
      intro hΓ _
      obtain ⟨tt, _, jt⟩ := iht hΓ trivial
      obtain ⟨tb, mB, jb⟩ := ihb hΓ trivial
      obtain ⟨ts, _, js⟩ := ihs hΓ (hf.within mB)
      obtain ⟨tb, hB⟩ := hP.annotated mB tb hB
      exact ⟨⟨tt, tb, ts⟩, mB, .natFold hf jt hT jb js hB⟩
  | recList _ hT _ _ hB iht ihb ihs =>
      intro hΓ _
      obtain ⟨tt, mT, jt⟩ := iht hΓ trivial
      obtain ⟨tb, mB, jb⟩ := ihb hΓ trivial
      cases Value.Within.force mT hT with
      | unary _ mE =>
          obtain ⟨ts, _, js⟩ := ihs hΓ (.piFamily _ mE (.always (.piFamily _ (.unary .list mE)
            (.always (.piFamily _ mB (.always mB))))))
          obtain ⟨tb, hB⟩ := hP.annotated mB tb hB
          exact ⟨⟨tt, tb, ts⟩, mB, .recList jt hT jb js hB⟩
  | indNat _ hT _ hM hZ _ _ hv hB iht ihm ihb ihs =>
      intro hΓ _
      have mM := hΓ.eval hM
      obtain ⟨tt, _, jt⟩ := iht hΓ trivial
      obtain ⟨tm, _, jm⟩ := ihm hΓ (.piFamily _ (.const .nat) (.always (.const .univ)))
      obtain ⟨tb, _, jb⟩ := ihb hΓ (Value.Within.call mM (.const .zero) hZ)
      obtain ⟨ts, _, js⟩ := ihs hΓ (.piFamily _ (.const .nat) (.natStep mM))
      exact ⟨⟨tt, tm, tb, ts⟩, Value.Within.call mM (hΓ.eval hv) hB,
        .indNat jt hT jm hM hZ jb js hv hB⟩
  | indList _ hT _ hM hZ _ _ hv hB iht ihm ihb ihs =>
      intro hΓ _
      obtain ⟨tt, mT, jt⟩ := iht hΓ trivial
      cases Value.Within.force mT hT with
      | unary _ mE =>
          have mM := hΓ.eval hM
          obtain ⟨tm, _, jm⟩ := ihm hΓ (.piFamily _ (.unary .list mE) (.always (.const .univ)))
          obtain ⟨tb, _, jb⟩ := ihb hΓ (Value.Within.call mM (.const .nil) hZ)
          obtain ⟨ts, _, js⟩ := ihs hΓ (.piFamily _ mE (.listStep mE mM))
          exact ⟨⟨tt, tm, tb, ts⟩, Value.Within.call mM (hΓ.eval hv) hB,
            .indList jt hT jm hM hZ jb js hv hB⟩
  | indEither _ hT _ hM _ _ hv hB iht ihm ihb ihs =>
      intro hΓ _
      obtain ⟨tt, mT, jt⟩ := iht hΓ trivial
      cases Value.Within.force mT hT with
      | binary _ mL mR =>
          have mM := hΓ.eval hM
          obtain ⟨tm, _, jm⟩ :=
            ihm hΓ (.piFamily _ (.binary .either mL mR) (.always (.const .univ)))
          obtain ⟨tb, _, jb⟩ := ihb hΓ (.piFamily _ mL (.wrapped .left mM))
          obtain ⟨ts, _, js⟩ := ihs hΓ (.piFamily _ mR (.wrapped .right mM))
          exact ⟨⟨tt, tm, tb, ts⟩, Value.Within.call mM (hΓ.eval hv) hB,
            .indEither jt hT jm hM jb js hv hB⟩
  | indVec _ hn _ hT hl _ hM hZ _ _ hv hB ihk iht ihm ihb ihs =>
      intro hΓ _
      obtain ⟨tk, _, jk⟩ := ihk hΓ (.const .nat)
      obtain ⟨tt, mT, jt⟩ := iht hΓ trivial
      cases Value.Within.force mT hT with
      | binary _ mE ml =>
          have mM := hΓ.eval hM
          have mn := hΓ.eval hn
          obtain ⟨tm, _, jm⟩ := ihm hΓ (.piFamily _ (.const .nat) (.vecMotive mE))
          obtain ⟨tb, _, jb⟩ :=
            ihb hΓ (Value.Within.callBoth mM (.const .zero) (.const .vecNil) hZ)
          obtain ⟨ts, _, js⟩ := ihs hΓ (.piFamily _ (.const .nat) (.vecStep mE mM))
          exact ⟨⟨tk, tt, tm, tb, ts⟩, Value.Within.callBoth mM mn (hΓ.eval hv) hB,
            .indVec jk hn jt hT (hP.same hΓ (.const .nat) mn ml hl) jm hM hZ jb js hv hB⟩
  | indAbsurd _ hT _ hM iht ihm =>
      intro hΓ _
      obtain ⟨tt, _, jt⟩ := iht hΓ trivial
      obtain ⟨tm, _, jm⟩ := ihm hΓ (.const .univ)
      exact ⟨⟨tt.annotate (t := .absurd) trivial, tm⟩, hΓ.eval hM, .indAbsurd jt hT jm hM⟩
  | replace _ hT _ hM hZ _ hB iht ihm ihb =>
      intro hΓ _
      obtain ⟨tt, mT, jt⟩ := iht hΓ trivial
      cases Value.Within.force mT hT with
      | equal mK ma mc =>
          have mM := hΓ.eval hM
          obtain ⟨tm, _, jm⟩ := ihm hΓ (.piFamily _ mK (.always (.const .univ)))
          obtain ⟨tb, _, jb⟩ := ihb hΓ (Value.Within.call mM ma hZ)
          exact ⟨⟨tt, tm, tb⟩, Value.Within.call mM mc hB, .replace jt hT jm hM hZ jb hB⟩
  | indEqual _ hT _ hM hZ _ hv hB iht ihm ihb =>
      intro hΓ _
      obtain ⟨tt, mT, jt⟩ := iht hΓ trivial
      cases Value.Within.force mT hT with
      | equal mK ma mc =>
          have mM := hΓ.eval hM
          obtain ⟨tm, _, jm⟩ := ihm hΓ (.piFamily _ mK (.equalMotive mK ma))
          obtain ⟨tb, _, jb⟩ := ihb hΓ (Value.Within.callBoth mM ma (.unary .same ma) hZ)
          exact ⟨⟨tt, tm, tb⟩, Value.Within.callBoth mM mc (hΓ.eval hv) hB,
            .indEqual jt hT jm hM hZ jb hv hB⟩
  | trans _ hT _ hT' hK hm iha ihb =>
      intro hΓ _
      obtain ⟨ta, mT, ja⟩ := iha hΓ trivial
      obtain ⟨tb, mT', jb⟩ := ihb hΓ trivial
      cases Value.Within.force mT hT with
      | equal mK ml mm =>
          cases Value.Within.force mT' hT' with
          | equal mK' mm' mn =>
              exact ⟨⟨ta, tb⟩, .equal mK ml mn,
                .trans ja hT jb hT' (hP.sameType hΓ mK mK' hK) (hP.same hΓ mK mm mm' hm)⟩
  | sameTrans lax _ hT _ hv hm ihb ihe =>
      intro hΓ _
      obtain ⟨tb, mT, jb⟩ := ihb hΓ trivial
      cases Value.Within.force mT hT with
      | equal mK mm mn =>
          have mv := hΓ.eval hv
          obtain ⟨te, _, je⟩ := ihe hΓ mK
          exact ⟨⟨te, tb⟩, .equal mK mv mn,
            .sameTrans (hP.lax.2 lax) jb hT je hv (hP.same hΓ mK mv mm hm)⟩
  | transSame lax _ hT _ hv hm iha ihe =>
      intro hΓ _
      obtain ⟨ta, mT, ja⟩ := iha hΓ trivial
      cases Value.Within.force mT hT with
      | equal mK ml mm =>
          have mv := hΓ.eval hv
          obtain ⟨te, _, je⟩ := ihe hΓ mK
          exact ⟨⟨ta, te⟩, .equal mK ml mv,
            .transSame (hP.lax.2 lax) ja hT je hv (hP.same hΓ mK mm mv hm)⟩
  | cong _ hT _ hF hd hD hg hu hv hf iht ihf =>
      intro hΓ _
      obtain ⟨tt, mT, jt⟩ := iht hΓ trivial
      obtain ⟨tf, mF, jf⟩ := ihf hΓ trivial
      have mF := Value.Within.force mF hF
      have mg := hΓ.eval hg
      cases Value.Within.force mT hT with
      | equal mK ma mc =>
          have mu := Value.Within.call mg ma hu
          have mv := Value.Within.call mg mc hv
          obtain ⟨tf', annotated⟩ := hP.annotated mF tf hf
          cases mF with
          | quant _ _ md mR =>
              obtain ⟨mD, simple⟩ := hP.simple hΓ mR ma tf hf hD
              exact ⟨⟨tt, tf'⟩, .equal mD mu mv,
                .cong jt hT jf hF (hP.sameType hΓ md mK hd) simple hg hu hv annotated⟩

theorem Admitted.scoped {Γ : Context} (h : Admitted Γ) : Γ.Scoped := by
  induction h with
  | empty => exact ⟨.nil, .nil⟩
  | free _ hx _ hT ih => exact ih.bind hx (.free (ih.eval hT))
  | claim _ hx _ hT ih => exact ih.bind hx (.claim (ih.eval hT))
  | definition _ hx _ hT _ hv ih =>
      rw [Context.bindDefinition_of_notMem hx]
      exact ih.bind hx (.definition (ih.eval hT) (ih.eval hv))

/-- What is delivered in a scoped context is tidy, and its type is a type of the context. -/
theorem Delivered.tidy {Γ : Context} {core : Expr} {o : Option Value} (h : Delivered Γ core o)
    (hΓ : Γ.Scoped) : core.Tidy Γ.Visible Γ.names ∧ ∀ A, o = some A → A.Within Γ.BindsFree := by
  induction h with
  | synth h =>
      obtain ⟨tidy, mT, _⟩ := h.stays Discipline.kernel_local hΓ trivial
      refine ⟨tidy, ?_⟩
      rintro _ ⟨⟩
      exact mT
  | isType h => exact ⟨(h.stays Discipline.kernel_local hΓ trivial).tidy, nofun⟩
  | check _ hA h _ =>
      have mA := hΓ.eval hA
      refine ⟨(h.stays Discipline.kernel_local hΓ mA).tidy, ?_⟩
      rintro _ ⟨⟩
      exact mA
  | checkAlike _ h ih =>
      have mA := ih.2 _ rfl
      refine ⟨(h.stays Discipline.kernel_local hΓ mA).tidy, ?_⟩
      rintro _ ⟨⟩
      exact mA

namespace Context.Matches

variable {K : Correspondence} {Γ Γ' : Context} {x : Name}

theorem bindsFree_iff (h : Γ.Matches K Γ') : Γ.BindsFree x ↔ Γ'.BindsFree x := by
  rcases h.lookup_both x with ⟨hn, hn'⟩ | ⟨b, b', hb, hb', hm⟩
  · simp [BindsFree, hn, hn']
  · cases hm <;> simp [BindsFree, hb, hb']

theorem bindsFree (h : Γ.Matches K Γ') (hx : Γ'.BindsFree x) : Γ.BindsFree x :=
  h.bindsFree_iff.2 hx

theorem visible (h : Γ.Matches K Γ') (hx : Γ'.Visible x) : Γ.Visible x := by
  obtain ⟨c, hc, hclaim⟩ := hx
  rcases h.lookup_both x with ⟨_, hn⟩ | ⟨b, b', hb, hb', hm⟩
  · cases hn.symm.trans hc
  · cases hb'.symm.trans hc
    exact ⟨b, hb, hm.isClaim.trans hclaim⟩

end Context.Matches

/-- In an established context, whatever checking delivers mentions only variables and definitions of the
context. In every session that follows, whatever its value reads back as, at its type or as a type, mentions only
free variables, also if something else is done before the value is read. So does the type of what is delivered. In
all of these, every binder has a name that the context does not have and that no binder around it has. -/
theorem delivered_and_normal_forms_tidy {Γ : Context} {s s' : Session} {core : Expr}
    {o : Option Value} (hΓ : Established s Γ) (h : Delivers Γ s core o s') :
    core.Tidy Γ.Visible Γ.names ∧ ∀ {s₁ ps}, History s' (handed Γ o) s₁ ps →
      (∀ {k v s₂}, (Γ.env.eval k core : ByNeed Value) s₁ = .ok v s₂ →
        ∀ {s₃ ps'}, History s₂ (.value v :: ps) s₃ ps' → ∀ {j e s₄},
          ((∃ A, o = some A ∧ (readBack j Γ A v : ByNeed Expr) s₃ = .ok e s₄) ∨
            (readBackType j Γ v : ByNeed Expr) s₃ = .ok e s₄) → e.Tidy Γ.BindsFree Γ.names) ∧
      ∀ {A}, o = some A → ∀ {j e s₂}, (readBackType j Γ A : ByNeed Expr) s₁ = .ok e s₂ →
        e.Tidy Γ.BindsFree Γ.names := by
  obtain ⟨K, Γ', o', rem, mΓ, ho, held, adm, hd⟩ := h.held hΓ
  have hΓ' := adm.scoped
  obtain ⟨tidy, within⟩ := hd.tidy hΓ'
  have normal : ∀ {e : Expr}, e.Tidy Γ'.BindsFree Γ'.names → e.Tidy Γ.BindsFree Γ.names := fun he => by
    rw [mΓ.names]
    exact he.mono fun _ => mΓ.bindsFree
  refine ⟨?_, fun {s₁ ps} h₁ => ?_⟩
  · rw [mΓ.names]
    exact tidy.mono fun _ => mΓ.visible
  obtain ⟨K₁, le₁, rem₁, held₁⟩ := h₁.held rem held
  refine ⟨?_, ?_⟩
  · intro k v s₂ hv s₃ ps' h₃ j e s₄ he
    obtain ⟨K₂, le₂, rem₂, v', mv, hev⟩ := Yields.eval rem₁.exact (mΓ.mono le₁) core _ _ _ rem₁ hv
    cases rem₂.eq_erase mv
    obtain ⟨K₃, le₃, rem₃, -⟩ := h₃.held rem₂ (.cons mv (held₁.mono le₂))
    have le := le₁.trans (le₂.trans le₃)
    replace mv := mv.mono le₃
    rcases he with ⟨A, rfl, he⟩ | he
    · cases ho with
      | some mA =>
          obtain ⟨_, _, _, hr⟩ := Yields.readings rem₃.exact mΓ.names (.value (mA.mono le) mv) _ _ _ rem₃ he
          exact normal (Reads.tidy_value (within _ rfl) (hΓ'.eval hev) hr)
    · obtain ⟨_, _, _, hr⟩ := Yields.readBackType rem₃.exact (mΓ.mono le) mv _ _ _ rem₃ he
      exact normal (Reads.tidy_type (hΓ'.eval hev) hr)
  · rintro A rfl j e s₂ he
    cases ho with
    | some mA =>
        obtain ⟨_, _, _, hr⟩ := Yields.readBackType rem₁.exact (mΓ.mono le₁) (mA.mono le₁) _ _ _ rem₁ he
        exact normal (Reads.tidy_type (within _ rfl) hr)

/-- `(the (Π ((x Nat)) Nat) (λ (n) m))`. -/
def constantFunction : Expr :=
  .the (.pi "x" .nat .nat) (.lam "n" (.var "m"))

/-- The elaborated form, with another name for the parameter. -/
def constantCore : Expr :=
  .the (.pi "x" .nat .nat) (.lam "n₁" (.var "m"))

/-- A variable `n`, a definition `m` of its successor and a claim `k`. -/
def successorNamed : Context :=
  ((Context.empty.bindFree "n" .nat).bindDefinition "m" .nat (.add1 (.ofVar "n" .nat))).bindClaim "k" .nat

/-- With `n`, `m` and `k` in scope, the type of the function that gives `m` is read back first, and then the function
itself. Its normal form does not mention `m`. -/
theorem constantFunction_tidy : ∃ s₁ s₂ s₃ s₄ s₅ T v, Established s₁ successorNamed ∧
    Delivers successorNamed s₁ constantCore (some T) s₂ ∧
    (readBackType 9 successorNamed T : ByNeed Expr) s₂ = .ok (.pi "x" .nat .nat) s₃ ∧
    (successorNamed.env.eval 9 constantCore : ByNeed Value) s₃ = .ok v s₄ ∧
    (readBack 9 successorNamed T v : ByNeed Expr) s₄ = .ok (.lam "n₁" (.add1 (.var "n"))) s₅ ∧
    constantCore.Tidy successorNamed.Visible successorNamed.names ∧
    Expr.Tidy successorNamed.BindsFree successorNamed.names (.pi "x" .nat .nat) ∧
    Expr.Tidy successorNamed.BindsFree successorNamed.names (.lam "n₁" (.add1 (.var "n"))) := by
  have established := @Established.add _ _ _ successorNamed 9 (.claim "k" .nat)
    (((Established.empty .empty).add (n := 9) (e := .free "n" .nat) (by decide) rfl).add (n := 9)
      (e := .definition "m" .nat (.add1 (.var "n"))) (by decide) rfl) (by decide) rfl
  obtain ⟨tidy, later⟩ := delivered_and_normal_forms_tidy established
    (.synth (n := 9) (e := constantFunction) rfl)
  have normal := later (@History.done _ _ _ _ (.read 9 successorNamed (.type _)) _ _ .start
    (List.cons_subset_cons _ (List.nil_subset _)) rfl)
  exact ⟨_, _, _, _, _, _, _, established, .synth (n := 9) (e := constantFunction) rfl, rfl, rfl, rfl, tidy,
    (later .start).2 rfl (j := 9) rfl, normal.1 (k := 9) rfl .start (j := 9) (.inl ⟨_, rfl, rfl⟩)⟩

end TypeKernel
