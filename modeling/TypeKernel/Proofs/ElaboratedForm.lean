/-
# TypeKernel.Proofs.ElaboratedForm — checking and reading back keep to elaborated form

What evaluation relies on and what checking provides are far apart: annotations are added rule by rule, and
are missed only when a particular eliminator gets stuck, maybe in a closure that is applied much later. In an
established context they agree. Whatever checking returns there is elaborated, its values are prepared, and
so is all that can be reached from them by forcing, applying and taking apart, in whatever order and however
the cells of the session are shared (`Course`). Read back, they give elaborated expressions again
(`elaborated_form_invariant`).
-/
import TypeKernel.Proofs.Instances
import TypeKernel.Proofs.Memoization
import TypeKernel.Proofs.PreparedReading
import TypeKernel.Proofs.Tidy

namespace TypeKernel

set_option autoImplicit false

open Machine

/-! ## Contexts -/

/-- All names are different, and the types and defined values are prepared. -/
structure Context.Prepared (Γ : Context) : Prop where
  nodup : Γ.names.Nodup
  pieces : ∀ b ∈ Γ.bindings, ∀ p ∈ b.2.pieces, TypeKernel.Prepared Γ.BindsFree p

namespace Context

variable {Γ : Context} {x y : Name} {T v : Value} {b : Binding}

theorem Visible.binds (h : Γ.Visible x) : Γ.env.Binds x := by
  obtain ⟨bs⟩ := Γ
  obtain ⟨b, hx, hb⟩ := h
  simp only [lookup, env, Env.Binds] at hx ⊢
  induction bs with
  | nil => cases hx
  | cons c bs ih =>
      obtain ⟨y, c⟩ := c
      rw [List.lookup_cons] at hx
      by_cases hxy : x = y
      · subst hxy
        simp only [beq_self_eq_true, Option.some.injEq] at hx
        subst hx
        cases c with
        | free T => exact ⟨_, Env.get?_extend_self _ _ _⟩
        | definition T v => exact ⟨_, Env.get?_extend_self _ _ _⟩
        | claim T => cases hb
      · rw [beq_false_of_ne hxy] at hx
        cases c with
        | free T => exact (Env.get?_extend_of_ne _ _ (Ne.symm hxy)).symm ▸ ih hx
        | definition T v => exact (Env.get?_extend_of_ne _ _ (Ne.symm hxy)).symm ▸ ih hx
        | claim T => exact ih hx

namespace Prepared

theorem env (h : Γ.Prepared) : TypeKernel.Prepared Γ.BindsFree (.env Γ.env) := by
  have free : ∀ x T, (x, .free T) ∈ Γ.bindings → Γ.BindsFree x := fun x T hx =>
    ⟨T, lookup_of_mem h.nodup hx⟩
  obtain ⟨-, pieces⟩ := h
  obtain ⟨bs⟩ := Γ
  generalize Context.BindsFree ⟨bs⟩ = N at pieces free
  simp only [Context.env] at pieces free ⊢
  induction bs with
  | nil => exact .empty
  | cons c bs ih =>
      obtain ⟨y, c⟩ := c
      have rest := ih (fun b hb => pieces b (.tail _ hb)) fun x T hx => free x T (.tail _ hx)
      have here := pieces _ (.head _)
      cases c with
      | free T => exact .extend rest (.ofVar (here _ (.head _)) (free y T (.head _)))
      | definition T v => exact .extend rest (here _ (.tail _ (.head _)))
      | claim T => exact rest

theorem eval (h : Γ.Prepared) {e : Expr} (he : e.Elaborated Γ.Visible) (hv : Evals Γ.env e v) :
    v.Prepared Γ.BindsFree :=
  h.env.eval (he.mono fun _ => Visible.binds) hv

theorem type (h : Γ.Prepared) (hx : Γ.lookup x = some b) : b.type.Prepared Γ.BindsFree := by
  obtain ⟨l, r, hΓ, -⟩ := List.lookup_eq_some_iff.1 hx
  refine h.pieces (x, b) (by rw [hΓ]; simp) _ ?_
  cases b <;> exact .head _

theorem bind (h : Γ.Prepared) (hx : x ∉ Γ.names)
    (hb : ∀ p ∈ b.pieces, TypeKernel.Prepared Γ.BindsFree p) :
    (Context.mk ((x, b) :: Γ.bindings)).Prepared where
  nodup := h.nodup.cons hx
  pieces := by
    intro c hc p hp
    have hp : TypeKernel.Prepared Γ.BindsFree p := by
      rcases List.mem_cons.1 hc with rfl | hc
      · exact hb p hp
      · exact h.pieces c hc p hp
    exact hp.mono fun _ hz => hz.bind hx

theorem bindFree (h : Γ.Prepared) (hx : x ∉ Γ.names) (hT : T.Prepared Γ.BindsFree) :
    (Γ.bindFree x T).Prepared :=
  h.bind hx (List.forall_mem_singleton.2 hT)

/-- The range of a type, at the variable of a binder that checking enters. -/
theorem range {R : Closure} {B : Value} (hT : T.Prepared Γ.BindsFree)
    (hR : TypeKernel.Prepared Γ.BindsFree (.closure R)) (hy : y = Style.ofHints.pick Γ.names x)
    (hB : Applies R (.ofVar y T) B) : B.Prepared (Γ.bindFree y T).BindsFree := by
  have wider : ∀ z, Γ.BindsFree z → (Γ.bindFree y T).BindsFree z := fun _ hz =>
    hz.bind (Context.pick_notMem hy)
  refine (hR.mono wider).apply (.ofVar (hT.mono wider) ⟨T, ?_⟩) hB
  exact (lookup_bindFree Γ y T y).trans (if_pos rfl)

end Prepared

end Context

/-! ## Checking -/

/-- The type that is given satisfies `P`. -/
def Aim.Takes (P : Value → Prop) : Aim → Prop
  | .check A => P A
  | _ => True

/-- The type that is found satisfies `P`. -/
def Aim.Makes (P : Value → Prop) : Aim → Prop
  | .synth T => P T
  | _ => True

theorem Size.takes_part (N : Name → Prop) (ℓ : Size) : ℓ.part.Takes (Value.Prepared N) := by
  cases ℓ with
  | small => exact .const .univ
  | large => trivial

theorem Size.makes_whole (N : Name → Prop) (ℓ : Size) : ℓ.whole.Makes (Value.Prepared N) := by
  cases ℓ with
  | small => exact .const .univ
  | large => trivial

theorem Const.type?_prepared {c : Const} {T : Value} (h : c.type? = some T) (N : Name → Prop) :
    T.Prepared N := by
  cases c <;> cases h <;> exact .const _

theorem NatFold.prepared {f : Fold} {S : Value → Value} (hf : NatFold f S) {N : Name → Prop}
    {B : Value} (hB : B.Prepared N) : (S B).Prepared N := by
  cases hf with
  | which => exact .piFamily _ (.const .nat) (.always hB)
  | iter => exact .piFamily _ hB (.always hB)
  | recur => exact .piFamily _ (.const .nat) (.always (.piFamily _ hB (.always hB)))

theorem Expr.Elaborated.annotate {N : Name → Prop} {e t : Expr} (he : e.Elaborated N)
    (ht : t.Elaborated N) : (e.annotate t).Elaborated N := by
  cases e with
  | the _ _ => exact he
  | _ => exact ⟨ht, he⟩

theorem Expr.isAnnotated_annotate (e t : Expr) : (e.annotate t).isAnnotated = true := by
  cases e <;> rfl

theorem Expr.Elaborated.under {Γ : Context} {y : Name} {T : Value} {e : Expr}
    (h : e.Elaborated (Γ.bindFree y T).Visible) : e.Elaborated fun z => z = y ∨ Γ.Visible z :=
  h.mono fun _ => Context.visible_bindFree_iff.1

/-- A variable that does not occur need not be in scope. -/
theorem Expr.Elaborated.of_notOccurs {y : Name} {e : Expr} : ∀ {N N' : Name → Prop},
    e.Elaborated N → (∀ x, N x → x = y ∨ N' x) → e.occursFree y = some false → e.Elaborated N' := by
  have under : ∀ {N N' : Name → Prop} (z : Name), (∀ x, N x → x = y ∨ N' x) →
      ∀ x, x = z ∨ N x → x = y ∨ x = z ∨ N' x := fun z h x hx => by
    rcases hx with rfl | hx
    · exact .inr (.inl rfl)
    · exact (h x hx).imp id .inr
  have scope : ∀ {N N' : Name → Prop} {z : Name} {b : Expr}, (∀ {N N' : Name → Prop},
      b.Elaborated N → (∀ x, N x → x = y ∨ N' x) → b.occursFree y = some false → b.Elaborated N') →
      (b.Elaborated fun x => x = z ∨ N x) → (∀ x, N x → x = y ∨ N' x) →
      (if z = y then some false else b.occursFree y) = some false →
      b.Elaborated fun x => x = z ∨ N' x := fun {N N' z b} ih h hN hy => by
    by_cases hz : z = y
    · subst hz
      exact h.mono fun x hx => hx.elim .inl (hN x)
    · rw [if_neg hz] at hy
      exact ih h (under z hN) hy
  induction e with
  | var x =>
      intro N N' h hN hy
      refine (hN x h).resolve_left ?_
      rintro rfl
      simp [occursFree] at hy
  | quote _ => exact fun h _ _ => h
  | const _ => exact fun _ _ _ => trivial
  | todo | malformed _ => exact fun h _ _ => h.elim
  | unary _ _ ih | proj _ _ ih => exact fun h hN hy => ih h hN hy
  | binary _ _ _ ih₁ ih₂ | the _ _ ih₁ ih₂ | app _ _ ih₁ ih₂ | indAbsurd _ _ ih₁ ih₂
  | trans _ _ ih₁ ih₂ =>
      intro N N' h hN hy
      simp only [occursFree, orSearch_eq_false] at hy
      exact ⟨ih₁ h.1 hN hy.1, ih₂ h.2 hN hy.2⟩
  | equal _ _ _ ih₁ ih₂ ih₃ | transport _ _ _ _ ih₁ ih₂ ih₃ =>
      intro N N' h hN hy
      simp only [occursFree, orSearch_eq_false] at hy
      exact ⟨ih₁ h.1 hN hy.1, ih₂ h.2.1 hN hy.2.1, ih₃ h.2.2 hN hy.2.2⟩
  | fold _ _ _ _ iht ihb ihs =>
      intro N N' h hN hy
      simp only [occursFree, orSearch_eq_false] at hy
      exact ⟨h.1, iht h.2.1 hN hy.1, ihb h.2.2.1 hN hy.2.1, ihs h.2.2.2 hN hy.2.2⟩
  | cong _ _ iht ihf =>
      intro N N' h hN hy
      simp only [occursFree, orSearch_eq_false] at hy
      exact ⟨h.1, iht h.2.1 hN hy.1, ihf h.2.2 hN hy.2⟩
  | induct _ _ _ _ _ ih₁ ih₂ ih₃ ih₄ =>
      intro N N' h hN hy
      simp only [occursFree, orSearch_eq_false] at hy
      exact ⟨ih₁ h.1 hN hy.1, ih₂ h.2.1 hN hy.2.1, ih₃ h.2.2.1 hN hy.2.2.1,
        ih₄ h.2.2.2 hN hy.2.2.2⟩
  | indVec _ _ _ _ _ ih₁ ih₂ ih₃ ih₄ ih₅ =>
      intro N N' h hN hy
      simp only [occursFree, orSearch_eq_false] at hy
      exact ⟨ih₁ h.1 hN hy.1, ih₂ h.2.1 hN hy.2.1, ih₃ h.2.2.1 hN hy.2.2.1,
        ih₄ h.2.2.2.1 hN hy.2.2.2.1, ih₅ h.2.2.2.2 hN hy.2.2.2.2⟩
  | quant _ _ _ _ ihd ihr =>
      intro N N' h hN hy
      simp only [occursFree, orSearch_eq_false] at hy
      exact ⟨ihd h.1 hN hy.1, scope ihr h.2 hN hy.2⟩
  | lam _ _ ih => exact fun h hN hy => scope ih h hN hy

/-- Where the kernel annotates, the annotation is there and elaborated. -/
theorem Discipline.Annotated.elaborated {Γ : Context} {T : Value} {e e' : Expr}
    (h : Discipline.kernel.Annotated Γ T e e') (hT : T.Prepared Γ.BindsFree)
    (he : e.Elaborated Γ.Visible) : e'.isAnnotated = true ∧ e'.Elaborated Γ.Visible := by
  cases h with
  | kept => exact ⟨rfl, he⟩
  | added _ ht =>
      have ht := Reads.elaborated rfl ht hT
      exact ⟨Expr.isAnnotated_annotate _ _, he.annotate (ht.mono fun _ => Context.BindsFree.visible)⟩

/-- What the rules accept in a prepared context is elaborated, and the type that they find is prepared. -/
theorem Judged.elaborated {Γ : Context} {r : Renaming} {e core : Expr} {aim : Aim}
    (h : Judged .kernel Γ r e aim core) : Γ.Prepared → aim.Takes (Value.Prepared Γ.BindsFree) →
      core.Elaborated Γ.Visible ∧ aim.Makes (Value.Prepared Γ.BindsFree) := by
  induction h with
  | switch _ _ ih | lift _ _ ih => exact fun hΓ _ => ⟨(ih hΓ trivial).1, trivial⟩
  | var hx hb => exact fun hΓ _ => ⟨⟨_, hx, hb⟩, hΓ.type hx⟩
  | the _ hT _ iht ihe =>
      intro hΓ _
      have ⟨et, _⟩ := iht hΓ trivial
      have pT := hΓ.eval et hT
      exact ⟨⟨et, (ihe hΓ pT).1⟩, pT⟩
  | const hc => exact fun _ _ => ⟨trivial, Const.type?_prepared hc _⟩
  | univ => exact fun _ _ => ⟨trivial, trivial⟩
  | quant ℓ _ hD hy _ ihd ihb =>
      intro hΓ _
      have ⟨ed, _⟩ := ihd hΓ (ℓ.takes_part _)
      have under := hΓ.bindFree (Context.pick_notMem hy) (hΓ.eval ed hD)
      exact ⟨⟨ed, (ihb under (ℓ.takes_part _)).1.under⟩, ℓ.makes_whole _⟩
  | list ℓ _ ih => exact fun hΓ _ => ⟨(ih hΓ (ℓ.takes_part _)).1, ℓ.makes_whole _⟩
  | vec ℓ _ _ ihe ihk =>
      exact fun hΓ _ =>
        ⟨⟨(ihe hΓ (ℓ.takes_part _)).1, (ihk hΓ (.const .nat)).1⟩, ℓ.makes_whole _⟩
  | either ℓ _ _ iha ihb =>
      exact fun hΓ _ =>
        ⟨⟨(iha hΓ (ℓ.takes_part _)).1, (ihb hΓ (ℓ.takes_part _)).1⟩, ℓ.makes_whole _⟩
  | equal ℓ _ hT _ _ iht iha ihb =>
      intro hΓ _
      have ⟨et, _⟩ := iht hΓ (ℓ.takes_part _)
      have pT := hΓ.eval et hT
      exact ⟨⟨et, (iha hΓ pT).1, (ihb hΓ pT).1⟩, ℓ.makes_whole _⟩
  | lam hA hy hB _ ih =>
      intro hΓ pA
      cases Value.Prepared.force pA hA with
      | quant _ pd pR =>
          have under := hΓ.bindFree (Context.pick_notMem hy) pd
          exact ⟨(ih under (Context.Prepared.range pd pR hy hB)).1.under, trivial⟩
  | cons hA _ hv hB _ iha ihb =>
      intro hΓ pA
      cases Value.Prepared.force pA hA with
      | quant _ pd pR =>
          have ⟨ea, _⟩ := iha hΓ pd
          exact ⟨⟨ea, (ihb hΓ (pR.apply (hΓ.eval ea hv) hB)).1⟩, trivial⟩
  | add1 _ ih => exact fun hΓ _ => ⟨(ih hΓ (.const .nat)).1, .const .nat⟩
  | quote ha => exact fun _ _ => ⟨ha, .const .atom⟩
  | nil | vecNil => exact fun _ _ => ⟨trivial, trivial⟩
  | listConsSynth _ _ _ iha ihb =>
      intro hΓ _
      have ⟨ea, pE⟩ := iha hΓ trivial
      exact ⟨⟨ea, (ihb hΓ (.unary .list pE)).1⟩, .unary .list pE⟩
  | listCons hA _ _ iha ihb =>
      intro hΓ pA
      cases Value.Prepared.force pA hA with
      | unary _ pE => exact ⟨⟨(iha hΓ pE).1, (ihb hΓ (.unary .list pE)).1⟩, trivial⟩
  | vecCons hA hk _ _ iha ihb =>
      intro hΓ pA
      cases Value.Prepared.force pA hA with
      | binary _ pE pk =>
          cases Value.Prepared.force pk hk with
          | unary _ pm => exact ⟨⟨(iha hΓ pE).1, (ihb hΓ (.binary .vec pE pm)).1⟩, trivial⟩
  | left hA _ ih =>
      intro hΓ pA
      cases Value.Prepared.force pA hA with | binary _ pL _ => exact ⟨(ih hΓ pL).1, trivial⟩
  | right hA _ ih =>
      intro hΓ pA
      cases Value.Prepared.force pA hA with | binary _ _ pR => exact ⟨(ih hΓ pR).1, trivial⟩
  | same hA _ _ _ _ ih =>
      intro hΓ pA
      cases Value.Prepared.force pA hA with | equal pT _ _ => exact ⟨(ih hΓ pT).1, trivial⟩
  | app _ hF _ hv hB ihf iha =>
      intro hΓ _
      have ⟨ef, pF⟩ := ihf hΓ trivial
      cases Value.Prepared.force pF hF with
      | quant _ pd pR =>
          have ⟨ea, _⟩ := iha hΓ pd
          exact ⟨⟨ef, ea⟩, pR.apply (hΓ.eval ea hv) hB⟩
  | car _ hT ih =>
      intro hΓ _
      have ⟨et, pT⟩ := ih hΓ trivial
      cases Value.Prepared.force pT hT with | quant _ pd _ => exact ⟨et, pd⟩
  | cdr _ hT hv ha hB ih =>
      intro hΓ _
      have ⟨et, pT⟩ := ih hΓ trivial
      cases Value.Prepared.force pT hT with
      | quant _ _ pR => exact ⟨et, pR.apply (Value.Prepared.car (hΓ.eval et hv) ha) hB⟩
  | head _ hT _ ih =>
      intro hΓ _
      have ⟨et, pT⟩ := ih hΓ trivial
      cases Value.Prepared.force pT hT with | binary _ pE _ => exact ⟨et, pE⟩
  | tail _ hT hk ih =>
      intro hΓ _
      have ⟨et, pT⟩ := ih hΓ trivial
      cases Value.Prepared.force pT hT with
      | binary _ pE pk =>
          cases Value.Prepared.force pk hk with | unary _ pm => exact ⟨et, .binary .vec pE pm⟩
  | symm _ hT ih =>
      intro hΓ _
      have ⟨et, pT⟩ := ih hΓ trivial
      cases Value.Prepared.force pT hT with | equal pK pa pb => exact ⟨et, .equal pK pb pa⟩
  | natFold hf _ _ _ _ hB iht ihb ihs =>
      intro hΓ _
      have ⟨eb, pB⟩ := ihb hΓ trivial
      have ⟨annotated, eb'⟩ := hB.elaborated pB eb
      exact ⟨⟨annotated, (iht hΓ trivial).1, eb', (ihs hΓ (hf.prepared pB)).1⟩, pB⟩
  | recList _ hT _ _ hB iht ihb ihs =>
      intro hΓ _
      have ⟨et, pT⟩ := iht hΓ trivial
      have ⟨eb, pB⟩ := ihb hΓ trivial
      have ⟨annotated, eb'⟩ := hB.elaborated pB eb
      cases Value.Prepared.force pT hT with
      | unary _ pE =>
          have ⟨es, _⟩ := ihs hΓ (.piFamily _ pE (.always (.piFamily _ (.unary .list pE)
            (.always (.piFamily _ pB (.always pB))))))
          exact ⟨⟨annotated, et, eb', es⟩, pB⟩
  | indNat _ _ _ hM hZ _ _ hv hB iht ihm ihb ihs =>
      intro hΓ _
      have ⟨et, _⟩ := iht hΓ trivial
      have ⟨em, _⟩ := ihm hΓ (.piFamily _ (.const .nat) (.always (.const .univ)))
      have pM := hΓ.eval em hM
      have ⟨eb, _⟩ := ihb hΓ (Value.Prepared.call pM (.const .zero) hZ)
      have ⟨es, _⟩ := ihs hΓ (.piFamily _ (.const .nat) (.natStep pM))
      exact ⟨⟨et, em, eb, es⟩, Value.Prepared.call pM (hΓ.eval et hv) hB⟩
  | indList _ hT _ hM hZ _ _ hv hB iht ihm ihb ihs =>
      intro hΓ _
      have ⟨et, pT⟩ := iht hΓ trivial
      cases Value.Prepared.force pT hT with
      | unary _ pE =>
          have ⟨em, _⟩ := ihm hΓ (.piFamily _ (.unary .list pE) (.always (.const .univ)))
          have pM := hΓ.eval em hM
          have ⟨eb, _⟩ := ihb hΓ (Value.Prepared.call pM (.const .nil) hZ)
          have ⟨es, _⟩ := ihs hΓ (.piFamily _ pE (.listStep pE pM))
          exact ⟨⟨et, em, eb, es⟩, Value.Prepared.call pM (hΓ.eval et hv) hB⟩
  | indEither _ hT _ hM _ _ hv hB iht ihm ihb ihs =>
      intro hΓ _
      have ⟨et, pT⟩ := iht hΓ trivial
      cases Value.Prepared.force pT hT with
      | binary _ pL pR =>
          have ⟨em, _⟩ := ihm hΓ (.piFamily _ (.binary .either pL pR) (.always (.const .univ)))
          have pM := hΓ.eval em hM
          have ⟨eb, _⟩ := ihb hΓ (.piFamily _ pL (.wrapped .left pM))
          have ⟨es, _⟩ := ihs hΓ (.piFamily _ pR (.wrapped .right pM))
          exact ⟨⟨et, em, eb, es⟩, Value.Prepared.call pM (hΓ.eval et hv) hB⟩
  | indVec _ hn _ hT _ _ hM hZ _ _ hv hB ihk iht ihm ihb ihs =>
      intro hΓ _
      have ⟨ek, _⟩ := ihk hΓ (.const .nat)
      have ⟨et, pT⟩ := iht hΓ trivial
      cases Value.Prepared.force pT hT with
      | binary _ pE _ =>
          have ⟨em, _⟩ := ihm hΓ (.piFamily _ (.const .nat) (.vecMotive pE))
          have pM := hΓ.eval em hM
          have ⟨eb, _⟩ := ihb hΓ (Value.Prepared.callBoth pM (.const .zero) (.const .vecNil) hZ)
          have ⟨es, _⟩ := ihs hΓ (.piFamily _ (.const .nat) (.vecStep pE pM))
          exact ⟨⟨ek, et, em, eb, es⟩,
            Value.Prepared.callBoth pM (hΓ.eval ek hn) (hΓ.eval et hv) hB⟩
  | indAbsurd _ _ _ hM iht ihm =>
      intro hΓ _
      have ⟨et, _⟩ := iht hΓ trivial
      have ⟨em, _⟩ := ihm hΓ (.const .univ)
      exact ⟨⟨et.annotate (t := .absurd) trivial, em⟩, hΓ.eval em hM⟩
  | replace _ hT _ hM hZ _ hB iht ihm ihb =>
      intro hΓ _
      have ⟨et, pT⟩ := iht hΓ trivial
      cases Value.Prepared.force pT hT with
      | equal pK pa pc =>
          have ⟨em, _⟩ := ihm hΓ (.piFamily _ pK (.always (.const .univ)))
          have pM := hΓ.eval em hM
          have ⟨eb, _⟩ := ihb hΓ (Value.Prepared.call pM pa hZ)
          exact ⟨⟨et, em, eb⟩, Value.Prepared.call pM pc hB⟩
  | indEqual _ hT _ hM hZ _ hv hB iht ihm ihb =>
      intro hΓ _
      have ⟨et, pT⟩ := iht hΓ trivial
      cases Value.Prepared.force pT hT with
      | equal pK pa pc =>
          have ⟨em, _⟩ := ihm hΓ (.piFamily _ pK (.equalMotive pK pa))
          have pM := hΓ.eval em hM
          have ⟨eb, _⟩ := ihb hΓ (Value.Prepared.callBoth pM pa (.unary .same pa) hZ)
          exact ⟨⟨et, em, eb⟩, Value.Prepared.callBoth pM pc (hΓ.eval et hv) hB⟩
  | trans _ hT _ hT' _ _ iha ihb =>
      intro hΓ _
      have ⟨ea, pT⟩ := iha hΓ trivial
      have ⟨eb, pT'⟩ := ihb hΓ trivial
      cases Value.Prepared.force pT hT with
      | equal pK pl _ =>
          cases Value.Prepared.force pT' hT' with
          | equal _ _ pn => exact ⟨⟨ea, eb⟩, .equal pK pl pn⟩
  | sameTrans hP | transSame hP => exact hP.elim
  | cong _ hT _ hF _ hD hg hu hv hf iht ihf =>
      intro hΓ _
      have ⟨et, pT⟩ := iht hΓ trivial
      have ⟨ef, pF⟩ := ihf hΓ trivial
      have pF := Value.Prepared.force pF hF
      have pg := hΓ.eval ef hg
      obtain ⟨y, B, n, hy, hB, hn, absent, hD⟩ := hD
      cases Value.Prepared.force pT hT with
      | equal _ pa pc =>
          have ⟨annotated, ef'⟩ := hf.elaborated pF ef
          cases pF with
          | quant _ pd pR =>
              -- The range is read back with a variable that it turns out not to mention.
              have en := Reads.elaborated rfl hn (Context.Prepared.range pd pR hy hB)
              have en := en.of_notOccurs
                (fun _ hx => Context.visible_bindFree_iff.1 hx.visible) absent
              exact ⟨⟨annotated, et, ef'⟩, .equal (hΓ.eval en hD) (Value.Prepared.call pg pa hu)
                (Value.Prepared.call pg pc hv)⟩

theorem Admitted.prepared {Γ : Context} (h : Admitted Γ) : Γ.Prepared := by
  induction h with
  | empty => exact ⟨.nil, nofun⟩
  | free _ hx ht hT ih => exact ih.bindFree hx (ih.eval (ht.elaborated ih trivial).1 hT)
  | claim _ hx ht hT ih =>
      exact ih.bind hx (List.forall_mem_singleton.2 (ih.eval (ht.elaborated ih trivial).1 hT))
  | definition _ hx ht hT hd hv ih =>
      rw [Context.bindDefinition_of_notMem hx]
      have pT := ih.eval (ht.elaborated ih trivial).1 hT
      have pv := ih.eval (hd.elaborated ih pT).1 hv
      exact ih.bind hx (List.forall_mem_cons.2 ⟨pT, List.forall_mem_singleton.2 pv⟩)

/-! ## Sessions -/

namespace Context

variable {Γ Γ' : Context} {K : Correspondence} {s : Session} {x : Name}

theorem lookup_erase (Γ : Context) (x : Name) : Γ.erase.lookup x = (Γ.lookup x).map Binding.erase := by
  obtain ⟨bs⟩ := Γ
  simp only [lookup, erase]
  induction bs with
  | nil => rfl
  | cons b bs ih =>
      rw [List.map_cons, List.lookup_cons, List.lookup_cons]
      cases x == b.1 with
      | true => rfl
      | false => exact ih

theorem visible_erase : Γ.erase.Visible x ↔ Γ.Visible x := by
  simp only [Visible, lookup_erase, Option.map_eq_some_iff]
  constructor
  · rintro ⟨_, ⟨b, hb, rfl⟩, hc⟩
    refine ⟨b, hb, ?_⟩
    cases b <;> exact hc
  · rintro ⟨b, hb, hc⟩
    refine ⟨_, ⟨b, hb, rfl⟩, ?_⟩
    cases b <;> exact hc

/-- What matches a context in a faithful session is the context without its cells. -/
theorem Matches.eq_erase (h : Γ.Matches K Γ') (rem : Remembers K s) : Γ' = Γ.erase := by
  obtain ⟨bs⟩ := Γ
  obtain ⟨bs'⟩ := Γ'
  simp only [Matches] at h
  simp only [erase, Context.mk.injEq]
  induction h with
  | nil => rfl
  | @cons b c _ _ hb _ ih =>
      obtain ⟨x, b⟩ := b
      obtain ⟨y, c⟩ := c
      obtain ⟨rfl, hb⟩ := hb
      rw [List.map_cons, ih]
      cases hb with
      | free hT =>
          cases rem.eq_erase hT
          rfl
      | definition hT hv =>
          cases rem.eq_erase hT
          cases rem.eq_erase hv
          rfl
      | claim hT =>
          cases rem.eq_erase hT
          rfl

end Context

theorem Binding.pieces_erase (b : Binding) : b.erase.pieces = b.pieces.map Piece.erase := by
  cases b <;> rfl

/-- The pieces of a context, without their cells. -/
theorem Context.Prepared.erased {Γ : Context} (h : Γ.erase.Prepared) :
    ∀ p ∈ Γ.pieces, TypeKernel.Prepared Γ.erase.BindsFree p.erase := by
  refine List.forall_mem_cons.2 ⟨?_, fun p hp => ?_⟩
  · have := h.env
    rwa [Γ.env_erase] at this
  · obtain ⟨b, hb, hp⟩ := List.mem_flatMap.1 hp
    refine h.pieces (b.1, b.2.erase) (List.mem_map_of_mem hb) _ ?_
    rw [Binding.pieces_erase]
    exact List.mem_map_of_mem hp

/-- What can be done with elaborated expressions of a context and the pieces at hand: evaluate, check in the
context, force, apply, and read back. -/
def Act.Uses (Γ : Context) (ps : List Piece) : Act → Prop
  | .suspend ρ e | .answer _ (.eval ρ e) => ρ = Γ.env ∧ e.Elaborated Γ.Visible
  | .report _ => True
  | .answer _ (.force v) => .value v ∈ ps
  | .answer _ (.apply c v) => .closure c ∈ ps ∧ .value v ∈ ps
  | .answer _ _ => False
  | .read _ _ r => r.pieces ⊆ ps
  | .synth _ Δ _ _ | .isType _ Δ _ _ => Δ = Γ
  | .check _ Δ _ A _ => Δ = Γ ∧ .value A ∈ ps

/-- Sessions that follow `s₀` when elaborated expressions of a context are put to use, and the pieces at hand
there: the values of the context, what evaluation and checking returned, and parts of these. -/
inductive Course (Γ : Context) (s₀ : Session) : Session → List Piece → Prop
  | start : Course Γ s₀ s₀ Γ.pieces
  /-- A piece is taken apart. -/
  | part {s ps p q} (h : Course Γ s₀ s ps) (hp : p ∈ ps) (hq : q ∈ p.parts) : Course Γ s₀ s (q :: ps)
  /-- Something is done. -/
  | done {s ps act qs s'} (h : Course Γ s₀ s ps) (ha : Act.Uses Γ ps act)
      (hqs : act.perform s = .ok qs s') : Course Γ s₀ s' (qs ++ ps)
  /-- Something is begun but stops. -/
  | stopped {s ps act reason s'} (h : Course Γ s₀ s ps) (ha : Act.Uses Γ ps act)
      (hs : act.perform s = .error reason s') : Course Γ s₀ s' ps

/-- An act uses pieces at hand. -/
theorem Act.Uses.pieces_subset {Γ : Context} {ps : List Piece} {act : Act} (h : act.Uses Γ ps)
    (hΓ : Γ.pieces ⊆ ps) : act.pieces ⊆ ps := by
  have env : [Piece.env Γ.env] ⊆ ps := by simpa using hΓ (.head _)
  cases act with
  | suspend ρ e =>
      obtain ⟨rfl, -⟩ := h
      exact env
  | report _ => exact List.nil_subset _
  | answer n r =>
      cases r with
      | eval ρ e =>
          obtain ⟨rfl, -⟩ := h
          exact env
      | force v => exact List.cons_subset.2 ⟨h, List.nil_subset _⟩
      | apply c v => exact List.cons_subset.2 ⟨h.1, List.cons_subset.2 ⟨h.2, List.nil_subset _⟩⟩
      | _ => exact h.elim
  | read n Δ r => exact h
  | synth n Δ e r | isType n Δ e r =>
      cases h
      exact hΓ
  | check n Δ e A r =>
      obtain ⟨rfl, hA⟩ := h
      exact List.cons_subset.2 ⟨hA, hΓ⟩

theorem Course.history {Γ : Context} {s₀ s : Session} {ps : List Piece} (h : Course Γ s₀ s ps) :
    History s₀ Γ.pieces s ps := by
  induction h with
  | start => exact .start
  | part _ hp hq ih => exact .part ih hp hq
  | done _ ha hqs ih => exact .done ih (ha.pieces_subset ih.subset) hqs
  | stopped _ ha hs ih => exact .stopped ih (ha.pieces_subset ih.subset) hs

/-- How a computation by need ends: with a result that satisfies `P`, or with a failure that is not for the
lack of elaboration, or because it runs out of steps. -/
def Spares {α : Type} (P : α → Prop) (x : ByNeed α) (s : Session) : Prop :=
  Spared P (x.outcome s)

theorem Spares.of_ok {α : Type} {P : α → Prop} {x : ByNeed α} {s s' : Session} {a : α}
    (h : Spares P x s) (hx : x s = .ok a s') : P a := by
  unfold Spares ByNeed.outcome at h
  rw [hx] at h
  exact h.of_ok rfl

/-- What a sequence returns is returned by its last part. -/
theorem ByNeed.bind_eq_ok {α β : Type} {x : ByNeed α} {f : α → ByNeed β} {s s' : Session} {b : β}
    (h : (x >>= f) s = .ok b s') : ∃ a t, x s = .ok a t ∧ f a t = .ok b s' := by
  simp only [Bind.bind, EStateM.bind] at h
  split at h
  · exact ⟨_, _, ‹_›, h⟩
  · cases h

theorem Follows.spares {α β : Type} {F : Pairing → Prop} {E : Leaves} {n : Nat} {K : Correspondence}
    {R : Correspondence → α → β → Prop} {y : Nat → ByName β} {x : ByNeed α} {s : Session} {P : β → Prop}
    {Q : α → Prop} (h : Follows F E n K R y (x s)) (hy : ∀ i, Spared P (y i))
    (hQ : ∀ {K' s' a b}, Faithful F K' s' → R K' a b → P b → Q a) : Spares Q x s := by
  unfold Spares ByNeed.outcome
  cases hx : x s with
  | ok a s' =>
      rw [hx] at h
      obtain ⟨K', b, _, rem, hab, ⟨N, hN⟩, -⟩ := h
      exact .ok (hQ rem hab ((hy N).of_ok (hN N (Nat.le_refl N))))
  | error reason s' =>
      rw [hx] at h
      cases reason with
      | exhausted => exact .exhausted
      | failed e =>
          obtain ⟨-, ⟨N, hN⟩, -⟩ := h
          have spared := hy N
          rw [hN N (Nat.le_refl N)] at spared
          cases spared with
          | failed he => exact .failed he

/-- The session is faithful, and what is at hand is prepared. -/
structure Course.Ready (Γ : Context) (K : Correspondence) (s : Session) (ps : List Piece) : Prop where
  context : Γ.erase.Prepared
  own : Γ.pieces ⊆ ps
  remembers : Remembers K s
  held : Held K ps
  prepared : ∀ p ∈ ps, Prepared Γ.erase.BindsFree p.erase

namespace Course.Ready

variable {Γ : Context} {K : Correspondence} {s s' : Session} {ps : List Piece}
  (h : Course.Ready Γ K s ps)

include h

theorem matched : Γ.Matches K Γ.erase := (h.held.of_subset h.own).context

theorem env : Prepared Γ.erase.BindsFree (.env Γ.env.erase) := h.prepared _ (h.own (.head _))

omit h in
theorem code {e : Expr} (he : e.Elaborated Γ.Visible) : e.Elaborated Γ.env.erase.Binds := by
  rw [← Γ.env_erase]
  exact he.mono fun _ hx => (Context.visible_erase.2 hx).binds

/-- Whatever is asked about prepared values is answered with a prepared value. -/
theorem answer (n : Nat) {r : Request} (hr : r.pieces ⊆ ps)
    (hp : (Prepared.invariant Γ.erase.BindsFree).Permits r.erase) :
    Spares (fun v => v.erase.Prepared Γ.erase.BindsFree) (run n r) s := by
  have follows := byNeed_run n ((h.held.of_subset hr).request h.remembers.exact) s h.remembers
  refine Follows.spares follows (fun i => .imp (run_prepared _ i hp) fun _ hb => hb.1) fun rem hv hb => ?_
  cases rem.eq_erase hv
  exact hb

theorem eval (n : Nat) {e : Expr} (he : e.Elaborated Γ.Visible) :
    Spares (fun v => v.erase.Prepared Γ.erase.BindsFree) (Γ.env.eval n e) s :=
  h.answer n (List.cons_subset.2 ⟨h.own (.head _), List.nil_subset _⟩) ⟨h.env, code he⟩

theorem force (n : Nat) {v : Value} (hv : .value v ∈ ps) :
    Spares (fun v => v.erase.Prepared Γ.erase.BindsFree) (v.force n) s :=
  h.answer n (List.cons_subset.2 ⟨hv, List.nil_subset _⟩) (h.prepared _ hv)

theorem apply (n : Nat) {c : Closure} {v : Value} (hc : .closure c ∈ ps) (hv : .value v ∈ ps) :
    Spares (fun v => v.erase.Prepared Γ.erase.BindsFree) (c.apply n v) s :=
  h.answer n (List.cons_subset.2 ⟨hc, List.cons_subset.2 ⟨hv, List.nil_subset _⟩⟩)
    ⟨h.prepared _ hc, h.prepared _ hv⟩

theorem reading (n : Nat) {r : Reading} (hr : r.pieces ⊆ ps) :
    Spares (Expr.Elaborated Γ.Visible) (readings n Γ r) s := by
  have hp : r.erase.Prepared Γ.erase.BindsFree := by
    cases r with
    | value A v => exact ⟨h.prepared _ (hr (.head _)), h.prepared _ (hr (.tail _ (.head _)))⟩
    | type v => exact h.prepared _ (hr (.head _))
    | neutral e => exact h.prepared _ (hr (.head _))
  have follows := byNeed_readings n h.remembers.exact h.matched.names (h.held.of_subset hr).reading
    s h.remembers
  refine Follows.spares follows (fun i => readings_elaborated i _ hp) fun _ he hb => ?_
  subst he
  exact hb.mono fun _ hx => Context.visible_erase.1 hx.visible

theorem synth {n : Nat} {e : Expr} {r : Renaming} {p : Expr × Value}
    (hp : (synthesize n Γ e r : ByNeed (Expr × Value)) s = .ok p s') :
    p.1.Elaborated Γ.Visible ∧ p.2.erase.Prepared Γ.erase.BindsFree := by
  obtain ⟨K', _, rem, T', hT, hj⟩ :=
    (Yields.synthesize r h.remembers.exact h.matched).ok h.remembers hp
  obtain ⟨elaborated, found⟩ := hj.elaborated h.context trivial
  cases rem.eq_erase hT
  exact ⟨elaborated.mono fun _ => Context.visible_erase.1, found⟩

theorem check {n : Nat} {e core : Expr} {r : Renaming} {A : Value} (hA : .value A ∈ ps)
    (hc : (TypeKernel.check n Γ e A r : ByNeed Expr) s = .ok core s') :
    core.Elaborated Γ.Visible := by
  obtain ⟨_, _, _, hj⟩ :=
    (Yields.check r h.remembers.exact h.matched (h.held _ hA)).ok h.remembers hc
  exact (hj.elaborated h.context (h.prepared _ hA)).1.mono fun _ => Context.visible_erase.1

theorem isType {n : Nat} {e core : Expr} {r : Renaming}
    (hc : (TypeKernel.isType n Γ e r : ByNeed Expr) s = .ok core s') :
    core.Elaborated Γ.Visible := by
  obtain ⟨_, _, _, hj⟩ :=
    (Yields.isType r h.remembers.exact h.matched).ok h.remembers hc
  exact (hj.elaborated h.context trivial).1.mono fun _ => Context.visible_erase.1

theorem act {act : Act} (ha : act.Uses Γ ps) {qs : List Piece} (hqs : act.perform s = .ok qs s') :
    ∀ p ∈ qs, Prepared Γ.erase.BindsFree p.erase := by
  cases act with
  | suspend ρ e =>
      obtain ⟨rfl, he⟩ := ha
      cases hqs
      exact List.forall_mem_singleton.2 (.delayed h.env (code he))
  | report event =>
      cases hqs
      exact List.forall_mem_nil _
  | answer n r =>
      have spares : Spares (fun v => v.erase.Prepared Γ.erase.BindsFree) (run n r) s := by
        cases r with
        | eval ρ e =>
            obtain ⟨rfl, he⟩ := ha
            exact h.eval n he
        | force v => exact h.force n ha
        | apply c v => exact h.apply n ha.1 ha.2
        | _ => exact ha.elim
      obtain ⟨v, _, hv, hqs⟩ := ByNeed.bind_eq_ok hqs
      cases hqs
      exact List.forall_mem_singleton.2 (spares.of_ok hv)
  | synth n Δ e r =>
      cases ha
      obtain ⟨p, _, hp, hqs⟩ := ByNeed.bind_eq_ok hqs
      cases hqs
      exact List.forall_mem_singleton.2 (h.synth hp).2
  | read n Δ r | check n Δ e A r | isType n Δ e r =>
      obtain ⟨_, _, _, hqs⟩ := ByNeed.bind_eq_ok hqs
      cases hqs
      exact List.forall_mem_nil _

end Course.Ready

/-- In an established context everything at hand is prepared, whatever the course of events. -/
theorem Course.ready {Γ : Context} {s₀ s : Session} {ps : List Piece} (hΓ : Established s₀ Γ)
    (h : Course Γ s₀ s ps) : ∃ K, Course.Ready Γ K s ps := by
  obtain ⟨K₀, Γ', rem₀, mΓ, adm⟩ := hΓ.admitted
  cases mΓ.eq_erase rem₀
  have ready : ∀ {s ps}, Course Γ s₀ s ps → (∀ p ∈ ps, Prepared Γ.erase.BindsFree p.erase) →
      ∃ K, Course.Ready Γ K s ps := fun h prepared => by
    obtain ⟨K, -, rem, held⟩ := h.history.held rem₀ (mΓ.held rem₀)
    exact ⟨K, adm.prepared, h.history.subset, rem, held, prepared⟩
  refine ready h ?_
  induction h with
  | start => exact adm.prepared.erased
  | part _ hp hq ih =>
      refine List.forall_mem_cons.2 ⟨(ih _ hp).parts _ ?_, ih⟩
      rw [Piece.parts_erase]
      exact List.mem_map_of_mem hq
  | done h ha hqs ih =>
      obtain ⟨_, ready⟩ := ready h ih
      exact List.forall_mem_append.2 ⟨ready.act ha hqs, ih⟩
  | stopped _ _ _ ih => exact ih

/-- In an established context, whatever checking returns is elaborated and refers to variables and
definitions of the context only, and so is whatever values at hand read back as, at types at hand or as
types. Evaluating elaborated expressions, forcing values at hand and reading them back never meets a hole, an
unknown form, a variable without a value, or a stuck eliminator whose base has no type. -/
theorem elaborated_form_invariant {Γ : Context} {s₀ s : Session} {ps : List Piece}
    (hΓ : Established s₀ Γ) (h : Course Γ s₀ s ps) :
    (∀ {n e r core T s'}, (synthesize n Γ e r : ByNeed (Expr × Value)) s = .ok (core, T) s' →
      core.Elaborated Γ.Visible) ∧
    (∀ {n e A r core s'}, .value A ∈ ps → (check n Γ e A r : ByNeed Expr) s = .ok core s' →
      core.Elaborated Γ.Visible) ∧
    (∀ {n e r core s'}, (isType n Γ e r : ByNeed Expr) s = .ok core s' →
      core.Elaborated Γ.Visible) ∧
    (∀ n {e}, e.Elaborated Γ.Visible → Spares (fun _ => True) (Γ.env.eval n e) s) ∧
    (∀ n {v}, .value v ∈ ps → Spares (fun _ => True) (v.force n) s) ∧
    (∀ n {A v}, .value A ∈ ps → .value v ∈ ps →
      Spares (Expr.Elaborated Γ.Visible) (readBack n Γ A v) s) ∧
    ∀ n {A}, .value A ∈ ps → Spares (Expr.Elaborated Γ.Visible) (readBackType n Γ A) s := by
  obtain ⟨K, ready⟩ := h.ready hΓ
  refine ⟨fun hr => (ready.synth hr).1, fun hA hr => ready.check hA hr, fun hr => ready.isType hr,
    fun n e he => (ready.eval n he).imp fun _ _ => trivial,
    fun n v hv => (ready.force n hv).imp fun _ _ => trivial, fun n A v hA hv => ?_, fun n A hA => ?_⟩
  · exact ready.reading n (List.cons_subset.2 ⟨hA, List.cons_subset.2 ⟨hv, List.nil_subset _⟩⟩)
  · exact ready.reading n (List.cons_subset.2 ⟨hA, List.nil_subset _⟩)

/-- `(rec-Nat n zero (λ (k) (λ (m) (add1 m))))`. -/
def copied : Expr :=
  .fold .recNat (.var "n") .zero (.lam "k" (.lam "m" (.add1 (.var "m"))))

/-- As it stands, this fails where `n` is a variable: nothing tells the type of the base. -/
example : (run 5 (.eval (.extend .empty "n" (.ofVar "n" .nat)) copied) : ByName Value) =
    .error (.failed (.defect (.untypedBase (.fold .recNat)))) := rfl

/-- With a number `n` in the context it is elaborated with an annotation on its base, and its value reads
back as an elaborated expression. -/
theorem copied_elaborated : ∃ Γ s₁ s₂ s₃ core T v, Established s₁ Γ ∧
    (synthesize 9 Γ copied .empty : ByNeed (Expr × Value)) s₁ = .ok (core, T) s₂ ∧
    core.Elaborated Γ.Visible ∧ (Γ.env.eval 9 core : ByNeed Value) s₂ = .ok v s₃ ∧
    ByNeed.outcome (readBack 9 Γ T v) s₃ = .ok core ∧
    Spares (Expr.Elaborated Γ.Visible) (readBack 9 Γ T v) s₃ := by
  let Γ : Context := ⟨[("n", .free .nat)]⟩
  let s₁ : Session := ⟨#[], [.synthesizing .nat]⟩
  have established : Established s₁ Γ :=
    (Established.empty .empty).add (n := 9) (e := .free "n" .nat) (by decide) rfl
  obtain ⟨synthesized, -⟩ := elaborated_form_invariant established .start
  have elaborated := @synthesized 9 copied .empty _ _ _ rfl
  have checked := @Course.done Γ s₁ s₁ _ (.synth 9 Γ copied .empty) _ _ .start rfl rfl
  have evaluated := @Course.done Γ s₁ _ _ (.answer 9 (.eval Γ.env _)) _ _ checked
    ⟨rfl, elaborated⟩ rfl
  obtain ⟨-, -, -, -, -, reads, -⟩ := elaborated_form_invariant established evaluated
  exact ⟨Γ, s₁, _, _, _, _, _, established, rfl, elaborated, rfl, rfl,
    reads 9 (.tail _ (.head _)) (.head _)⟩

end TypeKernel
