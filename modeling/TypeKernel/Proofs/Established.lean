/-
# TypeKernel.Proofs.Established — contexts built from accepted entries

A context is established if it was built entry by entry, each entry accepted in the context so far, with
names that are all different. `Established s Γ` says this of the context by need, together with a session that
it was built in. Between two entries anything may be done there. `Admitted Γ` says it of the same context by
name, in terms of the typing rules. Every established context matches an admitted one, to which the theory of
values applies.
-/
import TypeKernel.Entry
import TypeKernel.Proofs.History

namespace TypeKernel

set_option autoImplicit false

open Machine

/-- The name that an entry binds. -/
def Entry.name : Entry → Name
  | .free x _ => x
  | .claim x _ => x
  | .definition x _ _ => x

/-- Contexts of accepted entries with different names. -/
inductive Established : Session → Context → Prop
  | empty (s : Session) : Established s .empty
  | add {s s' : Session} {Γ Γ' : Context} {n : Nat} {e : Entry} (h : Established s Γ)
      (hx : e.name ∉ Γ.names) (hadd : (Γ.add n e : ByNeed Context) s = .ok Γ' s') :
      Established s' Γ'
  | after {s s' : Session} {Γ : Context} {ps : List Piece} (h : Established s Γ)
      (later : History s Γ.pieces s' ps) : Established s' Γ

/-- Contexts of entries that the typing rules accept, with different names. -/
inductive Admitted : Context → Prop
  | empty : Admitted .empty
  | free {Γ x e t T} (h : Admitted Γ) (hx : x ∉ Γ.names) (ht : Judged .kernel Γ .empty e .isType t)
      (hT : Evals Γ.env t T) : Admitted (Γ.bindFree x T)
  | claim {Γ x e t T} (h : Admitted Γ) (hx : x ∉ Γ.names) (ht : Judged .kernel Γ .empty e .isType t)
      (hT : Evals Γ.env t T) : Admitted (Γ.bindClaim x T)
  | definition {Γ x e t T d d' v} (h : Admitted Γ) (hx : x ∉ Γ.names)
      (ht : Judged .kernel Γ .empty e .isType t) (hT : Evals Γ.env t T)
      (hd : Judged .kernel Γ .empty d (.check T) d') (hv : Evals Γ.env d' v) :
      Admitted (Γ.bindDefinition x T v)

/-- Without a claim to replace, a definition is put in front. -/
theorem Context.bindDefinition_of_notMem {Γ : Context} {x : Name} (hx : x ∉ Γ.names)
    (T v : Value) : Γ.bindDefinition x T v = ⟨(x, .definition T v) :: Γ.bindings⟩ := by
  rw [bindDefinition, List.filter_eq_self.2]
  intro p hp
  have hne : p.1 ≠ x := fun h => hx (h ▸ List.mem_map_of_mem hp)
  simp [hne]

namespace Yields

variable {K : Correspondence} {Γ Γ' : Context} {n : Nat}

theorem typeValue (hK : K.Exact) (h : Γ.Matches K Γ') (e : Expr) :
    Yields K (typeValue n Γ e) fun K' T => ∃ T' t, Both K' T T' ∧
      Judged .kernel Γ' .empty e .isType t ∧ Evals Γ'.env t T' := by
  refine (Yields.isType .empty hK h).bind fun K₁ t le₁ hK₁ ht => ?_
  exact (eval hK₁ (h.mono le₁) t).imp fun _ _ _ ⟨T', hT, hev⟩ => ⟨T', t, hT, ht, hev⟩

theorem valueAt (hK : K.Exact) (h : Γ.Matches K Γ') (e : Expr) {T T' : Value} (hT : Both K T T') :
    Yields K (valueAt n Γ e T) fun K' v => ∃ v' d, Both K' v v' ∧
      Judged .kernel Γ' .empty e (.check T') d ∧ Evals Γ'.env d v' := by
  refine (Yields.check .empty hK h hT).bind fun K₁ d le₁ hK₁ hd => ?_
  exact (eval hK₁ (h.mono le₁) d).imp fun _ _ _ ⟨v', hv, hev⟩ => ⟨v', d, hv, hd, hev⟩

/-- An accepted entry keeps the contexts alike, and the one by name admitted. -/
theorem add (hK : K.Exact) (h : Γ.Matches K Γ') (hΓ : Admitted Γ') {entry : Entry}
    (hx : entry.name ∉ Γ.names) :
    Yields K (Γ.add n entry) fun K' Δ => ∃ Δ', Δ.Matches K' Δ' ∧ Admitted Δ' := by
  cases entry with
  | free x e =>
      refine (typeValue hK h e).bind fun K₁ T le₁ _ ⟨T', t, hT, ht, hev⟩ => ?_
      rw [h.names] at hx
      exact pure ⟨_, (h.mono le₁).bindFree x hT, hΓ.free hx ht hev⟩
  | claim x e =>
      refine (typeValue hK h e).bind fun K₁ T le₁ _ ⟨T', t, hT, ht, hev⟩ => ?_
      rw [h.names] at hx
      exact pure ⟨Γ'.bindClaim x T', .cons ⟨rfl, .claim hT⟩ (h.mono le₁), hΓ.claim hx ht hev⟩
  | definition x e d =>
      refine (typeValue hK h e).bind fun K₁ T le₁ hK₁ ⟨T', t, hT, ht, hev⟩ => ?_
      refine (valueAt hK₁ (h.mono le₁) d hT).bind fun K₂ v le₂ _ ⟨v', d', hv, hd, hevd⟩ => ?_
      change x ∉ Γ.names at hx
      have hx' : x ∉ Γ'.names := h.names ▸ hx
      refine pure ⟨_, ?_, hΓ.definition hx' ht hev hd hevd⟩
      rw [Context.bindDefinition_of_notMem hx, Context.bindDefinition_of_notMem hx']
      exact .cons ⟨rfl, .definition (hT.mono le₂) hv⟩ ((h.mono le₁).mono le₂)

end Yields

theorem Established.admitted {s : Session} {Γ : Context} (h : Established s Γ) :
    ∃ K Γ', Remembers K s ∧ Γ.Matches K Γ' ∧ Admitted Γ' := by
  induction h with
  | empty s => exact ⟨_, .empty, .start s, .nil, .empty⟩
  | add _ hx hadd ih =>
      obtain ⟨K, Γ', rem, hΓ, adm⟩ := ih
      obtain ⟨K', _, rem', Δ', hΔ, adm'⟩ := Yields.add rem.exact hΓ adm hx _ _ _ rem hadd
      exact ⟨K', Δ', rem', hΔ, adm'⟩
  | after _ later ih =>
      obtain ⟨K, Γ', rem, hΓ, adm⟩ := ih
      obtain ⟨K', le, rem', -⟩ := later.held rem (hΓ.held rem)
      exact ⟨K', Γ', rem', hΓ.mono le, adm⟩

/-! ## What checking delivers -/

/-- Checking in a context returns an elaborated expression: a type, or an element of a type that was found
or given. The sessions are those before and after. -/
inductive Delivers (Γ : Context) : Session → Expr → Option Value → Session → Prop
  | synth {n s s' e core T}
      (h : (synthesize n Γ e .empty : ByNeed (Expr × Value)) s = .ok (core, T) s') :
      Delivers Γ s core (some T) s'
  | isType {n s s' e core} (h : (isType n Γ e .empty : ByNeed Expr) s = .ok core s') :
      Delivers Γ s core none s'
  /-- The type was given by an expression. -/
  | check {n k s₁ s₂ s₃ s₄ t A e core} (ht : Delivers Γ s₁ t none s₂)
      (hA : (Γ.env.eval k t : ByNeed Value) s₂ = .ok A s₃)
      (h : (check n Γ e A .empty : ByNeed Expr) s₃ = .ok core s₄) :
      Delivers Γ s₁ core (some A) s₄
  /-- The type is that of another element. -/
  | checkAlike {n s₁ s₂ s₃ e' A e core} (he : Delivers Γ s₁ e' (some A) s₂)
      (h : (check n Γ e A .empty : ByNeed Expr) s₂ = .ok core s₃) :
      Delivers Γ s₁ core (some A) s₃

/-- The typing rules give an elaborated expression in the same ways. -/
inductive Delivered (Γ : Context) : Expr → Option Value → Prop
  | synth {e core T} (h : Judged .kernel Γ .empty e (.synth T) core) : Delivered Γ core (some T)
  | isType {e core} (h : Judged .kernel Γ .empty e .isType core) : Delivered Γ core none
  | check {t A e core} (ht : Delivered Γ t none) (hA : Evals Γ.env t A)
      (h : Judged .kernel Γ .empty e (.check A) core) : Delivered Γ core (some A)
  | checkAlike {e' A e core} (he : Delivered Γ e' (some A))
      (h : Judged .kernel Γ .empty e (.check A) core) : Delivered Γ core (some A)

theorem Delivers.delivered {Γ Γ' : Context} {s s' : Session} {core : Expr} {o : Option Value}
    (h : Delivers Γ s core o s') : ∀ {K}, Remembers K s → Γ.Matches K Γ' →
      ∃ K' o', K.Le K' ∧ Remembers K' s' ∧ BothOrNone K' o o' ∧ Delivered Γ' core o' := by
  induction h with
  | @synth n s s' e core T h =>
      intro K rem hΓ
      obtain ⟨K', le, rem', T', hT, hj⟩ :=
        Yields.synthesize .empty rem.exact hΓ _ _ _ rem h
      exact ⟨K', some T', le, rem', .some hT, .synth hj⟩
  | @isType n s s' e core h =>
      intro K rem hΓ
      obtain ⟨K', le, rem', hj⟩ := Yields.isType .empty rem.exact hΓ _ _ _ rem h
      exact ⟨K', none, le, rem', .none, .isType hj⟩
  | @check n k s₁ s₂ s₃ s₄ t A e core _ hA h ih =>
      intro K rem hΓ
      obtain ⟨K₁, o', le₁, rem₁, ho, ht⟩ := ih rem hΓ
      cases ho with
      | added ha => exact (rem₁.exact.bare ha).elim
      | none =>
          replace hΓ := hΓ.mono le₁
          obtain ⟨K₂, le₂, rem₂, A', mA, hA'⟩ := Yields.eval rem₁.exact hΓ t _ _ _ rem₁ hA
          obtain ⟨K₃, le₃, rem₃, hj⟩ :=
            Yields.check .empty rem₂.exact (hΓ.mono le₂) mA _ _ _ rem₂ h
          exact ⟨K₃, some A', le₁.trans (le₂.trans le₃), rem₃, .some (mA.mono le₃), .check ht hA' hj⟩
  | @checkAlike n s₁ s₂ s₃ e' A e core _ h ih =>
      intro K rem hΓ
      obtain ⟨K₁, o', le₁, rem₁, ho, he⟩ := ih rem hΓ
      cases ho with
      | some mA =>
          obtain ⟨K₂, le₂, rem₂, hj⟩ :=
            Yields.check .empty rem₁.exact (hΓ.mono le₁) mA _ _ _ rem₁ h
          exact ⟨K₂, _, le₁.trans le₂, rem₂, .some (mA.mono le₂), .checkAlike he hj⟩

/-- What is at hand after checking: the context and, if there is one, the type. -/
def handed (Γ : Context) (o : Option Value) : List Piece :=
  o.toList.map .value ++ Γ.pieces

/-- What was delivered by need stands for something delivered by name in an admitted context. -/
theorem Delivers.held {Γ : Context} {s s' : Session} {core : Expr} {o : Option Value}
    (hΓ : Established s Γ) (h : Delivers Γ s core o s') : ∃ K Γ' o', Remembers K s' ∧
      Γ.Matches K Γ' ∧ BothOrNone K o o' ∧ Held K (handed Γ o) ∧ Admitted Γ' ∧
      Delivered Γ' core o' := by
  obtain ⟨K, Γ', rem, mΓ, adm⟩ := hΓ.admitted
  obtain ⟨K', o', le, rem', mo, hd⟩ := h.delivered rem mΓ
  have held := (mΓ.mono le).held rem'
  refine ⟨K', Γ', o', rem', mΓ.mono le, mo, ?_, adm, hd⟩
  cases mo with
  | none | added => exact held
  | some mA => exact .cons (rem'.eq_erase mA ▸ mA) held

end TypeKernel
