/-
# TypeKernel.Proofs.Sameness — comparisons are equivalences

Expressions are compared up to the names of bound variables, values by comparing their normal forms, and the
elements that a declaration compares by comparing their values. Each of these comparisons is an equivalence.

* α-equivalence decides whether two nameless forms are equal (`Expr.alphaEquiv_eq_decide`), and equality is an
  equivalence. Nothing else is known of the comparison, which runs down two expressions with two maps from
  names to depths.
* Conversion and the declaration that two expressions are the same inherit this as far as values can be read
  back (`Equates`). By name that is seen at once, because all comparisons of one value read it back alike. By
  need, each comparison starts in a session that the others have changed (`Equates.of_byName`).
-/
import TypeKernel.Proofs.BetaEta

namespace TypeKernel

set_option autoImplicit false

open Machine

/-! ## Expressions -/

namespace Expr

theorem alphaEquiv_eq_decide {e f : Expr} (known : e.Known) :
    e.alphaEquiv f = some (decide (e.nameless = f.nameless)) := by
  have answers : (alphaUnder [] [] 0 e f).isSome := alphaUnder_answers known
  obtain ⟨b, hb⟩ := Option.isSome_iff_exists.1 answers
  have decides : b = true ↔ e.nameless = f.nameless := compares e f [] [] 0 b hb
  rw [alphaEquiv, hb, Bool.eq_iff_iff.2 (decides.trans decide_eq_true_iff.symm)]

theorem alphaEquiv_comm {e f : Expr} (he : e.Known) (hf : f.Known) : e.alphaEquiv f = f.alphaEquiv e := by
  rw [alphaEquiv_eq_decide he, alphaEquiv_eq_decide hf, decide_eq_decide.2 eq_comm]

theorem alphaEquiv_trans {e f g : Expr} (known : e.Known) (h : e.alphaEquiv f = some true)
    (h' : f.alphaEquiv g = some true) : e.alphaEquiv g = some true :=
  alphaEquiv_of_nameless_eq known ((nameless_eq_of_alphaEquiv h).trans (nameless_eq_of_alphaEquiv h'))

theorem alphaEquiv_equivalence :
    Equivalence fun e f : {e : Expr // e.Known} => e.1.alphaEquiv f.1 = some true where
  refl e := alphaEquiv_of_nameless_eq e.2 rfl
  symm {e f} h := (alphaEquiv_comm f.2 e.2).trans h
  trans {e _ _} h h' := alphaEquiv_trans e.2 h h'

end Expr

/-! ## By name -/

/-- The normal form of an expression that must have the given type. -/
def checkedForm {m : Type → Type} [Machine m] (n : Nat) (Γ : Context) (type e : Expr) : m Expr := do
  let t ← typeValue n Γ type
  let v ← valueAt n Γ e t
  readBack n Γ t v

section ByName

variable {n : Nat} {Γ : Context} {T u v w : Value} {b : Bool}

theorem readBack_known {e : Expr} (h : readBack n Γ T v = (.ok e : ByName Expr)) : e.Known :=
  (Reads.of_readings h).known

theorem convert_eq_ok : convert n Γ T v w = (.ok b : ByName Bool) ↔
    ∃ e f, readBack n Γ T v = (.ok e : ByName Expr) ∧ readBack n Γ T w = (.ok f : ByName Expr) ∧
      e.alphaEquiv f = some b := by
  constructor
  · intro h
    obtain ⟨e, he, h⟩ := Returns.bind (m := ByName) h
    obtain ⟨f, hf, h⟩ := Returns.bind (m := ByName) h
    refine ⟨e, f, he, hf, ?_⟩
    rw [Expr.alphaEquiv_eq_decide (readBack_known he)] at h ⊢
    exact congrArg some (Returns.pure_eq (m := ByName) h).symm
  · rintro ⟨e, f, he, hf, same⟩
    refine (ByName.bind_ok he).trans ((ByName.bind_ok hf).trans ?_)
    rw [same]
    rfl

theorem convert_self {e : Expr} (h : readBack n Γ T v = (.ok e : ByName Expr)) :
    convert n Γ T v v = (.ok true : ByName Bool) :=
  convert_eq_ok.2 ⟨e, e, h, h, Expr.alphaEquiv_of_nameless_eq (readBack_known h) rfl⟩

theorem convert_swap (h : convert n Γ T v w = (.ok b : ByName Bool)) :
    convert n Γ T w v = (.ok b : ByName Bool) := by
  obtain ⟨e, f, he, hf, same⟩ := convert_eq_ok.1 h
  rw [Expr.alphaEquiv_comm (readBack_known he) (readBack_known hf)] at same
  exact convert_eq_ok.2 ⟨f, e, hf, he, same⟩

theorem convert_chain (h : convert n Γ T u v = (.ok true : ByName Bool))
    (h' : convert n Γ T v w = (.ok true : ByName Bool)) : convert n Γ T u w = (.ok true : ByName Bool) := by
  obtain ⟨e, f, he, hf, same⟩ := convert_eq_ok.1 h
  obtain ⟨f', g, hf', hg, same'⟩ := convert_eq_ok.1 h'
  cases hf.symm.trans hf'
  exact convert_eq_ok.2 ⟨e, g, he, hg, Expr.alphaEquiv_trans (readBack_known he) same same'⟩

theorem requireSame_eq_ok : Check.requireSame n Γ T v w = (.ok () : ByName Unit) ↔
    convert n Γ T v w = (.ok true : ByName Bool) := by
  constructor
  · intro h
    obtain ⟨b, hb, h⟩ := Returns.bind (m := ByName) h
    cases b with
    | true => exact hb
    | false =>
        obtain ⟨e, -, h⟩ := Returns.bind (m := ByName) h
        obtain ⟨f, -, h⟩ := Returns.bind (m := ByName) h
        cases h
  · exact fun h => ByName.bind_ok h

/-- Two expressions are the same element of a type if their values are the same there. -/
theorem checkSame_eq_ok {A e f : Expr} : checkSame n Γ A e f = (.ok () : ByName Unit) ↔
    ∃ t v w, typeValue n Γ A = (.ok t : ByName Value) ∧ valueAt n Γ e t = (.ok v : ByName Value) ∧
      valueAt n Γ f t = (.ok w : ByName Value) ∧ convert n Γ t v w = (.ok true : ByName Bool) := by
  constructor
  · intro h
    obtain ⟨t, ht, h⟩ := Returns.bind (m := ByName) h
    obtain ⟨v, hv, h⟩ := Returns.bind (m := ByName) h
    obtain ⟨w, hw, h⟩ := Returns.bind (m := ByName) h
    exact ⟨t, v, w, ht, hv, hw, requireSame_eq_ok.1 h⟩
  · rintro ⟨t, v, w, ht, hv, hw, same⟩
    exact (ByName.bind_ok ht).trans ((ByName.bind_ok hv).trans ((ByName.bind_ok hw).trans
      (requireSame_eq_ok.2 same)))

variable {A e f g : Expr}

theorem checkSame_self {r : Expr} (h : checkedForm n Γ A e = (.ok r : ByName Expr)) :
    checkSame n Γ A e e = (.ok () : ByName Unit) := by
  obtain ⟨t, ht, h⟩ := Returns.bind (m := ByName) h
  obtain ⟨v, hv, h⟩ := Returns.bind (m := ByName) h
  exact checkSame_eq_ok.2 ⟨t, v, v, ht, hv, hv, convert_self h⟩

theorem checkSame_swap (h : checkSame n Γ A e f = (.ok () : ByName Unit)) :
    checkSame n Γ A f e = (.ok () : ByName Unit) := by
  obtain ⟨t, v, w, ht, hv, hw, same⟩ := checkSame_eq_ok.1 h
  exact checkSame_eq_ok.2 ⟨t, w, v, ht, hw, hv, convert_swap same⟩

theorem checkSame_chain (h : checkSame n Γ A e f = (.ok () : ByName Unit))
    (h' : checkSame n Γ A f g = (.ok () : ByName Unit)) : checkSame n Γ A e g = (.ok () : ByName Unit) := by
  obtain ⟨t, u, v, ht, hu, hv, same⟩ := checkSame_eq_ok.1 h
  obtain ⟨t', v', w, ht', hv', hw, same'⟩ := checkSame_eq_ok.1 h'
  cases ht.symm.trans ht'
  cases hv.symm.trans hv'
  exact checkSame_eq_ok.2 ⟨t, u, w, ht, hu, hw, convert_chain same same'⟩

end ByName

/-! ## By need -/

section ByNeed

variable {α : Type} {x : Nat → ByNeed α} {x' : Nat → ByName α} {K : Correspondence} {s s₁ s₂ : Session}
  {ps ps₁ : List Piece} {a : α} (rem : Remembers K s) (held : Held K ps)
  (along : ∀ {K'}, K.Le K' → K'.Exact → ∀ n, (byNeed n).rel K' Same (x n) x')

include rem held along

/-- What is returned in a later session is given by name from some number of steps on. -/
theorem eventually_byName (later : History s ps s₁ ps₁) {n : Nat} (h : x n s₁ = .ok a s₂) :
    ∃ M, ∀ i, M ≤ i → x' i = .ok a := by
  obtain ⟨K₁, le, rem₁, -⟩ := later.held rem held
  obtain ⟨_, _, _, _, rfl, returns⟩ := (along le rem₁.exact n s₁ rem₁).ok h
  exact returns

/-- What is given by name from some number of steps on is given in every later session. -/
theorem Endures.of_byName {N : Nat} (h : ∀ i, N ≤ i → x' i = .ok a) : Endures x (· = a) s ps := by
  refine ⟨N, fun s₁ ps₁ later => ?_⟩
  obtain ⟨K₁, le, rem₁, -⟩ := later.held rem held
  have attains : Attains Error.Never N K₁ x fun _ b => b = a :=
    .of_rel (along le rem₁.exact) fun i hi => .inl (h i hi)
  exact attains.gives rem₁ fun _ _ _ _ _ hb => hb

end ByNeed

/-- A comparison of what satisfies `P` is an equivalence, in the session `s` and in all that follow it: the
answers that the laws start from may come from any of these sessions. The comparison is reflexive on what can
be read. That it is symmetric holds for all its answers, not only for the answer `yes`. -/
structure Equates {α β γ : Type} (read : Nat → α → ByNeed γ) (compare : Nat → α → α → ByNeed β) (yes : β)
    (P : α → Prop) (s : Session) (ps : List Piece) : Prop where
  refl : ∀ {a n r s₁ s₂ ps₁}, P a → History s ps s₁ ps₁ → read n a s₁ = .ok r s₂ →
    Endures (fun k => compare k a a) (· = yes) s ps
  symm : ∀ {a b n r s₁ s₂ ps₁}, P a → P b → History s ps s₁ ps₁ → compare n a b s₁ = .ok r s₂ →
    Endures (fun k => compare k b a) (· = r) s ps
  trans : ∀ {a b c n m s₁ s₂ t₁ t₂ ps₁ qs₁}, P a → P b → P c →
    History s ps s₁ ps₁ → compare n a b s₁ = .ok yes s₂ →
    History s ps t₁ qs₁ → compare m b c t₁ = .ok yes t₂ →
    Endures (fun k => compare k a c) (· = yes) s ps

/-- A comparison that is an equivalence by name, within any number of steps, is one by need. -/
theorem Equates.of_byName {α β γ : Type} {read : Nat → α → ByNeed γ} {compare : Nat → α → α → ByNeed β}
    (read' : Nat → α → ByName γ) (compare' : Nat → α → α → ByName β) {yes : β} {P : α → Prop}
    {K : Correspondence} {s : Session} {ps : List Piece} (rem : Remembers K s) (held : Held K ps)
    (reads : ∀ {K'}, K.Le K' → K'.Exact → ∀ {a}, P a → ∀ n,
      (byNeed n).rel K' Same (read n a) fun i => read' i a)
    (compares : ∀ {K'}, K.Le K' → K'.Exact → ∀ {a b}, P a → P b → ∀ n,
      (byNeed n).rel K' Same (compare n a b) fun i => compare' i a b)
    (self : ∀ {n a r}, read' n a = .ok r → compare' n a a = .ok yes)
    (swap : ∀ {n a b r}, compare' n a b = .ok r → compare' n b a = .ok r)
    (chain : ∀ {n a b c}, compare' n a b = .ok yes → compare' n b c = .ok yes → compare' n a c = .ok yes) :
    Equates read compare yes P s ps where
  refl ha later h := by
    obtain ⟨M, returns⟩ := eventually_byName rem held (fun le hK => reads le hK ha) later h
    exact .of_byName rem held (fun le hK => compares le hK ha ha) fun i hi => self (returns i hi)
  symm ha hb later h := by
    obtain ⟨M, returns⟩ := eventually_byName rem held (fun le hK => compares le hK ha hb) later h
    exact .of_byName rem held (fun le hK => compares le hK hb ha) fun i hi => swap (returns i hi)
  trans ha hb hc later h later' h' := by
    obtain ⟨M, first⟩ := eventually_byName rem held (fun le hK => compares le hK ha hb) later h
    obtain ⟨M', second⟩ := eventually_byName rem held (fun le hK => compares le hK hb hc) later' h'
    refine .of_byName rem held (fun le hK => compares le hK ha hc) (N := max M M') fun i hi => ?_
    exact chain (first i (by omega)) (second i (by omega))

theorem byNeed_checkedForm {K : Correspondence} (hK : K.Exact) {Γ Γ' : Context} (hΓ : Γ.Matches K Γ') (n : Nat)
    (A e : Expr) : (byNeed n).rel K Same (checkedForm n Γ A e) fun i => checkedForm i Γ' A e := by
  refine byNeed_bind (byNeed_typeValue hK hΓ A) fun K₁ T T' le₁ hK₁ hT => ?_
  refine byNeed_bind (byNeed_valueAt hK₁ (hΓ.mono le₁) e hT) fun K₂ v v' le₂ hK₂ hv => ?_
  exact byNeed_readings n hK₂ hΓ.names (.value (hT.mono le₂) hv)

/-- Expressions without unknown parts are α-equivalent exactly if they have one nameless form. So
α-equivalence is an equivalence, and so are conversion of values at a type and the comparison that a
declaration makes, wherever normal forms can be read back, whatever was done in the session before. -/
theorem comparisons_are_equivalences :
    (∀ e f : Expr, e.Known → e.alphaEquiv f = some (decide (e.nameless = f.nameless))) ∧
    (Equivalence fun e f : {e : Expr // e.Known} => e.1.alphaEquiv f.1 = some true) ∧
    ∀ {s₀ s : Session} {ps : List Piece}, History s₀ [] s ps → ∀ Γ : Context,
      (∀ T, .value T ∈ ps →
        Equates (fun n v => readBack n Γ T v) (fun n v w => convert n Γ T v w) true (.value · ∈ ps) s ps) ∧
      (Γ.pieces ⊆ ps → ∀ A,
        Equates (fun n e => checkedForm n Γ A e) (fun n e f => checkSame n Γ A e f) () (fun _ => True) s
          ps) := by
  refine ⟨fun _ _ => Expr.alphaEquiv_eq_decide, Expr.alphaEquiv_equivalence, fun {s₀ s ps} h Γ => ?_⟩
  obtain ⟨K, -, rem, held⟩ := h.held (.start s₀) (List.forall_mem_nil _)
  constructor
  · intro T hT
    refine .of_byName (fun i v => readBack i Γ T.erase v.erase)
      (fun i v w => convert i Γ T.erase v.erase w.erase) rem held ?_ ?_ convert_self convert_swap convert_chain
    · intro K' le hK v hv n
      exact byNeed_readings n hK rfl (.value ((held _ hT).mono le) ((held _ hv).mono le))
    · intro K' le hK v w hv hw n
      exact byNeed_convert_of_names hK rfl ((held _ hT).mono le) ((held _ hv).mono le) ((held _ hw).mono le) n
  · intro hΓ A
    have matched := (held.of_subset hΓ).context
    refine .of_byName (fun i e => checkedForm i Γ.erase A e) (fun i e f => checkSame i Γ.erase A e f) rem held
      ?_ ?_ checkSame_self checkSame_swap checkSame_chain
    · exact fun le hK _ _ n => byNeed_checkedForm hK (matched.mono le) n A _
    · intro K' le hK e f _ _ n s rem
      exact (byNeed_checkSame hK (matched.mono le) A e f s rem).imp fun _ _ _ _ => rfl

/-- The type of functions that choose between two elements of `Absurd`. -/
def impossibleChoices : Expr :=
  .pi "x" .absurd (.pi "y" .absurd .absurd)

/-- To choose the first is to choose the second, and to choose the second is to choose the first. -/
theorem impossibleChoices_same : ∃ s,
    (checkSame 9 .empty impossibleChoices (.lam "x" (.lam "y" (.var "x"))) (.lam "x" (.lam "y" (.var "y"))) :
      ByNeed Unit) .empty = .ok () s ∧
    Endures (fun k => checkSame k .empty impossibleChoices (.lam "x" (.lam "y" (.var "y")))
      (.lam "x" (.lam "y" (.var "x")))) (· = ()) .empty [.env .empty] := by
  have atHand : History .empty [] .empty [.env .empty] := .build .start rfl (List.nil_subset _)
  obtain ⟨-, declared⟩ := comparisons_are_equivalences.2.2 atHand .empty
  have same : ∃ s, (checkSame 9 .empty impossibleChoices (.lam "x" (.lam "y" (.var "x")))
      (.lam "x" (.lam "y" (.var "y"))) : ByNeed Unit) .empty = .ok () s := ⟨_, rfl⟩
  obtain ⟨s, hs⟩ := same
  exact ⟨s, hs, (declared (List.Subset.refl _) impossibleChoices).symm trivial trivial .start hs⟩

end TypeKernel
