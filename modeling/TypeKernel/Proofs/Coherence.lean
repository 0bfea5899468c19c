/-
# TypeKernel.Proofs.Coherence — the judgments of one expression agree

The three judgments of an expression are written apart: type formers have one rule as elements of `U` and
another as types, `::` has one rule for synthesis and another for checking, and all other forms go through
fallbacks that compare types in different ways. Nevertheless they agree.

- Whatever is accepted as an element of `U` is accepted as a type, with the same elaborated form
  (`judge_elevates`).
- What has a type is accepted at this type, if the type can be read back, and whatever type it is accepted at
  is the same type (`judge_coheres`).

Both are proved by name, where an outcome is a value, by induction on the expression. By need they hold in every
session, because checking by need ends as it does by name.
-/
import TypeKernel.Proofs.Attains
import TypeKernel.Proofs.CheckedByNeed
import TypeKernel.Proofs.ReadsAlike
import TypeKernel.Toplevel

namespace TypeKernel

set_option autoImplicit false

open Machine

/-! ## Types that are the universe -/

section Universe

variable {n k : Nat} {Γ : Context}

theorem run_of_le (h : n ≤ k) {r : Request} {v : Value} (hv : run n r = (.ok v : ByName Value)) :
    run k r = (.ok v : ByName Value) := by
  rcases run_approx h r with h | h
  · rw [hv] at h
    cases h
  · rw [← h, hv]

/-- Where anything is answered, the universe is forced to itself. -/
theorem run_univ {r : Request} {w : Value} (h : (run n r : ByName Value) = .ok w) :
    run n (.force .univ) = (.ok .univ : ByName Value) := by
  cases n with
  | zero => cases h
  | succ n => rfl

theorem run_force_univ {w : Value} (h : (run n (.force .univ) : ByName Value) = .ok w) :
    w = .univ := by
  cases n with
  | zero => cases h
  | succ n => exact (Except.ok.inj h).symm

theorem readings_neutral_ne {stuck : Neutral} {c : Const} :
    ¬ Returns (readings n Γ (.neutral stuck) : ByName Expr) (.const c) := by
  intro h
  cases n with
  | zero => exact Returning.not_stop h
  | succ n =>
      cases stuck with
      | var x => cases h.pure_eq
      | app f a =>
          obtain ⟨_, -, h⟩ := h.bind
          obtain ⟨_, -, h⟩ := h.bind
          cases h.pure_eq
      | proj p t =>
          obtain ⟨_, -, h⟩ := h.bind
          cases h.pure_eq
      | fold f t b s =>
          obtain ⟨_, -, h⟩ := h.bind
          obtain ⟨_, -, h⟩ := h.bind
          obtain ⟨_, -, h⟩ := h.bind
          cases h.pure_eq
      | induct i t m b s =>
          obtain ⟨_, -, h⟩ := h.bind
          obtain ⟨_, -, h⟩ := h.bind
          obtain ⟨_, -, h⟩ := h.bind
          obtain ⟨_, -, h⟩ := h.bind
          cases h.pure_eq
      | transport k t m b =>
          obtain ⟨_, -, h⟩ := h.bind
          obtain ⟨_, -, h⟩ := h.bind
          obtain ⟨_, -, h⟩ := h.bind
          cases h.pure_eq
      | indAbsurd t m =>
          cases m
          obtain ⟨_, -, h⟩ := h.bind
          obtain ⟨_, -, h⟩ := h.bind
          cases h.pure_eq
      | indVec k t m b s =>
          obtain ⟨_, -, h⟩ := h.bind
          obtain ⟨_, -, h⟩ := h.bind
          obtain ⟨_, -, h⟩ := h.bind
          obtain ⟨_, -, h⟩ := h.bind
          obtain ⟨_, -, h⟩ := h.bind
          cases h.pure_eq
      | trans l r =>
          obtain ⟨_, -, h⟩ := h.bind
          obtain ⟨_, -, h⟩ := h.bind
          cases h.pure_eq
      | cong t f =>
          obtain ⟨_, -, h⟩ := h.bind
          obtain ⟨_, -, h⟩ := h.bind
          cases h.pure_eq

theorem force_of_readings_univ {T : Value}
    (h : (readings (n + 1) Γ (.type T) : ByName Expr) = .ok .univ) :
    run n (.force T) = (.ok .univ : ByName Value) := by
  have h : Returns (readings (n + 1) Γ (.type T) : ByName Expr) .univ := h
  obtain ⟨w, hw, h⟩ := h.bind
  suffices w = .univ from this ▸ hw
  cases w with
  | const c =>
      cases c with
      | univ => rfl
      | nat | atom | trivial | absurd => cases h.pure_eq
      | _ => exact (Returns.not_defect h).elim
  | unary u v =>
      cases u with
      | list =>
          obtain ⟨_, -, h⟩ := h.bind
          cases h.pure_eq
      | _ => exact (Returns.not_defect h).elim
  | binary b v w =>
      cases b with
      | vec | either =>
          obtain ⟨_, -, h⟩ := h.bind
          obtain ⟨_, -, h⟩ := h.bind
          cases h.pure_eq
      | _ => exact (Returns.not_defect h).elim
  | equal t l r =>
      obtain ⟨_, -, h⟩ := h.bind
      obtain ⟨_, -, h⟩ := h.bind
      obtain ⟨_, -, h⟩ := h.bind
      cases h.pure_eq
  | quant q x d r =>
      obtain ⟨_, -, h⟩ := h.bind
      obtain ⟨_, -, h⟩ := h.bind
      obtain ⟨_, -, h⟩ := h.bind
      obtain ⟨_, -, h⟩ := h.bind
      cases h.pure_eq
  | neutral t stuck => exact (readings_neutral_ne h).elim
  | _ => exact (Returns.not_defect h).elim

/-- As an element of the universe, a type is read like a type. -/
theorem readBack_univ_of_ok {T : Value} {e : Expr} (h : (readBack n Γ .univ T : ByName Expr) = .ok e) :
    ∃ j, n = j + 2 ∧ (readings (j + 1) Γ (.type T) : ByName Expr) = .ok e := by
  match n with
  | 0 => cases h
  | 1 => cases h
  | j + 2 => exact ⟨j, rfl, h⟩

theorem Expr.eq_univ_of_alphaEquiv {e : Expr} (h : Expr.alphaEquiv .univ e = some true) :
    e = .univ := by
  cases e with
  | const c =>
      have h : (Const.univ == c) = true := Option.some.inj h
      rw [← beq_iff_eq.1 h]
  | _ => cases h

/-- What a comparison answers. -/
theorem sameType_ok {A B : Value} {b : Bool} (h : (sameType n Γ A B : ByName Bool) = .ok b) :
    ∃ e f, (readBack n Γ .univ A : ByName Expr) = .ok e ∧
      (readBack n Γ .univ B : ByName Expr) = .ok f ∧ e.alphaEquiv f = some b := by
  have h : Returns (sameType n Γ A B : ByName Bool) b := h
  obtain ⟨e, he, rest⟩ := h.bind
  obtain ⟨f, hf, last⟩ := rest.bind
  refine ⟨e, f, he, hf, ?_⟩
  cases hef : e.alphaEquiv f with
  | none =>
      rw [hef] at last
      exact (Returns.not_defect last).elim
  | some c =>
      rw [hef] at last
      rw [last.pure_eq]

theorem force_of_sameType_univ {T : Value} (h : (sameType n Γ .univ T : ByName Bool) = .ok true) :
    run n (.force T) = (.ok .univ : ByName Value) := by
  obtain ⟨e, f, he, hf, same⟩ := sameType_ok h
  obtain ⟨j, rfl, hj⟩ := readBack_univ_of_ok he
  obtain ⟨_, heq, hf⟩ := readBack_univ_of_ok hf
  cases Nat.add_right_cancel heq
  have he : e = .univ := by
    cases j with
    | zero => cases hj
    | succ j => exact (Except.ok.inj hj).symm
  subst he
  cases Expr.eq_univ_of_alphaEquiv same
  exact run_of_le (by omega) (force_of_readings_univ hf)

end Universe

/-! ## Elements of the universe are types -/

theorem requireSameType_ok {n : Nat} {Γ : Context} {A B : Value} {u : Unit}
    (h : Returns (Check.requireSameType n Γ A B : ByName Unit) u) :
    (sameType n Γ A B : ByName Bool) = .ok true := by
  obtain ⟨b, hb, h⟩ := h.bind
  cases b with
  | true => exact hb
  | false =>
      obtain ⟨_, -, h⟩ := h.bind
      obtain ⟨_, -, h⟩ := h.bind
      exact (Returns.not_reject h).elim

/-- Whatever is an element of the universe is a type, with the same elaborated form. -/
structure Judgments.Elevates (J : Judgments ByName) (n : Nat) : Prop where
  synth : ∀ {Γ r core T}, Returns (J.synth Γ r) (core, T) →
    run n (.force T) = (.ok .univ : ByName Value) → J.isType Γ r = .ok core
  check : ∀ {Γ r core}, Returns (J.check Γ r .univ) core → J.isType Γ r = .ok core

namespace Check

variable {n : Nat} {e : Expr} {rule : Context → Renaming → ByName (Expr × Value)}

/-- The type that a synthesis rule finds is compared with the expected one. -/
theorem found_of_check {Γ : Context} {r : Renaming} {A : Value} {core : Expr}
    (h : Returns ((ofSynthesis n e rule).check Γ r A) core) :
    ∃ T, rule Γ r = .ok (core, T) ∧ (sameType n Γ A T : ByName Bool) = .ok true := by
  obtain ⟨_, -, h⟩ := h.bind
  obtain ⟨⟨core', T⟩, hrule, h⟩ := h.bind
  obtain ⟨_, same, h⟩ := h.bind
  cases h.pure_eq
  exact ⟨T, hrule, requireSameType_ok same⟩

theorem elevates_ofSynthesis : (ofSynthesis n e rule).Elevates n := by
  have isType : ∀ {Γ r core T}, rule Γ r = .ok (core, T) →
      run n (.force T) = (.ok .univ : ByName Value) → (ofSynthesis n e rule).isType Γ r = .ok core :=
    fun hrule hT => (ByName.bind_ok hrule).trans (ByName.bind_ok hT)
  refine ⟨isType, fun h => ?_⟩
  obtain ⟨T, hrule, same⟩ := found_of_check h
  exact isType hrule (force_of_sameType_univ same)

theorem elevates_ofFormation {formation : Context → Renaming → ByName Expr}
    (h : ∀ {Γ r core T}, Returns (rule Γ r) (core, T) → formation Γ r = .ok core) :
    (ofFormation n e rule formation).Elevates n where
  synth hrule _ := h hrule
  check hc := by
    obtain ⟨T, hrule, -⟩ := found_of_check hc
    exact h hrule

theorem elevates_ofChecking {rule : Context → Renaming → Value → ByName Expr}
    (never : ∀ {Γ r core}, ¬ Returns (rule Γ r .univ) core) : (ofChecking e rule).Elevates n where
  synth h := (Returns.not_reject h).elim
  check h := (never h).elim

theorem elevates_ofBoth {checking : Context → Renaming → Value → ByName Expr}
    (never : ∀ {Γ r core}, ¬ Returns (checking Γ r .univ) core) :
    (ofBoth n e rule checking).Elevates n where
  synth := elevates_ofSynthesis.synth
  check h := (never h).elim

theorem elevates_ofDefect {d : Defect} : (ofDefect d).Elevates n where
  synth h := (Returns.not_defect h).elim
  check h := (Returns.not_defect h).elim

theorem elevates_todo : (todo n).Elevates n where
  synth h := (Returns.not_reject h).elim
  check h := by
    obtain ⟨_, -, h⟩ := h.bind
    obtain ⟨_, -, h⟩ := h.bind
    exact (Returns.not_reject h).elim

/-- No constructor constructs elements of the universe. -/
theorem not_constructor {Γ : Context} {c : Expr} {f : Value → ByName Expr}
    (hf : f .univ = wrongConstructor n Γ .univ c) {core : Expr} :
    ¬ Returns (Value.force n .univ >>= f) core := by
  intro h
  obtain ⟨w, hw, h⟩ := h.bind
  cases run_force_univ hw
  rw [hf] at h
  obtain ⟨_, -, h⟩ := h.bind
  exact Returns.not_reject h

section Formers

variable {domain range first second third : Judgments ByName}

theorem elevates_quant {q : Quantifier} {x : Name} {d r : Expr} (hd : domain.Elevates n)
    (hr : range.Elevates n) : (quant n q x d r domain range).Elevates n := by
  refine elevates_ofFormation fun h => ?_
  obtain ⟨dc, hdc, h⟩ := h.bind
  obtain ⟨D, hD, h⟩ := h.bind
  obtain ⟨⟨y, Γ', ren'⟩, hy, h⟩ := h.bind
  obtain ⟨rc, hrc, h⟩ := h.bind
  cases h.pure_eq
  refine (ByName.bind_ok (hd.check hdc)).trans ?_
  refine (ByName.bind_ok hD).trans ?_
  refine (ByName.bind_ok hy).trans ?_
  exact ByName.bind_ok (hr.check hrc)

theorem elevates_list {a : Expr} (ha : first.Elevates n) : (list n a first).Elevates n := by
  refine elevates_ofFormation fun h => ?_
  obtain ⟨ac, hac, h⟩ := h.bind
  cases h.pure_eq
  exact ByName.bind_ok (ha.check hac)

theorem elevates_vec {a k : Expr} (ha : first.Elevates n) : (vec n a k first second).Elevates n := by
  refine elevates_ofFormation fun h => ?_
  obtain ⟨ac, hac, h⟩ := h.bind
  obtain ⟨kc, hkc, h⟩ := h.bind
  cases h.pure_eq
  refine (ByName.bind_ok (ha.check hac)).trans ?_
  exact ByName.bind_ok hkc

theorem elevates_either {a b : Expr} (ha : first.Elevates n) (hb : second.Elevates n) :
    (either n a b first second).Elevates n := by
  refine elevates_ofFormation fun h => ?_
  obtain ⟨ac, hac, h⟩ := h.bind
  obtain ⟨bc, hbc, h⟩ := h.bind
  cases h.pure_eq
  refine (ByName.bind_ok (ha.check hac)).trans ?_
  exact ByName.bind_ok (hb.check hbc)

theorem elevates_equal {t a b : Expr} (ht : first.Elevates n) :
    (equal n t a b first second third).Elevates n := by
  refine elevates_ofFormation fun h => ?_
  obtain ⟨tc, htc, h⟩ := h.bind
  obtain ⟨A, hA, h⟩ := h.bind
  obtain ⟨ac, hac, h⟩ := h.bind
  obtain ⟨bc, hbc, h⟩ := h.bind
  cases h.pure_eq
  refine (ByName.bind_ok (ht.check htc)).trans ?_
  refine (ByName.bind_ok hA).trans ?_
  refine (ByName.bind_ok hac).trans ?_
  exact ByName.bind_ok hbc

end Formers

end Check

theorem judge_elevates (n : Nat) (e : Expr) : (judge n e).Elevates n := by
  induction e with
  | quant q x d r ihd ihr => exact Check.elevates_quant ihd ihr
  | unary u a ih =>
      cases u with
      | list => exact Check.elevates_list ih
      | add1 => exact Check.elevates_ofSynthesis
      | left | right | same => exact Check.elevates_ofChecking (Check.not_constructor rfl)
  | binary b e₁ e₂ ih₁ ih₂ =>
      cases b with
      | vec => exact Check.elevates_vec ih₁
      | either => exact Check.elevates_either ih₁ ih₂
      | cons | vecCons => exact Check.elevates_ofChecking (Check.not_constructor rfl)
      | listCons => exact Check.elevates_ofBoth (Check.not_constructor rfl)
  | equal t a b iht _ _ => exact Check.elevates_equal iht
  | const c =>
      cases c with
      | univ => exact Check.elevates_ofFormation fun h => (Returns.not_reject h).elim
      | nil | vecNil => exact Check.elevates_ofChecking (Check.not_constructor rfl)
      | _ => exact Check.elevates_ofSynthesis
  | lam x b _ => exact Check.elevates_ofChecking (Check.not_constructor rfl)
  | todo => exact Check.elevates_todo
  | malformed item => cases item <;> exact Check.elevates_ofDefect
  | _ => exact Check.elevates_ofSynthesis

theorem normType_of_rep {n : Nat} {Γ : Context} {e form : Expr}
    (h : Returns (rep n Γ e : ByName Expr) (.the .univ form)) :
    normType n Γ e = (.ok form : ByName Expr) := by
  obtain ⟨core, T, v, _, _, hform, found, hv, ht, he⟩ := rep_inv h
  cases hform
  cases n with
  | zero => exact (Returning.not_stop ht).elim
  | succ j =>
      have hT := force_of_readings_univ ht
      have univ := run_univ hT
      have read : readBack (j + 1) Γ .univ v = (.ok form : ByName Expr) := by
        obtain ⟨w, hw, he⟩ := he.bind
        cases hT.symm.trans hw
        exact (ByName.bind_ok univ).trans he
      have isType := (judge_elevates (j + 1) e).synth found (run_of_le (by omega) hT)
      have type : typeValue (j + 1) Γ e = (.ok v : ByName Value) := (ByName.bind_ok isType).trans hv
      have readType : readBackType (j + 1) Γ .univ = (.ok .univ : ByName Expr) := ByName.bind_ok univ
      have normal : normalize (j + 1) Γ .univ v = (.ok (.univ, form) : ByName (Expr × Expr)) :=
        (ByName.bind_ok readType).trans (ByName.bind_ok read)
      exact (ByName.bind_ok type).trans (ByName.bind_ok normal)

/-! ## Checking at the type that was found -/

/-- Read-back answers the question whether what it gave is the same as itself. -/
theorem alphaEquiv_of_readings {n : Nat} {Γ : Context} {r : Reading} {e : Expr}
    (h : Returns (readings n Γ r : ByName Expr) e) : e.alphaEquiv e = some true :=
  Expr.alphaEquiv_of_nameless_eq (Reads.of_readings h).known rfl

theorem sameType_of_readings {n : Nat} {Γ : Context} {A B : Value} {e f : Expr}
    (hA : readings (n + 1) Γ (.type A) = (.ok e : ByName Expr))
    (hB : readings (n + 1) Γ (.type B) = (.ok f : ByName Expr)) (same : e.alphaEquiv f = some true) :
    sameType (n + 2) Γ A B = (.ok true : ByName Bool) := by
  refine (ByName.bind_ok hA).trans ((ByName.bind_ok hB).trans ?_)
  rw [same]
  rfl

theorem requireSameType_of_ok {n : Nat} {Γ : Context} {A B : Value}
    (h : sameType n Γ A B = (.ok true : ByName Bool)) :
    Check.requireSameType n Γ A B = (.ok () : ByName Unit) :=
  ByName.bind_ok h

/-- From some number of steps on, what has a type is accepted at this type if it can be read back, and any
other type at which it is accepted is the same. -/
structure Judgments.Coheres (J : Nat → Judgments ByName) : Prop where
  accepts : ∀ {Γ r core T t N}, (∀ i, N ≤ i → Returns ((J i).synth Γ r) (core, T)) →
    (∀ i, N ≤ i → Returns (readBackType i Γ T : ByName Expr) t) →
    ∃ M, ∀ i, M ≤ i → (J i).check Γ r T = .ok core
  same : ∀ {Γ r core T A N}, (∀ i, N ≤ i → Returns ((J i).synth Γ r) (core, T)) →
    (∀ i, N ≤ i → ∃ core', Returns ((J i).check Γ r A) core') →
    ∃ M, ∀ i, M ≤ i → (sameType i Γ A T : ByName Bool) = .ok true

namespace Check

variable {e : Expr}

theorem coheres_ofSynthesis {rule : Nat → Context → Renaming → ByName (Expr × Value)} :
    Judgments.Coheres fun i => ofSynthesis i e (rule i) where
  accepts {Γ r core T t N} found reads := by
    refine ⟨N + 2, fun i hi => ?_⟩
    obtain ⟨i, rfl⟩ : ∃ j, i = j + 2 := ⟨i - 2, by omega⟩
    obtain ⟨_, -, found⟩ := (found (i + 2) (by omega)).bind
    have reads := reads (i + 1) (by omega)
    have same := sameType_of_readings reads reads (alphaEquiv_of_readings reads)
    exact (ByName.bind_ok found).trans (ByName.bind_ok (requireSameType_of_ok same))
  same {Γ r core T A N} found accepted := by
    refine ⟨N, fun i hi => ?_⟩
    obtain ⟨_, -, found⟩ := (found i hi).bind
    obtain ⟨core', accepted⟩ := accepted i hi
    obtain ⟨T', found', same⟩ := found_of_check accepted
    cases found.symm.trans found'
    exact same

/-- What is checked as a type plays no part here. -/
theorem coheres_ofFormation {rule : Nat → Context → Renaming → ByName (Expr × Value)}
    {formation : Nat → Context → Renaming → ByName Expr} :
    Judgments.Coheres fun i => ofFormation i e (rule i) (formation i) where
  accepts := coheres_ofSynthesis.accepts
  same := coheres_ofSynthesis.same

/-- What has no type of its own. -/
theorem coheres_of_not {J : Nat → Judgments ByName}
    (never : ∀ {i Γ r p}, ¬ Returns ((J i).synth Γ r) p) : Judgments.Coheres J where
  accepts found := (never (found _ (Nat.le_refl _))).elim
  same found := (never (found _ (Nat.le_refl _))).elim

section ListCons

variable {a d : Expr} {head tail : Judgments ByName} {n : Nat} {Γ : Context} {r : Renaming}

theorem listCons_found {core : Expr} {T : Value}
    (h : Returns ((listCons n a d head tail).synth Γ r) (core, T)) :
    ∃ headCore tailCore entry, core = .listCons headCore tailCore ∧ T = .list entry ∧
      head.synth Γ r = .ok (headCore, entry) ∧ tail.check Γ r (.list entry) = .ok tailCore := by
  obtain ⟨_, -, h⟩ := h.bind
  obtain ⟨⟨headCore, entry⟩, hhead, h⟩ := h.bind
  obtain ⟨tailCore, htail, h⟩ := h.bind
  cases h.pure_eq
  exact ⟨headCore, tailCore, entry, rfl, rfl, hhead, htail⟩

theorem listCons_accepted {core : Expr} {A : Value}
    (h : Returns ((listCons n a d head tail).check Γ r A) core) :
    ∃ headCore entry, run n (.force A) = (.ok (.list entry) : ByName Value) ∧
      head.check Γ r entry = .ok headCore := by
  obtain ⟨_, -, h⟩ := h.bind
  obtain ⟨w, hw, h⟩ := h.bind
  split at h
  · obtain ⟨headCore, hhead, -⟩ := h.bind
    exact ⟨headCore, _, hw, hhead⟩
  · obtain ⟨_, -, h⟩ := h.bind
    exact (Returns.not_reject h).elim

end ListCons

theorem readings_of_list {n k : Nat} {Γ : Context} {A entry : Value} {e : Expr} (hk : k ≤ n)
    (hA : run k (.force A) = (.ok (.list entry) : ByName Value))
    (he : readings n Γ (.type entry) = (.ok e : ByName Expr)) :
    readings (n + 1) Γ (.type A) = (.ok (.list e) : ByName Expr) :=
  (ByName.bind_ok (run_of_le hk hA)).trans (ByName.bind_ok he)

/-- The entry type of a list type that reads back does so too. -/
theorem readings_entry {n : Nat} {Γ : Context} {entry : Value} {t : Expr}
    (h : Returns (readings (n + 2) Γ (.type (.list entry)) : ByName Expr) t) :
    ∃ e, readings (n + 1) Γ (.type entry) = (.ok e : ByName Expr) ∧ t = .list e := by
  obtain ⟨w, hw, h⟩ := h.bind
  cases Except.ok.inj hw
  obtain ⟨e, he, h⟩ := h.bind
  exact ⟨e, he, h.pure_eq⟩

theorem coheres_listCons {a d : Expr} {head tail : Nat → Judgments ByName}
    (hh : Judgments.Coheres head) : Judgments.Coheres fun i => listCons i a d (head i) (tail i) where
  accepts {Γ r core T t N} found reads := by
    obtain ⟨headCore, tailCore, entry, rfl, rfl, -, -⟩ := listCons_found (found N (Nat.le_refl N))
    have parts : ∀ i, N ≤ i → (head i).synth Γ r = .ok (headCore, entry) ∧
        (tail i).check Γ r (.list entry) = .ok tailCore := by
      intro i hi
      obtain ⟨_, _, _, hcore, hT, hhead, htail⟩ := listCons_found (found i hi)
      cases hcore
      cases hT
      exact ⟨hhead, htail⟩
    obtain ⟨t', -, rfl⟩ := readings_entry (reads (N + 2) (by omega))
    have entries : ∀ i, N + 1 ≤ i → Returns (readBackType i Γ entry : ByName Expr) t' := by
      intro i hi
      obtain ⟨i, rfl⟩ : ∃ j, i = j + 1 := ⟨i - 1, by omega⟩
      obtain ⟨_, he, heq⟩ := readings_entry (reads (i + 2) (by omega))
      cases heq
      exact he
    obtain ⟨M, heads⟩ := hh.accepts (fun i hi => (parts i (by omega)).1) entries
    refine ⟨max M (N + 1), fun i hi => ?_⟩
    obtain ⟨i, rfl⟩ : ∃ j, i = j + 1 := ⟨i - 1, by omega⟩
    refine (ByName.bind_ok (heads (i + 1) (by omega))).trans ?_
    exact ByName.bind_ok (parts (i + 1) (by omega)).2
  same {Γ r core T A N} found accepted := by
    obtain ⟨headCore, tailCore, entry, rfl, rfl, -, -⟩ := listCons_found (found N (Nat.le_refl N))
    have heads : ∀ i, N ≤ i → Returns ((head i).synth Γ r) (headCore, entry) := by
      intro i hi
      obtain ⟨_, _, _, hcore, hT, hhead, -⟩ := listCons_found (found i hi)
      cases hcore
      cases hT
      exact hhead
    obtain ⟨_, acceptedN⟩ := accepted N (Nat.le_refl N)
    obtain ⟨_, entry', hA, -⟩ := listCons_accepted acceptedN
    -- The expected type is always forced to the same list type.
    have acceptedHeads : ∀ i, N ≤ i → ∃ core', Returns ((head i).check Γ r entry') core' := by
      intro i hi
      obtain ⟨_, acceptedi⟩ := accepted i hi
      obtain ⟨core', entryi, hAi, hhead⟩ := listCons_accepted acceptedi
      cases (run_of_le hi hA).symm.trans hAi
      exact ⟨core', hhead⟩
    obtain ⟨M, same⟩ := hh.same heads acceptedHeads
    refine ⟨max M N + 3, fun i hi => ?_⟩
    obtain ⟨i, rfl⟩ : ∃ j, i = j + 3 := ⟨i - 3, by omega⟩
    obtain ⟨e, f, he, hf, hef⟩ := sameType_ok (same (i + 2) (by omega))
    exact sameType_of_readings (readings_of_list (by omega) hA he)
      (readings_of_list (Nat.le_add_left 1 i) rfl hf) hef

end Check

theorem judge_coheres (e : Expr) : Judgments.Coheres fun i => judge i e := by
  induction e with
  | unary u a ih =>
      cases u with
      | list => exact Check.coheres_ofFormation
      | add1 => exact Check.coheres_ofSynthesis
      | left | right | same => exact Check.coheres_of_not Returns.not_reject
  | binary b e₁ e₂ ih₁ ih₂ =>
      cases b with
      | vec | either => exact Check.coheres_ofFormation
      | cons | vecCons => exact Check.coheres_of_not Returns.not_reject
      | listCons => exact Check.coheres_listCons ih₁
  | quant | equal => exact Check.coheres_ofFormation
  | const c =>
      cases c with
      | univ => exact Check.coheres_ofFormation
      | nil | vecNil => exact Check.coheres_of_not Returns.not_reject
      | _ => exact Check.coheres_ofSynthesis
  | lam | todo => exact Check.coheres_of_not Returns.not_reject
  | malformed item => cases item <;> exact Check.coheres_of_not Returns.not_defect
  | _ => exact Check.coheres_ofSynthesis

/-! ## By need -/

/-- What is at hand in a session is held, before and after something is done, with what was gained by it. -/
theorem Held.either {K K' : Correspondence} {s s' s₁ : Session} {ps ps' ps₁ : List Piece}
    (held : Held K ps) (rem : Remembers K s) (le : K.Le K') (held' : Held K' ps')
    (rem' : Remembers K' s') (h : History s ps s₁ ps₁ ∨ History s' ps' s₁ ps₁) :
    ∃ K₁, K.Le K₁ ∧ Remembers K₁ s₁ ∧ Held K₁ ps₁ := by
  rcases h with h | h
  · exact h.held rem held
  · obtain ⟨K₁, le₁, rem₁, held₁⟩ := h.held rem' held'
    exact ⟨K₁, le.trans le₁, rem₁, held₁⟩

/-- What is at hand in a session is held, before and after something is done. -/
theorem Held.later {K K' : Correspondence} {s s' s₁ : Session} {ps ps₁ : List Piece}
    (held : Held K ps) (rem : Remembers K s) (le : K.Le K') (rem' : Remembers K' s')
    (h : History s ps s₁ ps₁ ∨ History s' ps s₁ ps₁) :
    ∃ K₁, K.Le K₁ ∧ Remembers K₁ s₁ ∧ Held K₁ ps₁ :=
  held.either rem le (held.mono le) rem' h

theorem Faithful.gives {α : Type} {K : Correspondence} {s : Session} (rem : Remembers K s) {N : Nat}
    {x : Nat → ByNeed α} {y : Nat → ByName α} {a : α} (h : ∀ n, (byNeed n).rel K Same (x n) y)
    (ends : ∀ n, N ≤ n → y n = .ok a) : Gives Error.Never N x (fun b _ => b = a) s :=
  (Attains.of_rel h fun n hn => .inl (ends n hn)).gives rem fun _ _ _ _ _ hb => hb

/-- Every element of `U` is a type. In any session and with any context at hand there, let an expression be
accepted as an element of `U`. Then, before and after that, it is accepted as a type, with the very same
elaborated form. And if its normal form is `(the U form)` then its normal form as a type is `form`. -/
theorem universe_elements_are_types {s₀ s : Session} {ps : List Piece} (h : History s₀ [] s ps)
    {Γ : Context} (hΓ : Γ.pieces ⊆ ps) (e : Expr) :
    (∀ {n r core s'}, (check n Γ e .univ r : ByNeed Expr) s = .ok core s' → ∃ N, ∀ {s₁ ps₁},
      History s ps s₁ ps₁ ∨ History s' ps s₁ ps₁ →
        Gives Error.Never N (fun k => isType k Γ e r) (fun core' _ => core' = core) s₁) ∧
    ∀ {n form s'}, (rep n Γ e : ByNeed Expr) s = .ok (.the .univ form) s' → ∃ N, ∀ {s₁ ps₁},
      History s ps s₁ ps₁ ∨ History s' ps s₁ ps₁ →
        Gives Error.Never N (fun k => normType k Γ e) (fun form' _ => form' = form) s₁ := by
  obtain ⟨K, -, rem, held⟩ := h.held (.start s₀) (List.forall_mem_nil _)
  have mΓ := (held.of_subset hΓ).context
  refine ⟨fun {n r core s'} hcheck => ?_, fun {n form s'} hrep => ?_⟩
  · have follows := byNeed_check (n := n) rem.exact mΓ e r (.const .univ) s rem
    obtain ⟨K', _, le, rem', rfl, N, checks⟩ := follows.ok hcheck
    refine ⟨N, fun later => ?_⟩
    obtain ⟨K₁, le₁, rem₁, -⟩ := held.later rem le rem' later
    exact rem₁.gives (fun k => byNeed_isType rem₁.exact (mΓ.mono le₁) e r) fun i hi =>
      (judge_elevates i e).check (checks i hi)
  · obtain ⟨K', _, le, rem', rfl, N, reps⟩ := (byNeed_rep (n := n) rem.exact mΓ e s rem).ok hrep
    refine ⟨N, fun later => ?_⟩
    obtain ⟨K₁, le₁, rem₁, -⟩ := held.later rem le rem' later
    exact rem₁.gives (fun k => byNeed_normType rem₁.exact (mΓ.mono le₁) e) fun i hi =>
      normType_of_rep (reps i hi)

/-- A function type whose range has to be computed. -/
def computedRange : Expr :=
  .pi "n" .nat (.app (.the (.pi "m" .nat .univ) (.lam "k" .nat)) (.var "n"))

/-- It is an element of `U` and a type, with the same elaborated form and the same normal form. -/
theorem computedRange_is_type : ∃ core s₁ s₂ N M,
    (check 9 .empty computedRange .univ .empty : ByNeed Expr) .empty = .ok core s₁ ∧
    Gives Error.Never N (fun k => isType k .empty computedRange .empty) (fun core' _ => core' = core) s₁ ∧
    (rep 9 .empty computedRange : ByNeed Expr) .empty = .ok (.the .univ (.pi "n" .nat .nat)) s₂ ∧
    Gives Error.Never M (fun k => normType k .empty computedRange)
      (fun form _ => form = .pi "n" .nat .nat) s₂ := by
  have atHand : History .empty [] .empty [.env .empty] := .build .start rfl (List.nil_subset _)
  obtain ⟨checked, normal⟩ :=
    universe_elements_are_types atHand (Γ := .empty) (List.Subset.refl _) computedRange
  obtain ⟨N, isType⟩ := checked (n := 9) (r := .empty) rfl
  obtain ⟨M, normType⟩ := normal (n := 9) rfl
  exact ⟨_, _, _, N, M, rfl, isType (.inr .start), rfl, normType (.inr .start)⟩

/-- Synthesis and checking cohere. In any session and with any context at hand there, let an expression have a
type. If this type reads back, at any time later, then the expression is accepted at it with the very same
elaborated form. And any type at which the expression is accepted is the same type. -/
theorem synthesis_coheres_with_checking {s₀ s s' : Session} {ps : List Piece} (h : History s₀ [] s ps)
    {Γ : Context} (hΓ : Γ.pieces ⊆ ps) {n : Nat} {e core : Expr} {r : Renaming} {T : Value}
    (found : (synthesize n Γ e r : ByNeed (Expr × Value)) s = .ok (core, T) s') {s₁ : Session}
    {ps₁ : List Piece} (h₁ : History s' (.value T :: ps) s₁ ps₁) :
    (∀ {j t s₂}, (readBackType j Γ T : ByNeed Expr) s₁ = .ok t s₂ → ∃ N, ∀ {s₃ ps₃},
      History s₁ ps₁ s₃ ps₃ ∨ History s₂ ps₁ s₃ ps₃ →
        Gives Error.Never N (fun k => check k Γ e T r) (fun core' _ => core' = core) s₃) ∧
    ∀ {A j core' s₂}, .value A ∈ ps₁ → (check j Γ e A r : ByNeed Expr) s₁ = .ok core' s₂ →
      ∃ N, ∀ {s₃ ps₃}, History s₁ ps₁ s₃ ps₃ ∨ History s₂ ps₁ s₃ ps₃ →
        Gives Error.Never N (fun k => sameType k Γ A T) (fun same _ => same = true) s₃ := by
  obtain ⟨K, -, rem, held⟩ := h.held (.start s₀) (List.forall_mem_nil _)
  have mΓ := (held.of_subset hΓ).context
  obtain ⟨K', ⟨_, T'⟩, le, rem', ⟨rfl, mT⟩, N, finds⟩ :=
    (byNeed_synthesize (n := n) rem.exact mΓ e r s rem).ok found
  -- The type that is found by name is this type without its cells.
  cases (rem'.eq_erase mT : Piece.value T' = .value T.erase)
  obtain ⟨K₁, le₁, rem₁, held₁⟩ := h₁.held rem' (Held.cons mT (held.mono le))
  have mΓ₁ := (mΓ.mono le).mono le₁
  have mT₁ : Both K₁ T T.erase := mT.mono le₁
  refine ⟨fun {j t s₂} reads => ?_, fun {A j core' s₂} hA accepted => ?_⟩
  · obtain ⟨K₂, _, le₂, rem₂, rfl, M, reads⟩ :=
      (byNeed_readBackType (n := j) rem₁.exact mΓ₁.names mT₁ s₁ rem₁).ok reads
    obtain ⟨L, accepts⟩ := (judge_coheres e).accepts (N := max N M)
      (fun i hi => finds i (by omega)) (fun i hi => reads i (by omega))
    refine ⟨L, fun later => ?_⟩
    obtain ⟨K₃, le₃, rem₃, -⟩ := held₁.later rem₁ le₂ rem₂ later
    exact rem₃.gives (fun k => byNeed_check rem₃.exact (mΓ₁.mono le₃) e r (mT₁.mono le₃)) accepts
  · have mA : Both K₁ A A.erase := held₁ _ hA
    obtain ⟨K₂, _, le₂, rem₂, rfl, M, checks⟩ :=
      (byNeed_check (n := j) rem₁.exact mΓ₁ e r mA s₁ rem₁).ok accepted
    obtain ⟨L, same⟩ := (judge_coheres e).same (N := max N M)
      (fun i hi => finds i (by omega)) (fun i hi => ⟨_, checks i (by omega)⟩)
    refine ⟨L, fun later => ?_⟩
    obtain ⟨K₃, le₃, rem₃, -⟩ := held₁.later rem₁ le₂ rem₂ later
    exact rem₃.gives (fun k => byNeed_convert rem₃.exact (mΓ₁.mono le₃) (.const .univ)
      (mA.mono le₃) (mT₁.mono le₃)) same

/-- A list of lists, in which the entry type is found inside. -/
def nestedList : Expr :=
  .listCons (.listCons .zero .nil) .nil

/-- It is accepted at the type that was found. This type is the same as `(List (List Nat))`, whose value
is a different one: its entry type is still delayed. -/
theorem nestedList_coheres : ∃ T A s₁ s₂ s₃ s₄ N M,
    (synthesize 9 .empty nestedList .empty : ByNeed (Expr × Value)) .empty = .ok (nestedList, T) s₁ ∧
    (readBackType 9 .empty T : ByNeed Expr) s₁ = .ok (.list (.list .nat)) s₂ ∧
    Gives Error.Never N (fun k => check k .empty nestedList T .empty)
      (fun core _ => core = nestedList) s₂ ∧
    (Context.empty.env.eval 9 (.list (.list .nat)) : ByNeed Value) s₁ = .ok A s₃ ∧ A ≠ T ∧
    (check 9 .empty nestedList A .empty : ByNeed Expr) s₃ = .ok nestedList s₄ ∧
    Gives Error.Never M (fun k => sameType k .empty A T) (fun same _ => same = true) s₄ := by
  have atHand : History .empty [] .empty [.env .empty] := .build .start rfl (List.nil_subset _)
  have found : (synthesize 9 .empty nestedList .empty : ByNeed (Expr × Value)) .empty =
      .ok (nestedList, .list (.list .nat)) _ := rfl
  have coheres := @synthesis_coheres_with_checking _ _ _ _ atHand .empty (List.Subset.refl _) 9
    nestedList nestedList .empty _ found
  obtain ⟨N, accepts⟩ := (coheres .start).1 (j := 9) rfl
  let act : Act := .answer 9 (.eval .empty (.list (.list .nat)))
  have env : act.pieces ⊆ [.value (.list (.list .nat)), .env .empty] := by
    simp [act, Act.pieces, Request.pieces]
  obtain ⟨M, same⟩ := (coheres (.done .start env (rfl : act.perform _ = _))).2 (j := 9) (.head _) rfl
  exact ⟨_, _, _, _, _, _, N, M, found, rfl, accepts (.inr .start), rfl, nofun, rfl, same (.inr .start)⟩

end TypeKernel
