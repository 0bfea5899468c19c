/-
# TypeKernel.Proofs.Completeness — which normal forms are accepted again

The typing rules are stated without a bound on the steps. For a normal form they also say what checking does.
Two of the kernel's rules ask for more than the rules for normal forms: a proof that is composed with another
one must show its type, so it must not be `same` as it stands, and the type of the function of a congruence
must not mention its variable in its range. A normal form with these two properties (`Expr.Checkable`) is
checked with the elaborated form and the type that the rules give, from some number of steps on, unless a
fresh name needs a numeral that is too long. Without them it is never accepted (`Judged.decided`).

Checking a form that has a rule to find its type, and checking that it is a type, go through this rule. The
judgments of a form are built once for all forms of a kind (`ofSynthesis` and its kin), so that each rule is
followed once.
-/
import TypeKernel.Proofs.Attains
import TypeKernel.Proofs.Prepared

namespace TypeKernel

set_option autoImplicit false

open Machine

/-! ## Rules for normal forms -/

/-- The rules for normal forms, with the comparisons of the kernel. The type of a congruence is as the kernel
finds it, if its function has a simple range. -/
def Discipline.printed : Discipline where
  sameType Γ A T := kernel.sameType Γ A T ∧ (Forces A .univ → Forces T .univ)
  same := kernel.same
  annotates := kernel.annotates
  simple Γ x d R _ D := ∃ t, Reads .ofHints Γ.names (.type (.pi x d R)) t ∧
    ∀ n, t.simpleRange? = some n → Evals Γ.env n D
  atom _ := True
  lax := True

namespace Expr

/-- Whether an expression is a proof by `same` as it stands. -/
def isSame : Expr → Bool
  | .unary .same _ => true
  | _ => false

/-- Whether a function is annotated with a type whose range does not mention the variable. -/
def hasSimpleRange : Expr → Bool
  | .the t _ => t.simpleRange?.isSome
  | _ => false

/-- What the kernel asks of a normal form: composed proofs show their types, and the functions of congruences
have simple ranges. -/
def Checkable : Expr → Prop
  | .var _ | .quote _ | .const _ | .todo | .malformed _ => True
  | .unary _ e | .proj _ e | .lam _ e => e.Checkable
  | .binary _ e₁ e₂ | .quant _ _ e₁ e₂ | .the e₁ e₂ | .app e₁ e₂ | .indAbsurd e₁ e₂ =>
      e₁.Checkable ∧ e₂.Checkable
  | .equal e₁ e₂ e₃ | .fold _ e₁ e₂ e₃ | .transport _ e₁ e₂ e₃ =>
      e₁.Checkable ∧ e₂.Checkable ∧ e₃.Checkable
  | .induct _ t m b s => t.Checkable ∧ m.Checkable ∧ b.Checkable ∧ s.Checkable
  | .indVec k t m b s => k.Checkable ∧ t.Checkable ∧ m.Checkable ∧ b.Checkable ∧ s.Checkable
  | .trans l r => (l.isSame = false ∧ l.Checkable) ∧ r.isSame = false ∧ r.Checkable
  | .cong t f => t.Checkable ∧ f.Checkable ∧ f.hasSimpleRange = true

instance decidableCheckable : (e : Expr) → Decidable e.Checkable
  | .var _ | .quote _ | .const _ | .todo | .malformed _ => .isTrue trivial
  | .unary _ e | .proj _ e | .lam _ e => decidableCheckable e
  | .binary _ e₁ e₂ | .quant _ _ e₁ e₂ | .the e₁ e₂ | .app e₁ e₂ | .indAbsurd e₁ e₂ =>
      have := decidableCheckable e₁
      have := decidableCheckable e₂
      inferInstanceAs (Decidable (_ ∧ _))
  | .equal e₁ e₂ e₃ | .fold _ e₁ e₂ e₃ | .transport _ e₁ e₂ e₃ =>
      have := decidableCheckable e₁
      have := decidableCheckable e₂
      have := decidableCheckable e₃
      inferInstanceAs (Decidable (_ ∧ _ ∧ _))
  | .induct _ t m b s =>
      have := decidableCheckable t
      have := decidableCheckable m
      have := decidableCheckable b
      have := decidableCheckable s
      inferInstanceAs (Decidable (_ ∧ _ ∧ _ ∧ _))
  | .indVec k t m b s =>
      have := decidableCheckable k
      have := decidableCheckable t
      have := decidableCheckable m
      have := decidableCheckable b
      have := decidableCheckable s
      inferInstanceAs (Decidable (_ ∧ _ ∧ _ ∧ _ ∧ _))
  | .trans l r =>
      have := decidableCheckable l
      have := decidableCheckable r
      inferInstanceAs (Decidable ((_ ∧ _) ∧ _ ∧ _))
  | .cong t f =>
      have := decidableCheckable t
      have := decidableCheckable f
      inferInstanceAs (Decidable (_ ∧ _ ∧ _))

theorem checkable_annotate {e t : Expr} (ht : t.Checkable) : (e.annotate t).Checkable ↔ e.Checkable := by
  cases e <;> simp [annotate, Checkable, ht]

end Expr

/-- The rules find no type for a proof by `same`. -/
theorem Judged.isSame_of_synth {P : Discipline} {Γ : Context} {r : Renaming} {e core : Expr} {T : Value}
    (h : Judged P Γ r e (.synth T) core) : core.isSame = false := by
  generalize haim : Aim.synth T = aim at h
  cases h <;> first | rfl | cases haim

/-! ## Computations that return on a condition -/

/-- Computations that give `a` if `Q` holds, unless a name needs a subscript that is too long, and that never
return if `Q` does not hold. -/
structure TendsIff {α : Type} (Q : Prop) (F : Nat → ByName α) (a : α) : Prop where
  tends : Q → Tends True F a
  returns : ∀ {n x}, F n = .ok x → Q ∧ x = a

namespace TendsIff

variable {α β : Type} {Q Q' : Prop} {F : Nat → ByName α} {G : Nat → α → ByName β} {a : α} {b : β}

theorem of_tends (h : Tends True F a) : TendsIff True F a where
  tends _ := h
  returns {n x} hx := by
    refine ⟨trivial, ?_⟩
    rcases h.outcome n with ok | stops | ⟨_, _, stops⟩
    · exact Except.ok.inj (hx.symm.trans ok)
    · cases stops.symm.trans hx
    · cases stops.symm.trans hx

theorem bind (hF : TendsIff Q F a) (hG : TendsIff Q' (fun n => G n a) b) :
    TendsIff (Q ∧ Q') (fun n => F n >>= G n) b where
  tends hQ := (hF.tends hQ.1).bind (hG.tends hQ.2)
  returns {n x} hx := by
    obtain ⟨c, hc, hx⟩ := Returns.bind (m := ByName) hx
    obtain ⟨hQ, rfl⟩ := hF.returns hc
    obtain ⟨hQ', rfl⟩ := hG.returns hx
    exact ⟨⟨hQ, hQ'⟩, rfl⟩

theorem iff (h : TendsIff Q F a) (hQ : Q ↔ Q') : TendsIff Q' F a :=
  propext hQ ▸ h

/-- A step that is sure to be taken, before the others. -/
theorem after (hF : Tends True F a) (hG : TendsIff Q (fun n => G n a) b) :
    TendsIff Q (fun n => F n >>= G n) b :=
  ((of_tends hF).bind hG).iff (iff_of_eq (true_and Q))

/-- Steps that are sure to be taken, after the others. -/
theorem before (hF : TendsIff Q F a) (hG : Tends True (fun n => G n a) b) :
    TendsIff Q (fun n => F n >>= G n) b :=
  (hF.bind (of_tends hG)).iff (iff_of_eq (and_true Q))

theorem fails (h : ∀ n x, F n ≠ .ok x) : TendsIff False F a :=
  ⟨False.elim, fun {n x} hx => (h n x hx).elim⟩

end TendsIff

/-! ## Steps of checking -/

namespace Tends

variable {E : Prop} {Γ : Context} {r : Renaming} {A B T d v w : Value}

theorem call {f : Value} (h : Calls f v w) : Tends E (fun n => f.call n v) w :=
  of_finitary (Eval.finitary_call _ _) h

theorem callBoth {f u : Value} (h : CallsBoth f v w u) : Tends E (fun n => f.callBoth n v w) u :=
  of_finitary (Eval.finitary_callBoth _ _ _) h

theorem readBackType {t : Expr} (h : Reads .ofHints Γ.names (.type T) t) :
    Tends True (fun n => readBackType n Γ T) t :=
  h.ofHints_tends rfl

theorem convert (h : Converts Γ (.value T v) (.value T w)) :
    Tends True (fun n => convert n Γ T v w) true := by
  obtain ⟨e, e', he, he', alike⟩ := h
  refine (he.ofHints_tends rfl).bind ((he'.ofHints_tends rfl).bind ?_)
  rw [alike]
  exact .pure true

theorem requireSame (h : Converts Γ (.value T v) (.value T w)) :
    Tends True (fun n => Check.requireSame n Γ T v w) () :=
  (convert h).bind (.pure ())

theorem requireSameType (h : Converts Γ (.type A) (.type B)) :
    Tends True (fun n => Check.requireSameType n Γ A B) () := by
  obtain ⟨e, e', he, he', alike⟩ := h
  have same : Converts Γ (.value .univ A) (.value .univ B) :=
    ⟨e, e', .value (forces_self rfl) (.univ he), .value (forces_self rfl) (.univ he'), alike⟩
  exact (convert same).bind (.pure ())

theorem freshName {x y : Name} (hy : y = Style.ofHints.pick Γ.names x) :
    Tends True (fun _ => freshName Γ x) y := by
  refine fresh rfl ?_
  subst hy
  simp only [Style.ofHints]
  cases freshAmong Γ.names x with
  | ok y => exact .inl rfl
  | error e => exact .inr ⟨trivial, e, rfl⟩

theorem bindFresh {x y : Name} (hy : y = Style.ofHints.pick Γ.names x) :
    Tends True (fun _ => Check.bindFresh Γ r x T) (y, Γ.bindFree y T, r.extend x y) :=
  (freshName hy).bind (.pure _)

theorem nonemptyLength {what : String} {E k m : Value} (hk : Forces k (.add1 m)) :
    Tends True (fun n => Check.nonemptyLength n Γ what E k) m :=
  (run hk).bind (.pure m)

end Tends

/-- A simple range is what the kernel asks for. -/
theorem TendsIff.simpleRange {Γ : Context} {x : Name} {R : Closure} {d D : Value} {t : Expr}
    (ht : Reads .ofHints Γ.names (.type (.pi x d R)) t)
    (hD : ∀ b, t.simpleRange? = some b → Evals Γ.env b D) :
    TendsIff (t.simpleRange?.isSome = true) (fun n => Check.simpleRange n Γ x d R) D := by
  obtain ⟨y, B, nd, b, rfl, hy, hB, hb⟩ := ht.pi_inv
  refine .after (Tends.freshName hy) (.after (Tends.run hB)
    (.after (Tends.readBackType (Γ := Γ.bindFree y d) hb) ?_))
  cases free : b.occursFree y with
  | none => exact .iff (.fails fun n x hx => nomatch hx) (by simp [Expr.simpleRange?, free])
  | some occurs =>
      cases occurs with
      | false =>
          have range : (Expr.pi y nd b).simpleRange? = some b := if_pos free
          exact (of_tends (Tends.run (hD b range))).iff (by simp [range])
      | true =>
          refine .iff (.fails fun n x hx => ?_) (by simp [Expr.simpleRange?, free])
          obtain ⟨t, ht, hx⟩ := Returns.bind (m := ByName) hx
          cases ht
          obtain ⟨_, _, rejected⟩ := Returns.bind (m := ByName) hx
          cases rejected

/-! ## What the judgments return -/

section Decided

variable (Q : Prop) (J : Nat → Judgments ByName) (Γ : Context) (r : Renaming) (core : Expr)

/-- A type is found for the expression on a condition, on which it is accepted at every type that is the same
as well, and as a type if it is an element of the universe. -/
structure Found (T : Value) : Prop where
  synth : TendsIff Q (fun n => (J n).synth Γ r) (core, T)
  check : ∀ {A}, Discipline.printed.sameType Γ A T → TendsIff Q (fun n => (J n).check Γ r A) core
  isType : Forces T .univ → TendsIff Q (fun n => (J n).isType Γ r) core

/-- The expression is accepted at the type on a condition, and as a type if it is an element of the
universe. -/
structure Checked (A : Value) : Prop where
  check : TendsIff Q (fun n => (J n).check Γ r A) core
  isType : Forces A .univ → TendsIff Q (fun n => (J n).isType Γ r) core

/-- What is asked of the expression is returned on a condition. -/
def Decided : Aim → Prop
  | .synth T => Found Q J Γ r core T
  | .check A => Checked Q J Γ r core A
  | .isType => TendsIff Q (fun n => (J n).isType Γ r) core

end Decided

namespace Check

variable {Q Q' : Prop} {Γ : Context} {r : Renaming} {core : Expr} {ℓ : Size}

theorem decided_isType {J : Nat → Judgments ByName} (h : Decided Q J Γ r core ℓ.part) :
    TendsIff Q (fun n => (J n).isType Γ r) core := by
  cases ℓ with
  | small => exact h.isType (forces_self rfl)
  | large => exact h

theorem decided_iff {J : Nat → Judgments ByName} {aim : Aim} (h : Decided Q J Γ r core aim)
    (hQ : Q ↔ Q') : Decided Q' J Γ r core aim :=
  propext hQ ▸ h

section Kinds

variable {e : Expr} {A T w : Value} {rule : Nat → Context → Renaming → ByName (Expr × Value)}
  {formation : Nat → Context → Renaming → ByName Expr}
  {checking : Nat → Context → Renaming → Value → ByName Expr}

theorem found_ofSynthesis (h : TendsIff Q (fun n => rule n Γ r) (core, T)) :
    Found Q (fun n => ofSynthesis n e (rule n)) Γ r core T where
  synth := .after (.pure ()) h
  check hA := .after (.pure ()) (h.before ((Tends.requireSameType hA.1).bind (.pure core)))
  isType hT := .after (.pure ()) (h.before ((Tends.run hT).bind (.pure core)))

theorem decided_ofFormation (h : ℓ = .small → TendsIff Q (fun n => rule n Γ r) (core, .univ))
    (hf : TendsIff Q (fun n => formation n Γ r) core) :
    Decided Q (fun n => ofFormation n e (rule n) (formation n)) Γ r core ℓ.whole := by
  cases ℓ with
  | small => exact { found_ofSynthesis (e := e) (h rfl) with isType := fun _ => hf }
  | large => exact hf

theorem checked_ofChecking (hA : Forces A w) (hw : w ≠ .univ)
    (h : TendsIff Q (fun n => checking n Γ r A) core) :
    Checked Q (fun n => ofChecking e (checking n)) Γ r core A where
  check := .after (.pure ()) h
  isType hU := (hw (hA.unique hU)).elim

theorem checked_ofBoth (hA : Forces A w) (hw : w ≠ .univ)
    (h : TendsIff Q (fun n => checking n Γ r A) core) :
    Checked Q (fun n => ofBoth n e (rule n) (checking n)) Γ r core A where
  check := .after (.pure ()) h
  isType hU := (hw (hA.unique hU)).elim

end Kinds

/-! ## Type formers -/

section Formation

variable {domain range entry length left right type : Nat → Judgments ByName} {a b d e k t : Expr}
  {a' b' d' e' k' t' : Expr} {Q₁ Q₂ Q₃ : Prop} {D T : Value} {x y : Name} {q : Quantifier}

theorem decided_quant (hd : Decided Q₁ domain Γ r d' ℓ.part) (hD : Evals Γ.env d' D)
    (hy : y = Style.ofHints.pick Γ.names x)
    (hb : Decided Q₂ range (Γ.bindFree y D) (r.extend x y) b' ℓ.part) :
    Decided (Q₁ ∧ Q₂) (fun n => quant n q x d b (domain n) (range n)) Γ r (.quant q y d' b') ℓ.whole := by
  have fresh {T : Value} : Tends True _ _ := Tends.bindFresh (r := r) (T := T) hy
  refine decided_ofFormation ?_ ?_
  · rintro rfl
    exact hd.check.bind <| .after (.run hD) <| .after fresh <| hb.check.before (.pure _)
  · exact (decided_isType hd).bind <| .after (.run hD) <| .after fresh <|
      (decided_isType hb).before (.pure _)

theorem decided_list (he : Decided Q entry Γ r e' ℓ.part) :
    Decided Q (fun n => list n e (entry n)) Γ r (.list e') ℓ.whole := by
  refine decided_ofFormation ?_ ?_
  · rintro rfl
    exact he.check.before (.pure _)
  · exact (decided_isType he).before (.pure _)

theorem decided_vec (he : Decided Q₁ entry Γ r e' ℓ.part) (hk : Checked Q₂ length Γ r k' .nat) :
    Decided (Q₁ ∧ Q₂) (fun n => vec n e k (entry n) (length n)) Γ r (.vec e' k') ℓ.whole := by
  refine decided_ofFormation ?_ ?_
  · rintro rfl
    exact he.check.bind <| hk.check.before (.pure _)
  · exact (decided_isType he).bind <| hk.check.before (.pure _)

theorem decided_either (ha : Decided Q₁ left Γ r a' ℓ.part) (hb : Decided Q₂ right Γ r b' ℓ.part) :
    Decided (Q₁ ∧ Q₂) (fun n => either n a b (left n) (right n)) Γ r (.either a' b') ℓ.whole := by
  refine decided_ofFormation ?_ ?_
  · rintro rfl
    exact ha.check.bind <| hb.check.before (.pure _)
  · exact (decided_isType ha).bind <| (decided_isType hb).before (.pure _)

theorem decided_equal (ht : Decided Q₁ type Γ r t' ℓ.part) (hT : Evals Γ.env t' T)
    (ha : Checked Q₂ left Γ r a' T) (hb : Checked Q₃ right Γ r b' T) :
    Decided (Q₁ ∧ Q₂ ∧ Q₃) (fun n => equal n t a b (type n) (left n) (right n)) Γ r (.equal t' a' b')
      ℓ.whole := by
  refine decided_ofFormation ?_ ?_
  · rintro rfl
    exact ht.check.bind <| .after (.run hT) <| ha.check.bind <| hb.check.before (.pure _)
  · exact (decided_isType ht).bind <| .after (.run hT) <| ha.check.bind <| hb.check.before (.pure _)

end Formation

/-! ## Constructors -/

section Introduction

variable {body first second head tail inner : Nat → Judgments ByName} {a b e a' b' e' : Expr}
  {Q₁ Q₂ : Prop} {A B E L M T d k l m v w : Value} {R : Closure} {x y z : Name}

theorem checked_lam (hA : Forces A (.pi z d R)) (hy : y = Style.ofHints.pick Γ.names x)
    (hB : Applies R (.ofVar y d) B) (hb : Checked Q body (Γ.bindFree y d) (r.extend x y) b' B) :
    Checked Q (fun n => lam n x b (body n)) Γ r (.lam y b') A :=
  checked_ofChecking hA nofun <| .after (.run hA) <| .after (.bindFresh hy) <| .after (.run hB) <|
    hb.check.before (.pure _)

theorem checked_cons (hA : Forces A (.sigma z d R)) (ha : Checked Q₁ first Γ r a' d)
    (hv : Evals Γ.env a' v) (hB : Applies R v B) (hb : Checked Q₂ second Γ r b' B) :
    Checked (Q₁ ∧ Q₂) (fun n => cons n a b (first n) (second n)) Γ r (.cons a' b') A :=
  checked_ofChecking hA nofun <| .after (.run hA) <| ha.check.bind <| .after (.run hv) <|
    .after (.run hB) <| hb.check.before (.pure _)

theorem checked_nil (hA : Forces A (.list E)) : Checked True (fun n => nil n) Γ r .nil A :=
  checked_ofChecking hA nofun <| .of_tends <| (Tends.run hA).bind (.pure _)

theorem checked_listCons (hA : Forces A (.list E)) (ha : Checked Q₁ head Γ r a' E)
    (hb : Checked Q₂ tail Γ r b' (.list E)) :
    Checked (Q₁ ∧ Q₂) (fun n => listCons n a b (head n) (tail n)) Γ r (.listCons a' b') A :=
  checked_ofBoth hA nofun <| .after (.run hA) <| ha.check.bind <| hb.check.before (.pure _)

theorem checked_vecNil (hA : Forces A (.vec E k)) (hk : Discipline.kernel.same Γ .nat .zero k) :
    Checked True (fun n => vecNil n) Γ r .vecNil A :=
  checked_ofChecking hA nofun <| .of_tends <| (Tends.run hA).bind <| (Tends.requireSame hk).bind (.pure _)

theorem checked_vecCons (hA : Forces A (.vec E k)) (hk : Forces k (.add1 m))
    (ha : Checked Q₁ head Γ r a' E) (hb : Checked Q₂ tail Γ r b' (.vec E m)) :
    Checked (Q₁ ∧ Q₂) (fun n => vecCons n a b (head n) (tail n)) Γ r (.vecCons a' b') A :=
  checked_ofChecking hA nofun <| .after (.run hA) <| .after (.nonemptyLength hk) <| ha.check.bind <|
    hb.check.before (.pure _)

theorem checked_left (hA : Forces A (.either L M)) (he : Checked Q inner Γ r e' L) :
    Checked Q (fun n => left n e (inner n)) Γ r (.left e') A :=
  checked_ofChecking hA nofun <| .after (.run hA) <| he.check.before (.pure _)

theorem checked_right (hA : Forces A (.either L M)) (he : Checked Q inner Γ r e' M) :
    Checked Q (fun n => right n e (inner n)) Γ r (.right e') A :=
  checked_ofChecking hA nofun <| .after (.run hA) <| he.check.before (.pure _)

theorem checked_same (hA : Forces A (.equal T v w)) (he : Checked Q inner Γ r e' T)
    (hl : Evals Γ.env e' l) (hv : Discipline.kernel.same Γ T v l) (hw : Discipline.kernel.same Γ T l w) :
    Checked Q (fun n => same n e (inner n)) Γ r (.same e') A :=
  checked_ofChecking hA nofun <| .after (.run hA) <| he.check.before <| (Tends.run hl).bind <|
    (Tends.requireSame hv).bind <| (Tends.requireSame hw).bind (.pure _)

end Introduction

/-! ## Eliminators -/

section Elimination

variable {fn arg subject base step motive length left right : Nat → Judgments ByName}
  {a b f k m s t a' b' c' f' k' m' s' t' : Expr} {Q₁ Q₂ Q₃ Q₄ Q₅ : Prop}
  {B D E F K L M T U Z d g l o u v w : Value} {R : Closure} {z : Name}

theorem tendsIff_target {α : Type} {eliminator : Eliminator} {head : TypeHead} {parts : α}
    (view : Value → Option α) (ht : Found Q subject Γ r t' T) (hT : Forces T U)
    (hU : view U = some parts) :
    TendsIff Q (fun n => target n eliminator head view (subject n) Γ r) (t', parts) := by
  refine ht.synth.before ((Tends.run hT).bind ?_)
  rw [hU]
  exact .pure _

theorem tendsIff_pair {p : Projection} (ht : Found Q subject Γ r t' T) (hT : Forces T (.sigma z d R)) :
    TendsIff Q (fun n => pair n p (subject n) Γ r) (t', d, R) :=
  ht.synth.before <| (Tends.run hT).bind (.pure _)

theorem found_app (hf : Found Q₁ fn Γ r f' F) (hF : Forces F (.pi z d R)) (ha : Checked Q₂ arg Γ r a' d)
    (hv : Evals Γ.env a' v) (hB : Applies R v B) :
    Found (Q₁ ∧ Q₂) (fun n => app n f a (fn n) (arg n)) Γ r (.app f' a') B :=
  found_ofSynthesis <| hf.synth.bind <| .after (.run hF) <| ha.check.before <| (Tends.run hv).bind <|
    (Tends.run hB).bind (.pure _)

theorem found_car (ht : Found Q subject Γ r t' T) (hT : Forces T (.sigma z d R)) :
    Found Q (fun n => proj n .car t (subject n)) Γ r (.proj .car t') d :=
  found_ofSynthesis <| (tendsIff_pair ht hT).before (.pure _)

theorem found_cdr (ht : Found Q subject Γ r t' T) (hT : Forces T (.sigma z d R)) (hv : Evals Γ.env t' v)
    (hw : Eval.car answer v = .ok w) (hB : Applies R w B) :
    Found Q (fun n => proj n .cdr t (subject n)) Γ r (.proj .cdr t') B :=
  found_ofSynthesis <| (tendsIff_pair ht hT).before <| (Tends.run hv).bind <|
    (Tends.of_finitary (Eval.finitary_car _) hw).bind <| (Tends.run hB).bind (.pure _)

theorem found_head (ht : Found Q subject Γ r t' T) (hT : Forces T (.vec E l)) (hl : Forces l (.add1 o)) :
    Found Q (fun n => proj n .head t (subject n)) Γ r (.proj .head t') E :=
  found_ofSynthesis <| (tendsIff_target Value.vecParts? ht hT rfl).before <|
    (Tends.nonemptyLength hl).bind (.pure _)

theorem found_tail (ht : Found Q subject Γ r t' T) (hT : Forces T (.vec E l)) (hl : Forces l (.add1 o)) :
    Found Q (fun n => proj n .tail t (subject n)) Γ r (.proj .tail t') (.vec E o) :=
  found_ofSynthesis <| (tendsIff_target Value.vecParts? ht hT rfl).before <|
    (Tends.nonemptyLength hl).bind (.pure _)

theorem found_symm (ht : Found Q subject Γ r t' T) (hT : Forces T (.equal K v w)) :
    Found Q (fun n => proj n .symm t (subject n)) Γ r (.proj .symm t') (.equal K w v) :=
  found_ofSynthesis <| (tendsIff_target Value.equalParts? ht hT rfl).before (.pure _)

/-- An annotation that stands is the one that the kernel would make. -/
theorem annotated_eq (h : Discipline.printed.Annotated Γ B b' c') : c' = b' ∧
    ∃ t e, b' = .the t e ∧ Reads .ofHints Γ.names (.type B) t := by
  cases h with
  | kept _ reads => exact ⟨rfl, _, _, rfl, reads⟩
  | added strict => exact (strict trivial).elim

theorem tendsIff_baseAndStep {S : Value → Value} (hb : Found Q₁ base Γ r b' B)
    (hs : Checked Q₂ step Γ r s' (S B)) (hB : Discipline.printed.Annotated Γ B b' c') :
    TendsIff (Q₁ ∧ Q₂) (fun n => baseAndStep n S (base n) (step n) Γ r) (c', s', B) := by
  obtain ⟨rfl, t, e, rfl, reads⟩ := annotated_eq hB
  exact hb.synth.bind <| hs.check.before <| (Tends.readBackType reads).bind (.pure _)

theorem found_natFold {o : Fold} {S : Value → Value} (ho : NatFold o S) (ht : Found Q₁ subject Γ r t' T)
    (hT : Forces T .nat) (hb : Found Q₂ base Γ r b' B) (hs : Checked Q₃ step Γ r s' (S B))
    (hB : Discipline.printed.Annotated Γ B b' c') :
    Found (Q₁ ∧ Q₂ ∧ Q₃) (fun n => fold n o t b s (subject n) (base n) (step n)) Γ r
      (.fold o t' c' s') B := by
  have rule : TendsIff (Q₁ ∧ Q₂ ∧ Q₃) (fun n => natFoldRule n o S (subject n) (base n) (step n) Γ r)
      (.fold o t' c' s', B) :=
    (tendsIff_target Value.isNat? ht hT rfl).bind <| (tendsIff_baseAndStep hb hs hB).before (.pure _)
  cases ho <;> exact found_ofSynthesis rule

theorem found_recList (ht : Found Q₁ subject Γ r t' T) (hT : Forces T (.list E))
    (hb : Found Q₂ base Γ r b' B) (hs : Checked Q₃ step Γ r s' (.recListStep E B))
    (hB : Discipline.printed.Annotated Γ B b' c') :
    Found (Q₁ ∧ Q₂ ∧ Q₃) (fun n => fold n .recList t b s (subject n) (base n) (step n)) Γ r
      (.fold .recList t' c' s') B :=
  found_ofSynthesis <| (tendsIff_target Value.listEntry? ht hT rfl).bind <|
    (tendsIff_baseAndStep hb hs hB).before (.pure _)

theorem found_indNat (ht : Found Q₁ subject Γ r t' T) (hT : Forces T .nat)
    (hm : Checked Q₂ motive Γ r m' .natMotive) (hM : Evals Γ.env m' M) (hZ : Calls M .zero Z)
    (hb : Checked Q₃ base Γ r b' Z) (hs : Checked Q₄ step Γ r s' (.indNatStep M))
    (hv : Evals Γ.env t' v) (hB : Calls M v B) :
    Found (Q₁ ∧ Q₂ ∧ Q₃ ∧ Q₄)
      (fun n => induct n .indNat t m b s (subject n) (motive n) (base n) (step n)) Γ r
      (.induct .indNat t' m' b' s') B :=
  found_ofSynthesis <| (tendsIff_target Value.isNat? ht hT rfl).bind <| hm.check.bind <|
    .after (.run hM) <| .after (.call hZ) <| hb.check.bind <| hs.check.before <| (Tends.run hv).bind <|
      (Tends.call hB).bind (.pure _)

theorem found_indList (ht : Found Q₁ subject Γ r t' T) (hT : Forces T (.list E))
    (hm : Checked Q₂ motive Γ r m' (.listMotive E)) (hM : Evals Γ.env m' M) (hZ : Calls M .nil Z)
    (hb : Checked Q₃ base Γ r b' Z) (hs : Checked Q₄ step Γ r s' (.indListStep E M))
    (hv : Evals Γ.env t' v) (hB : Calls M v B) :
    Found (Q₁ ∧ Q₂ ∧ Q₃ ∧ Q₄)
      (fun n => induct n .indList t m b s (subject n) (motive n) (base n) (step n)) Γ r
      (.induct .indList t' m' b' s') B :=
  found_ofSynthesis <| (tendsIff_target Value.listEntry? ht hT rfl).bind <| hm.check.bind <|
    .after (.run hM) <| .after (.call hZ) <| hb.check.bind <| hs.check.before <| (Tends.run hv).bind <|
      (Tends.call hB).bind (.pure _)

theorem found_indEither (ht : Found Q₁ subject Γ r t' T) (hT : Forces T (.either K L))
    (hm : Checked Q₂ motive Γ r m' (.simpleMotive (.either K L))) (hM : Evals Γ.env m' M)
    (hb : Checked Q₃ base Γ r b' (.eitherCase .left K M))
    (hs : Checked Q₄ step Γ r s' (.eitherCase .right L M)) (hv : Evals Γ.env t' v) (hB : Calls M v B) :
    Found (Q₁ ∧ Q₂ ∧ Q₃ ∧ Q₄)
      (fun n => induct n .indEither t m b s (subject n) (motive n) (base n) (step n)) Γ r
      (.induct .indEither t' m' b' s') B :=
  found_ofSynthesis <| (tendsIff_target Value.eitherParts? ht hT rfl).bind <| hm.check.bind <|
    .after (.run hM) <| hb.check.bind <| hs.check.before <| (Tends.run hv).bind <|
      (Tends.call hB).bind (.pure _)

/-- The motive is called with one argument after the other. -/
theorem tends_callBoth {α : Type} {G : Nat → Value → ByName α} {x : α} (h : CallsBoth M v w u)
    {F : Nat → ByName Value} (hF : Tends True F w) (hG : Tends True (fun n => G n u) x) :
    Tends True (fun n => do
      let fn ← M.call n v
      let w ← F n
      let u ← fn.call n w
      G n u) x := by
  obtain ⟨o, ho, hu⟩ := Returns.bind (m := ByName) h
  exact (Tends.call ho).bind (hF.bind ((Tends.call hu).bind hG))

theorem found_indVec (hk : Checked Q₁ length Γ r k' .nat) (hl : Evals Γ.env k' l)
    (ht : Found Q₂ subject Γ r t' T) (hT : Forces T (.vec E o)) (hlo : Discipline.kernel.same Γ .nat l o)
    (hm : Checked Q₃ motive Γ r m' (.vecMotive E)) (hM : Evals Γ.env m' M)
    (hZ : CallsBoth M .zero .vecNil Z) (hb : Checked Q₄ base Γ r b' Z)
    (hs : Checked Q₅ step Γ r s' (.indVecStep E M)) (hv : Evals Γ.env t' v) (hB : CallsBoth M l v B) :
    Found (Q₁ ∧ Q₂ ∧ Q₃ ∧ Q₄ ∧ Q₅)
      (fun n => indVec n k t m b s (length n) (subject n) (motive n) (base n) (step n)) Γ r
      (.indVec k' t' m' b' s') B :=
  found_ofSynthesis <| hk.check.bind <| .after (.run hl) <|
    (tendsIff_target Value.vecParts? ht hT rfl).bind <| .after (.requireSame hlo) <| hm.check.bind <|
      .after (.run hM) <| .after (.callBoth hZ) <| hb.check.bind <| hs.check.before <|
        tends_callBoth hB (.run hv) (.pure _)

theorem found_indAbsurd (ht : Found Q₁ subject Γ r t' T) (hT : Forces T .absurd)
    (hm : Checked Q₂ motive Γ r m' .univ) (hM : Evals Γ.env m' M) :
    Found (Q₁ ∧ Q₂) (fun n => indAbsurd n t m (subject n) (motive n)) Γ r
      (.indAbsurd (t'.annotate .absurd) m') M :=
  found_ofSynthesis <| (tendsIff_target Value.isAbsurd? ht hT rfl).bind <| hm.check.before <|
    (Tends.run hM).bind (.pure _)

theorem found_replace (ht : Found Q₁ subject Γ r t' T) (hT : Forces T (.equal K v w))
    (hm : Checked Q₂ motive Γ r m' (.simpleMotive K)) (hM : Evals Γ.env m' M) (hZ : Calls M v Z)
    (hb : Checked Q₃ base Γ r b' Z) (hB : Calls M w B) :
    Found (Q₁ ∧ Q₂ ∧ Q₃) (fun n => transport n .replace t m b (subject n) (motive n) (base n)) Γ r
      (.transport .replace t' m' b') B :=
  found_ofSynthesis <| (tendsIff_target Value.equalParts? ht hT rfl).bind <| hm.check.bind <|
    .after (.run hM) <| .after (.call hZ) <| hb.check.before <| (Tends.call hB).bind (.pure _)

theorem found_indEqual (ht : Found Q₁ subject Γ r t' T) (hT : Forces T (.equal K v w))
    (hm : Checked Q₂ motive Γ r m' (.equalMotive K v)) (hM : Evals Γ.env m' M)
    (hZ : CallsBoth M v (.same v) Z) (hb : Checked Q₃ base Γ r b' Z) (hu : Evals Γ.env t' u)
    (hB : CallsBoth M w u B) :
    Found (Q₁ ∧ Q₂ ∧ Q₃) (fun n => transport n .indEqual t m b (subject n) (motive n) (base n)) Γ r
      (.transport .indEqual t' m' b') B :=
  found_ofSynthesis <| (tendsIff_target Value.equalParts? ht hT rfl).bind <| hm.check.bind <|
    .after (.run hM) <| .after (.callBoth hZ) <| hb.check.before <|
      tends_callBoth hB (.run hu) (.pure _)

theorem found_trans (ha : Found Q₁ left Γ r a' T) (hT : Forces T (.equal K l o))
    (hb : Found Q₂ right Γ r b' U) (hU : Forces U (.equal L v w)) (hK : Discipline.printed.sameType Γ K L)
    (ho : Discipline.kernel.same Γ K o v) :
    Found (Q₁ ∧ Q₂) (fun n => trans n a b (left n) (right n)) Γ r (.trans a' b') (.equal K l w) :=
  found_ofSynthesis <| (tendsIff_target Value.equalParts? ha hT rfl).bind <|
    (tendsIff_target Value.equalParts? hb hU rfl).before <| (Tends.requireSameType hK.1).bind <|
      (Tends.requireSame ho).bind (.pure _)

/-- No type is found for a proof by `same`, whether it comes first or second. -/
theorem found_sameTrans : Found False (fun n => trans n (.same a) b (same n a (left n)) (right n)) Γ r
    core T :=
  found_ofSynthesis <| .fails fun _ _ h => nomatch h

theorem found_transSame (ha : Found Q left Γ r a' T) (hT : Forces T (.equal K l o)) :
    Found False (fun n => trans n a (.same b) (left n) (same n b (right n))) Γ r core U := by
  refine found_ofSynthesis <| .iff (Q := Q ∧ False) ?_ (iff_of_eq (and_false Q))
  exact (tendsIff_target Value.equalParts? ha hT rfl).bind <| .fails fun _ _ h => nomatch h

theorem found_cong (ht : Found Q₁ subject Γ r t' T) (hT : Forces T (.equal K v w))
    (hf : Found Q₂ fn Γ r f' F) (hF : Forces F (.pi z d R)) (hd : Discipline.printed.sameType Γ d K)
    (hD : Discipline.printed.simple Γ z d R v D) (hg : Evals Γ.env f' g) (hu : Calls g v u)
    (hl : Calls g w l) (hc : Discipline.printed.Annotated Γ (.pi z d R) f' c') :
    Found (Q₁ ∧ Q₂ ∧ c'.hasSimpleRange = true) (fun n => cong n t f (subject n) (fn n)) Γ r (.cong t' c')
      (.equal D u l) := by
  obtain ⟨rfl, t, e, rfl, reads⟩ := annotated_eq hc
  obtain ⟨t', reads', hD⟩ := hD
  cases reads'.deterministic reads
  exact found_ofSynthesis <| (tendsIff_target Value.equalParts? ht hT rfl).bind <| hf.synth.bind <|
    .after (.run hF) <| .after (.requireSameType hd.1) <| (TendsIff.simpleRange reads hD).before <|
      (Tends.run hg).bind <| (Tends.call hu).bind <| (Tends.call hl).bind <|
        (Tends.readBackType reads).bind (.pure _)

end Elimination

end Check

/-! ## The rules -/

open Check in
/-- A normal form that the rules accept is checked as they say, if the kernel's rules find types for its
proofs and its functions have simple ranges, and otherwise not at all. -/
theorem Judged.decided {Γ : Context} {r : Renaming} {e core : Expr} {aim : Aim}
    (h : Judged .printed Γ r e aim core) : ∀ {N : Name → Prop}, e.Elaborated N →
      Decided core.Checkable (fun n => judge n e) Γ r core aim := by
  induction h with
  | switch _ hT ih => exact fun he => ⟨(ih he).check hT, fun hA => (ih he).isType (hT.2 hA)⟩
  | lift _ hT ih => exact fun he => (ih he).isType hT
  | @var Γ r x b hx hb =>
      intro N _
      refine found_ofSynthesis (.of_tends ?_)
      rw [hx]
      cases b with
      | free T => exact .pure _
      | definition T v => exact .pure _
      | claim T => cases hb
  | the _ hT _ iht ihe =>
      exact fun he => found_ofSynthesis <| TendsIff.bind (iht he.1) <| .after (.run hT) <|
        (ihe he.2).check.before (.pure _)
  | @const Γ r c T hc =>
      intro N _
      cases c <;> cases hc <;> exact found_ofSynthesis (.of_tends (.pure _))
  | univ => exact fun _ => .of_tends (.pure _)
  | quant ℓ _ hD hy _ ihd ihb => exact fun he => decided_quant (ihd he.1) hD hy (ihb he.2)
  | list ℓ _ ih => exact fun he => decided_list (ih he)
  | vec ℓ _ _ ihe ihk => exact fun he => decided_vec (ihe he.1) (ihk he.2)
  | either ℓ _ _ iha ihb => exact fun he => decided_either (iha he.1) (ihb he.2)
  | equal ℓ _ hT _ _ iht iha ihb =>
      exact fun he => decided_equal (iht he.1) hT (iha he.2.1) (ihb he.2.2)
  | lam hA hy hB _ ih => exact fun he => checked_lam hA hy hB (ih he)
  | cons hA _ hv hB _ iha ihb => exact fun he => checked_cons hA (iha he.1) hv hB (ihb he.2)
  | add1 _ ih => exact fun he => found_ofSynthesis ((ih he).check.before (.pure _))
  | @quote Γ r a _ =>
      intro N (valid : isAtom a = true)
      refine found_ofSynthesis (.of_tends ?_)
      rw [if_pos valid]
      exact .pure _
  | nil hA => exact fun _ => checked_nil hA
  | listConsSynth strict => exact (strict trivial).elim
  | listCons hA _ _ iha ihb => exact fun he => checked_listCons hA (iha he.1) (ihb he.2)
  | vecNil hA hk => exact fun _ => checked_vecNil hA hk
  | vecCons hA hk _ _ iha ihb => exact fun he => checked_vecCons hA hk (iha he.1) (ihb he.2)
  | left hA _ ih => exact fun he => checked_left hA (ih he)
  | right hA _ ih => exact fun he => checked_right hA (ih he)
  | same hA _ hv ha hb ih => exact fun he => checked_same hA (ih he) hv ha hb
  | app _ hF _ hv hB ihf iha => exact fun he => found_app (ihf he.1) hF (iha he.2) hv hB
  | car _ hT ih => exact fun he => found_car (ih he) hT
  | cdr _ hT hv ha hB ih => exact fun he => found_cdr (ih he) hT hv ha hB
  | head _ hT hk ih => exact fun he => found_head (ih he) hT hk
  | tail _ hT hk ih => exact fun he => found_tail (ih he) hT hk
  | symm _ hT ih => exact fun he => found_symm (ih he) hT
  | natFold hf _ hT _ _ hB iht ihb ihs =>
      rintro N ⟨_, ht, hb, hs⟩
      obtain ⟨rfl, -⟩ := annotated_eq hB
      exact found_natFold hf (iht ht) hT (ihb hb) (ihs hs) hB
  | recList _ hT _ _ hB iht ihb ihs =>
      rintro N ⟨_, ht, hb, hs⟩
      obtain ⟨rfl, -⟩ := annotated_eq hB
      exact found_recList (iht ht) hT (ihb hb) (ihs hs) hB
  | indNat _ hT _ hM hZ _ _ hv hB iht ihm ihb ihs =>
      exact fun ⟨ht, hm, hb, hs⟩ => found_indNat (iht ht) hT (ihm hm) hM hZ (ihb hb) (ihs hs) hv hB
  | indList _ hT _ hM hZ _ _ hv hB iht ihm ihb ihs =>
      exact fun ⟨ht, hm, hb, hs⟩ => found_indList (iht ht) hT (ihm hm) hM hZ (ihb hb) (ihs hs) hv hB
  | indEither _ hT _ hM _ _ hv hB iht ihm ihb ihs =>
      exact fun ⟨ht, hm, hb, hs⟩ => found_indEither (iht ht) hT (ihm hm) hM (ihb hb) (ihs hs) hv hB
  | indVec _ hn _ hT hl _ hM hZ _ _ hv hB ihk iht ihm ihb ihs =>
      exact fun ⟨hk, ht, hm, hb, hs⟩ =>
        found_indVec (ihk hk) hn (iht ht) hT hl (ihm hm) hM hZ (ihb hb) (ihs hs) hv hB
  | indAbsurd _ hT _ hM iht ihm =>
      intro N he
      refine decided_iff (found_indAbsurd (iht he.1) hT (ihm he.2) hM) ?_
      exact and_congr (Expr.checkable_annotate (t := .absurd) trivial).symm .rfl
  | replace _ hT _ hM hZ _ hB iht ihm ihb =>
      exact fun ⟨ht, hm, hb⟩ => found_replace (iht ht) hT (ihm hm) hM hZ (ihb hb) hB
  | indEqual _ hT _ hM hZ _ hv hB iht ihm ihb =>
      exact fun ⟨ht, hm, hb⟩ => found_indEqual (iht ht) hT (ihm hm) hM hZ (ihb hb) hv hB
  | trans ha hT hb hT' hK hm iha ihb =>
      intro N he
      refine decided_iff (found_trans (iha he.1) hT (ihb he.2) hT' hK hm) ?_
      simp [Expr.Checkable, ha.isSame_of_synth, hb.isSame_of_synth]
  | sameTrans =>
      exact fun _ => decided_iff found_sameTrans (by simp [Expr.Checkable, Expr.isSame])
  | transSame _ _ hT _ _ _ iha =>
      exact fun he => decided_iff (found_transSame (iha he.1) hT) (by simp [Expr.Checkable, Expr.isSame])
  | cong _ hT _ hF hd hD hg hu hv hf iht ihf =>
      rintro N ⟨_, ht, hf'⟩
      obtain ⟨rfl, -⟩ := annotated_eq hf
      exact found_cong (iht ht) hT (ihf hf') hF hd hD hg hu hv hf

end TypeKernel
