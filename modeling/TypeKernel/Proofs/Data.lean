/-
# TypeKernel.Proofs.Data — first-order data

Numbers, atoms, `sole`, lists, vectors, injections and pairs, nested in any way, are first-order data. Such an
expression is its own normal form, and two of them are the same exactly if they are equal (`data_normal`).

Evaluation puts the parts of a constructor off, and read-back asks for them at types that it computes on the way
down: the length of a vector is taken apart with the vector, and the type of the second part of a pair comes
from a closure, which evaluates it in an environment of its own. None of this shows. Data and its types are
closed and canonical all the way down, so a value `Shows` such an expression no matter which parts have been
evaluated, and in which environments.
-/
import TypeKernel.Proofs.Sameness

namespace TypeKernel

set_option autoImplicit false

open Machine

/-! ## Types and their data -/

namespace Expr

/-- Constructors and type formers all the way down. -/
def Canonical : Expr → Prop
  | .quote _ | .const _ => True
  | .unary _ e => e.Canonical
  | .binary _ e₁ e₂ => e₁.Canonical ∧ e₂.Canonical
  | .quant _ _ d r => d.Canonical ∧ r.Canonical
  | _ => False

theorem canonical_numeral : (n : Nat) → (numeral n).Canonical
  | 0 => trivial
  | n + 1 => canonical_numeral n

end Expr

/-- Types of first-order data. -/
inductive DataType where
  | nat
  | atom
  | trivial
  | list (entry : DataType)
  /-- Vectors of a length that is a numeral. -/
  | vec (entry : DataType) (length : Nat)
  | either (left right : DataType)
  /-- Pairs whose second type does not depend on the first part, whatever name is bound for it. -/
  | pair (x : Name) (first second : DataType)
  deriving DecidableEq, Repr

namespace DataType

/-- A type of data as an expression. -/
def expr : DataType → Expr
  | .nat => .nat
  | .atom => .const .atom
  | .trivial => .const .trivial
  | .list entry => .list entry.expr
  | .vec entry length => .vec entry.expr (.numeral length)
  | .either left right => .either left.expr right.expr
  | .pair x first second => .sigma x first.expr second.expr

/-- The data of a type. -/
inductive Has : DataType → Expr → Prop
  | zero : Has .nat .zero
  | add1 {e} (h : Has .nat e) : Has .nat (.add1 e)
  | quote (a : String) : Has .atom (.quote a)
  | sole : Has .trivial .sole
  | nil (E : DataType) : Has (.list E) .nil
  | listCons {E e es} (h : Has E e) (hs : Has (.list E) es) : Has (.list E) (.listCons e es)
  | vecNil (E : DataType) : Has (.vec E 0) .vecNil
  | vecCons {E k e es} (h : Has E e) (hs : Has (.vec E k) es) : Has (.vec E (k + 1)) (.vecCons e es)
  | left {L e} (R : DataType) (h : Has L e) : Has (.either L R) (.left e)
  | right {R e} (L : DataType) (h : Has R e) : Has (.either L R) (.right e)
  | cons {A D a d} (x : Name) (ha : Has A a) (hd : Has D d) : Has (.pair x A D) (.cons a d)

theorem canonical_expr (D : DataType) : D.expr.Canonical := by
  induction D with
  | nat | atom | trivial => exact True.intro
  | list E ih => exact ih
  | vec E n ih => exact ⟨ih, Expr.canonical_numeral n⟩
  | either L R ihL ihR => exact ⟨ihL, ihR⟩
  | pair x A D ihA ihD => exact ⟨ihA, ihD⟩

namespace Has

variable {D : DataType} {e : Expr}

theorem canonical (h : D.Has e) : e.Canonical := by
  induction h with
  | zero | quote | sole | nil | vecNil => exact True.intro
  | add1 _ ih | left _ _ ih | right _ _ ih => exact ih
  | listCons _ _ ih ihs | vecCons _ _ ih ihs | cons _ _ _ ih ihs => exact ⟨ih, ihs⟩

theorem binders (h : D.Has e) (ok : List Name → Name → Prop) (X : List Name) : e.Binders ok X := by
  induction h with
  | zero | quote | sole | nil | vecNil => exact True.intro
  | add1 _ ih | left _ _ ih | right _ _ ih => exact ih
  | listCons _ _ ih ihs | vecCons _ _ ih ihs | cons _ _ _ ih ihs => exact ⟨ih, ihs⟩

end Has

end DataType

/-! ## What a value shows -/

/-- The value has the form of the expression, as far as it has been evaluated, and the expression is all that is
left to evaluate. -/
inductive Shows : Expr → Value → Prop
  | const (c : Const) : Shows (.const c) (.const c)
  | quote (a : String) : Shows (.quote a) (.quote a)
  | unary {e v} (u : Unary) (h : Shows e v) : Shows (.unary u e) (.unary u v)
  | binary {e₁ e₂ v₁ v₂} (b : Binary) (h₁ : Shows e₁ v₁) (h₂ : Shows e₂ v₂) :
      Shows (.binary b e₁ e₂) (.binary b v₁ v₂)
  | quant {d r v} (q : Quantifier) (x : Name) (ρ : Env) (hd : Shows d v) (hr : r.Canonical) :
      Shows (.quant q x d r) (.quant q x v (.code ρ x r))
  | delayed {e} (cell : Nat) (ρ : Env) (h : e.Canonical) : Shows e (.delayed cell ρ e)

namespace Expr.Canonical

variable {e : Expr}

theorem laters (h : e.Canonical) (ρ : Env) : ∃ v, Laters ρ e v ∧ Shows e v := by
  cases e with
  | quote a => exact ⟨_, Evals.quote a, .quote a⟩
  | const c => exact ⟨_, Evals.const c, .const c⟩
  | unary u e => exact ⟨_, rfl, .delayed 0 ρ h⟩
  | binary b e₁ e₂ => exact ⟨_, rfl, .delayed 0 ρ h⟩
  | quant q x d r => exact ⟨_, rfl, .delayed 0 ρ h⟩
  | _ => exact h.elim

/-- In every environment an expression that is canonical has a value, which shows it. -/
theorem evals (h : e.Canonical) (ρ : Env) : ∃ v, Evals ρ e v ∧ Shows e v ∧ v.isDelayed = false := by
  cases e with
  | quote a => exact ⟨_, .quote a, .quote a, rfl⟩
  | const c => exact ⟨_, .const c, .const c, rfl⟩
  | unary u e =>
      obtain ⟨v, hv, shown⟩ := laters (e := e) h ρ
      exact ⟨_, .unary u hv, .unary u shown, rfl⟩
  | binary b e₁ e₂ =>
      obtain ⟨v₁, hv₁, shown₁⟩ := laters h.1 ρ
      obtain ⟨v₂, hv₂, shown₂⟩ := laters h.2 ρ
      exact ⟨_, .binary b hv₁ hv₂, .binary b shown₁ shown₂, rfl⟩
  | quant q x d r =>
      obtain ⟨v, hv, shown⟩ := laters h.1 ρ
      exact ⟨_, .quant q x r hv, .quant q x ρ shown h.2, rfl⟩
  | _ => exact h.elim

end Expr.Canonical

namespace Shows

variable {v : Value} {e e₁ e₂ d r : Expr}

theorem form (h : Shows e v) : ∃ w, Forces v w ∧ Shows e w ∧ w.isDelayed = false := by
  cases v with
  | delayed cell ρ e =>
      cases h with
      | delayed _ _ canonical =>
          obtain ⟨w, hw, shown, form⟩ := canonical.evals ρ
          exact ⟨w, (forces_delayed hw).symm.forces (forces_self form), shown, form⟩
  | _ => exact ⟨_, forces_self rfl, h, rfl⟩

theorem forces_const {c : Const} (h : Shows (.const c) v) : Forces v (.const c) := by
  obtain ⟨w, hw, shown, form⟩ := h.form
  cases shown with
  | const => exact hw
  | delayed => cases form

theorem forces_quote {a : String} (h : Shows (.quote a) v) : Forces v (.quote a) := by
  obtain ⟨w, hw, shown, form⟩ := h.form
  cases shown with
  | quote => exact hw
  | delayed => cases form

theorem forces_unary {u : Unary} (h : Shows (.unary u e) v) :
    ∃ w, Forces v (.unary u w) ∧ Shows e w := by
  obtain ⟨w, hw, shown, form⟩ := h.form
  cases shown with
  | unary _ part => exact ⟨_, hw, part⟩
  | delayed => cases form

theorem forces_binary {b : Binary} (h : Shows (.binary b e₁ e₂) v) :
    ∃ w₁ w₂, Forces v (.binary b w₁ w₂) ∧ Shows e₁ w₁ ∧ Shows e₂ w₂ := by
  obtain ⟨w, hw, shown, form⟩ := h.form
  cases shown with
  | binary _ part₁ part₂ => exact ⟨_, _, hw, part₁, part₂⟩
  | delayed => cases form

/-- The range of a type is shown at any argument. -/
theorem forces_quant {q : Quantifier} {x : Name} (h : Shows (.quant q x d r) v) :
    ∃ w c, Forces v (.quant q x w c) ∧ Shows d w ∧ ∀ a, ∃ B, Applies c a B ∧ Shows r B := by
  obtain ⟨w, hw, shown, form⟩ := h.form
  cases shown with
  | quant _ _ ρ part canonical =>
      refine ⟨_, _, hw, part, fun a => ?_⟩
      obtain ⟨B, hB, shown, -⟩ := canonical.evals (ρ.extend x a)
      exact ⟨B, .code hB, shown⟩
  | delayed => cases form

end Shows

/-! ## Equality of data -/

namespace Expr

variable {e e₁ e₂ f : Expr}

/-- An expression with the nameless form of a constructor is one. -/
theorem head_of_nameless (h : e.nameless = f.nameless) : f.head = e.head := by
  rw [← head_namelessUnder [] 0 f, ← head_namelessUnder [] 0 e]
  exact congrArg Nameless.head h.symm

theorem eq_const_of_nameless {c : Const} (h : (Expr.const c).nameless = f.nameless) : f = .const c := by
  have head := head_of_nameless h
  cases f with
  | const => cases head; rfl
  | _ => cases head

theorem eq_quote_of_nameless {a : String} (h : (Expr.quote a).nameless = f.nameless) : f = .quote a := by
  have head := head_of_nameless h
  cases f with
  | quote => cases head; rfl
  | _ => cases head

theorem eq_unary_of_nameless {u : Unary} (h : (Expr.unary u e).nameless = f.nameless) :
    ∃ f', f = .unary u f' ∧ e.nameless = f'.nameless := by
  have head := head_of_nameless h
  cases f with
  | unary _ f' =>
      cases head
      exact ⟨f', rfl, by simpa [nameless, namelessUnder] using h⟩
  | _ => cases head

theorem eq_binary_of_nameless {b : Binary} (h : (Expr.binary b e₁ e₂).nameless = f.nameless) :
    ∃ f₁ f₂, f = .binary b f₁ f₂ ∧ e₁.nameless = f₁.nameless ∧ e₂.nameless = f₂.nameless := by
  have head := head_of_nameless h
  cases f with
  | binary _ f₁ f₂ =>
      cases head
      exact ⟨f₁, f₂, rfl, by simpa [nameless, namelessUnder] using h⟩
  | _ => cases head

end Expr

theorem DataType.Has.nameless_eq_iff {D : DataType} {e f : Expr} (h : D.Has e) :
    e.nameless = f.nameless ↔ e = f := by
  refine ⟨fun same => ?_, congrArg Expr.nameless⟩
  induction h generalizing f with
  | zero | sole | nil | vecNil => exact (Expr.eq_const_of_nameless same).symm
  | quote => exact (Expr.eq_quote_of_nameless same).symm
  | add1 _ ih | left _ _ ih | right _ _ ih =>
      obtain ⟨f', rfl, part⟩ := Expr.eq_unary_of_nameless same
      rw [ih part]
  | listCons _ _ ih ihs | vecCons _ _ ih ihs | cons _ _ _ ih ihs =>
      obtain ⟨f₁, f₂, rfl, part₁, part₂⟩ := Expr.eq_binary_of_nameless same
      rw [ih part₁, ihs part₂]

/-! ## By name -/

/-- A value that shows data reads back as what it shows, at a value that shows the type. -/
theorem DataType.Has.reads {D : DataType} {e : Expr} (h : D.Has e) {σ : Style} {X : List Name} {T v : Value}
    (hT : Shows D.expr T) (hv : Shows e v) : Reads σ X (.value T v) e := by
  induction h generalizing T v with
  | zero => exact .value hT.forces_const (.byForm rfl hv.forces_const .zero)
  | add1 _ ih =>
      obtain ⟨w, form, part⟩ := hv.forces_unary
      exact .value hT.forces_const (.byForm rfl form (.add1 (ih (.const .nat) part)))
  | quote a => exact .value hT.forces_const (.byForm rfl hv.forces_quote (.quote a))
  | sole => exact .value hT.forces_const .sole
  | nil E =>
      obtain ⟨_, former, -⟩ := hT.forces_unary
      exact .value former (.byForm rfl hv.forces_const .nil)
  | listCons _ _ ih ihs =>
      obtain ⟨_, former, entry⟩ := hT.forces_unary
      obtain ⟨_, _, form, first, rest⟩ := hv.forces_binary
      exact .value former (.byForm rfl form (.listCons (ih entry first) (ihs (.unary .list entry) rest)))
  | vecNil E =>
      obtain ⟨_, _, former, -⟩ := hT.forces_binary
      exact .value former (.byForm rfl hv.forces_const .vecNil)
  | vecCons _ _ ih ihs =>
      obtain ⟨_, _, former, entry, length⟩ := hT.forces_binary
      obtain ⟨_, more, smaller⟩ := length.forces_unary
      obtain ⟨_, _, form, first, rest⟩ := hv.forces_binary
      exact .value former (.byForm rfl form
        (.vecCons more (ih entry first) (ihs (.binary .vec entry smaller) rest)))
  | left R _ ih =>
      obtain ⟨_, _, former, type, -⟩ := hT.forces_binary
      obtain ⟨_, form, part⟩ := hv.forces_unary
      exact .value former (.byForm rfl form (.left (ih type part)))
  | right L _ ih =>
      obtain ⟨_, _, former, -, type⟩ := hT.forces_binary
      obtain ⟨_, form, part⟩ := hv.forces_unary
      exact .value former (.byForm rfl form (.right (ih type part)))
  | cons x _ _ iha ihd =>
      obtain ⟨_, _, former, domain, range⟩ := hT.forces_quant
      obtain ⟨a, _, form, first, second⟩ := hv.forces_binary
      obtain ⟨B, applied, type⟩ := range a
      exact .value former
        (.cons (Cars.cons form) (Cdrs.cons form) (iha domain first) applied (ihd type second))

/-- The normal form of an expression at a type that is evaluated first. -/
def normalFormAt {m : Type → Type} [Machine m] (n : Nat) (Γ : Context) (type e : Expr) : m Expr := do
  let T ← Γ.env.eval n type
  normalForm n Γ T e

/-- Whether two expressions are the same at a type that is evaluated first. -/
def verdictAt {m : Type → Type} [Machine m] (n : Nat) (Γ : Context) (type e f : Expr) : m Bool := do
  let T ← Γ.env.eval n type
  verdict n Γ T e f

namespace DataType

variable {D : DataType} {e f : Expr} (Γ : Context)

theorem type_evals (D : DataType) : ∃ T, Shows D.expr T ∧
    ∃ N, ∀ i, N ≤ i → Γ.env.eval i D.expr = (.ok T : ByName Value) := by
  obtain ⟨T, hT, shown, -⟩ := D.canonical_expr.evals Γ.env
  exact ⟨T, shown, run_of_answer hT⟩

theorem Has.readBack (h : D.Has e) {T : Value} (hT : Shows D.expr T) : ∃ v N, ∀ i, N ≤ i →
    Γ.env.eval i e = (.ok v : ByName Value) ∧ readBack i Γ T v = (.ok e : ByName Expr) := by
  obtain ⟨v, hv, shown, -⟩ := h.canonical.evals Γ.env
  have reads : Reads .asHinted Γ.names (.value T v) e := h.reads hT shown
  obtain ⟨N, evals⟩ := run_of_answer hv
  obtain ⟨M, returns⟩ := (reads.asHinted_tends (h.binders _ _) rfl).settles
  exact ⟨v, max N M, fun i hi => ⟨evals i (by omega), returns i (by omega)⟩⟩

theorem Has.normalFormAt (h : D.Has e) :
    ∃ N, ∀ i, N ≤ i → normalFormAt i Γ D.expr e = (.ok e : ByName Expr) := by
  obtain ⟨T, shown, M, type⟩ := D.type_evals Γ
  obtain ⟨v, N, value⟩ := h.readBack Γ shown
  refine ⟨max M N, fun i hi => ?_⟩
  obtain ⟨evals, reads⟩ := value i (by omega)
  exact (ByName.bind_ok (type i (by omega))).trans ((ByName.bind_ok evals).trans reads)

theorem Has.verdictAt (he : D.Has e) (hf : D.Has f) :
    ∃ N, ∀ i, N ≤ i → verdictAt i Γ D.expr e f = (.ok (decide (e = f)) : ByName Bool) := by
  obtain ⟨T, shown, M, type⟩ := D.type_evals Γ
  obtain ⟨v, N, left⟩ := he.readBack Γ shown
  obtain ⟨w, N', right⟩ := hf.readBack Γ shown
  refine ⟨max M (max N N'), fun i hi => ?_⟩
  obtain ⟨evalsLeft, readsLeft⟩ := left i (by omega)
  obtain ⟨evalsRight, readsRight⟩ := right i (by omega)
  have same : e.alphaEquiv f = some (decide (e = f)) := by
    rw [Expr.alphaEquiv_eq_decide (readBack_known readsLeft), decide_eq_decide.2 he.nameless_eq_iff]
  exact (ByName.bind_ok (type i (by omega))).trans ((ByName.bind_ok evalsLeft).trans
    ((ByName.bind_ok evalsRight).trans (convert_eq_ok.2 ⟨e, f, readsLeft, readsRight, same⟩)))

end DataType

/-! ## By need -/

/-- First-order data is its own normal form, in every context and whatever was done in the session before, and
conversion decides whether two expressions for data of one type are equal. -/
theorem data_normal {s₀ s : Session} {ps : List Piece} (h : History s₀ [] s ps) {Γ : Context}
    (hΓ : Γ.pieces ⊆ ps) {D : DataType} {e f : Expr} (he : D.Has e) (hf : D.Has f) :
    Endures (fun k => normalFormAt k Γ D.expr e) (· = e) s ps ∧
    Endures (fun k => verdictAt k Γ D.expr e f) (· = decide (e = f)) s ps := by
  obtain ⟨K, -, rem, held⟩ := h.held (.start s₀) (List.forall_mem_nil _)
  have matched := (held.of_subset hΓ).context
  constructor
  · obtain ⟨N, byName⟩ := he.normalFormAt Γ.erase
    refine .of_byName rem held (fun {K'} le hK n => ?_) byName
    refine byNeed_bind (byNeed_eval hK (matched.mono le) D.expr) fun K₁ T T' le₁ hK₁ hT => ?_
    exact byNeed_normalForm hK₁ ((matched.mono le).mono le₁) hT n e
  · obtain ⟨N, byName⟩ := he.verdictAt Γ.erase hf
    refine .of_byName rem held (fun {K'} le hK n => ?_) byName
    refine byNeed_bind (byNeed_eval hK (matched.mono le) D.expr) fun K₁ T T' le₁ hK₁ hT => ?_
    exact byNeed_verdict hK₁ ((matched.mono le).mono le₁) hT n e f

/-- Pairs of a vector of two numbers and of a list of atoms, if there is one. -/
def reportType : DataType :=
  .pair "x" (.vec .nat 2) (.either .trivial (.list .atom))

/-- Such a pair, with one atom in its list. -/
def sampleReport (atom : String) : Expr :=
  .cons (.vecCons (.numeral 1) (.vecCons .zero .vecNil)) (.right (.listCons (.quote atom) .nil))

theorem reportType_has (atom : String) : reportType.Has (sampleReport atom) :=
  .cons "x" (.vecCons (.add1 .zero) (.vecCons .zero (.vecNil _)))
    (.right _ (.listCons (.quote atom) (.nil _)))

/-- In the empty context, such pairs are told apart by their atom. -/
theorem reports_told_apart :
    Endures (fun k => normalFormAt k .empty reportType.expr (sampleReport "a")) (· = sampleReport "a") .empty
      [.env .empty] ∧
    Endures (fun k => verdictAt k .empty reportType.expr (sampleReport "a") (sampleReport "b")) (· = false) .empty
      [.env .empty] :=
  data_normal (.build .start rfl (List.nil_subset _)) (List.Subset.refl _) (reportType_has "a")
    (reportType_has "b")

end TypeKernel
