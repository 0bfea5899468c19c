/-
# TypeKernel.Proofs.Normalization — what is accepted has a normal form

An expression that checking accepts in an established context evaluates, its value has a form, and it reads
back at its type. This is the theory of values read off for runs by need: whatever else happens in the
session, from some number of steps on evaluation returns, and so does reading back, except where a fresh
name needs a numeral that is too long.

A stuck value carries a type of its own. It is the type that checking found (`stuck_type_agrees`). The normal
form of an accepted expression is stable: normalizing it once more gives it back, even with the names of its
bound variables (`normalization_idempotent`).
-/
import TypeKernel.Proofs.Attains
import TypeKernel.Proofs.Comparisons

namespace TypeKernel

set_option autoImplicit false

open Machine

/-! ## The forms of elements -/

/-- A value with a form; if the value is stuck, `S` holds of its type. -/
def HasForm (S : Value → Prop) (v : Value) : Prop :=
  ∃ u, Forces v u ∧ ∀ T e, u = .neutral T e → S T

namespace HasForm

variable {S : Value → Prop} {v w u : Value}

theorem canonical (h : Forces v u) (hu : u.shape ≠ .neutral) : HasForm S v := by
  refine ⟨u, h, ?_⟩
  rintro T e rfl
  exact (hu rfl).elim

theorem stuck (h : Stuck S v w) : HasForm S v := by
  obtain ⟨T, e, _, _, hv, _, hT, _⟩ := h
  refine ⟨_, hv, ?_⟩
  rintro _ _ ⟨⟩
  exact hT

theorem type (h : HasForm S v) {T : Value} {e : Neutral} (hv : Forces v (.neutral T e)) : S T := by
  obtain ⟨u, hu, hS⟩ := h
  exact hS T e (hu.unique hv)

end HasForm

/-- A type has a form; if it is stuck, it is stuck at the universe. -/
theorem Denotes.hasForm_type {U : Option Rel} {A : Value} {S : Value → Prop} {R : Rel}
    (h : Denotes U A S R) : HasForm (Forces · .univ) A := by
  cases h with
  | stuck hA hT _ =>
      refine ⟨_, hA, ?_⟩
      rintro _ _ ⟨⟩
      exact hT
  | const hA | list hA | vec hA | either hA | equal hA | quant hA => exact .canonical hA nofun

/-- An element has a form; if it is stuck, its own type is in the class of its type. -/
theorem Denotes.hasForm {A : Value} {S : Value → Prop} {R : Rel}
    (h : Denotes (some SmallEq) A S R) {v w : Value} (hv : R v w) : HasForm S v := by
  cases h with
  | const _ hc =>
      cases hc with
      | univ hU =>
          cases hU
          obtain ⟨_, _, hd, _⟩ := hv
          exact hd.hasForm_type
      | nat =>
          cases hv with
          | zero hv | add1 hv => exact .canonical hv nofun
          | stuck h => exact .stuck h
      | atom =>
          cases hv with
          | quote hv => exact .canonical hv nofun
          | stuck h => exact .stuck h
      | trivial =>
          rcases hv.1 with hv | hv
          · exact .canonical hv nofun
          · exact .stuck hv
      | absurd => exact .stuck hv.1
  | stuck => exact .stuck hv
  | list =>
      cases hv with
      | nil hv | cons hv => exact .canonical hv nofun
      | stuck h => exact .stuck h
  | vec =>
      cases hv with
      | nil _ _ hv | cons _ _ hv => exact .canonical hv nofun
      | stuck h => exact .stuck h
  | either =>
      cases hv with
      | left hv | right hv => exact .canonical hv nofun
      | stuck h => exact .stuck h
  | equal =>
      cases hv with
      | same hv => exact .canonical hv nofun
      | stuck h => exact .stuck h
  | @quant A q =>
      cases q with
      | pi =>
          rcases hv.1 with ⟨x, c, hv⟩ | ⟨T, e, hv, hT⟩
          · exact .canonical hv nofun
          · exact ⟨_, hv, by rintro _ _ ⟨⟩; exact hT⟩
      | sigma =>
          rcases hv.1 with ⟨a, d, hv⟩ | ⟨T, e, hv, hT⟩
          · exact .canonical hv nofun
          · exact ⟨_, hv, by rintro _ _ ⟨⟩; exact hT⟩

theorem ElEq.hasForm {A v w : Value} (h : ElEq A v w) : HasForm (TyEq .large A) v := by
  obtain ⟨S, R, hA, hv⟩ := h
  rw [← Denotes.class_eq (ℓ := .large) hA]
  exact hA.hasForm hv

/-! ## Elements and types together -/

/-- The reading of a value at a type or, without one, as a type. -/
def Reading.at : Option Value → Value → Reading
  | some A, v => .value A v
  | none, v => .type v

/-- Equality of values at a type or, without one, as types. -/
def EqAt : Option Value → Rel
  | some A => ElEq A
  | none => TyEq .large

namespace EqAt

variable {o : Option Value} {v w : Value}

theorem agree (h : EqAt o v w) : Agree (Reading.at o v).task (Reading.at o w).task := by
  cases o with
  | some A => exact ElEq.agree h h.type
  | none => exact TyEq.agree h

theorem forces (h : EqAt o v w) : ∃ u, Forces v u := by
  cases o with
  | some A =>
      obtain ⟨u, hu, _⟩ := h.hasForm
      exact ⟨u, hu⟩
  | none =>
      obtain ⟨_, _, hd, _⟩ := h
      obtain ⟨u, hu, _⟩ := hd.hasForm_type
      exact ⟨u, hu⟩

theorem reads (h : EqAt o v w) (X : List Name) :
    ∃ n, Reads .ofHints X (Reading.at o v).task n := by
  obtain ⟨n, _, hn, _⟩ := h.agree .ofHints X
  exact ⟨n, hn⟩

/-- The type of an element reads back. -/
theorem reads_type {A : Value} (h : EqAt o v w) (hA : o = some A) (X : List Name) :
    ∃ n, Reads .ofHints X (.type A) n := by
  subst hA
  obtain ⟨n, _, hn, _⟩ := h.type.agree .ofHints X
  exact ⟨n, hn⟩

end EqAt

/-- An expression that has a type, given as a value in an environment, or is one. -/
def Telescope.HasAt (Θ : Telescope) (ρ : Env) (e : Expr) : Option Value → Prop
  | some A => ∃ 𝒜 : Dependent, 𝒜 ρ = A ∧ Θ.Has 𝒜 e
  | none => Θ.HasType .large e

theorem Delivered.sound {Γ : Context} {core : Expr} {o : Option Value} (h : Delivered Γ core o)
    (hΓ : Γ.Scoped) {Θ : Telescope} (hΘ : Θ.Describes Γ) : Θ.HasAt Γ.env core o := by
  induction h with
  | synth h =>
      obtain ⟨𝒯, hT, found⟩ := h.means hΓ trivial hΘ
      exact ⟨𝒯, hT, found.has⟩
  | isType h => exact h.means hΓ trivial hΘ
  | @check t _ _ _ _ hA h ih =>
      exact ⟨t.value, Expr.value_eq hA, h.means hΓ (hΓ.eval hA) hΘ _ (Expr.value_eq hA) ih.family⟩
  | checkAlike he h ih =>
      obtain ⟨𝒜, rfl, has⟩ := ih
      exact ⟨𝒜, rfl, h.means hΓ ((he.tidy hΓ).2 _ rfl) hΘ _ rfl has.family⟩

/-- What is delivered in an admitted context evaluates to an element of its type, or to a type. The value
of its normal form reads back as the normal form. -/
theorem Delivered.evaluates {Γ : Context} {core : Expr} {o : Option Value} (h : Delivered Γ core o)
    (hΓ : Admitted Γ) : ∃ v, Evals Γ.env core v ∧ EqAt o v v ∧
      ∀ n, Reads .ofHints Γ.names (Reading.at o v).task n →
        ∃ w, Evals Γ.env n w ∧ Reads .asHinted Γ.names (Reading.at o w).task n := by
  obtain ⟨Θ, hΘ⟩ := hΓ.described
  have sound := h.sound hΓ.scoped hΘ
  cases o with
  | some A =>
      obtain ⟨𝒜, rfl, has⟩ := sound
      have hA := hΘ.tyEq has.family hΘ.identity
      refine ⟨_, has.evals hΘ.identity, hΘ.elEq has.member hΘ.identity, fun n hn => ?_⟩
      have meets := Frame.glued.element_gives Style.ofHints_fresh (has.member hΘ.ofContext) hA n hn nofun
      obtain ⟨w, hw, again⟩ := (meets.fits Γ rfl).stable rfl
      exact ⟨w, hw, again _ hA⟩
  | none =>
      refine ⟨_, sound.evals hΘ.identity, hΘ.tyEq sound.family hΘ.identity, fun n hn => ?_⟩
      have meets := Frame.glued.type_gives Style.ofHints_fresh (sound.family hΘ.ofContext) n hn nofun
      exact (meets.fits Γ rfl).stable rfl

/-! ## Runs by need -/

theorem Reading.at_matches {K : Correspondence} (hK : K.Exact) {o o' : Option Value} {v v' : Value}
    (ho : BothOrNone K o o') (hv : Both K v v') : (Reading.at o v).Matches K (Reading.at o' v') := by
  cases ho with
  | none => exact .type hv
  | some hA => exact .value hA hv
  | added ha => exact (hK.bare ha).elim

/-- In an established context, whatever checking delivers can be evaluated, its value can be forced and
read back at its type, and the type can be read back. Each of these returns from some number of steps on, in
every session that follows, whatever has been done there in between. With fewer steps it returns or uses them
up. Reading back may also fail for want of a short enough name, and nothing else ever fails. -/
theorem evaluation_type_safe {Γ : Context} {s s' : Session} {core : Expr} {o : Option Value}
    (hΓ : Established s Γ) (h : Delivers Γ s core o s') : ∃ N, ∀ {s₁ ps},
      History s' (handed Γ o) s₁ ps →
        Gives Error.Never N (fun k => Γ.env.eval k core)
          (fun v s₂ => ∀ {s₃ ps'}, History s₂ (.value v :: ps) s₃ ps' →
            Safe Error.Never N (fun k => v.force k) s₃ ∧
              Safe Error.IsNumeral N (fun k => readings k Γ (.at o v)) s₃) s₁ ∧
        ∀ {A}, o = some A → Safe Error.IsNumeral N (fun k => readBackType k Γ A) s₁ := by
  obtain ⟨K, Γ', o', rem, mΓ, mo, held, adm, hd⟩ := h.held hΓ
  obtain ⟨v', hv', good, _⟩ := hd.evaluates adm
  obtain ⟨u', hu'⟩ := good.forces
  obtain ⟨n, hn⟩ := good.reads Γ'.names
  obtain ⟨N₁, evaluates⟩ := Attains.run hv'
  obtain ⟨N₂, forces⟩ := Attains.run hu'
  obtain ⟨N₃, reads⟩ := Attains.readings hn
  obtain ⟨N₄, readsType⟩ : ∃ N, ∀ {K' A s₁ M}, K.Le K' → Remembers K' s₁ → o = some A → N ≤ M →
      Safe Error.IsNumeral M (fun k => readBackType k Γ A) s₁ := by
    cases mo with
    | none | added => exact ⟨0, nofun⟩
    | @some _ A' mA =>
        obtain ⟨t, ht⟩ := good.reads_type rfl Γ'.names
        obtain ⟨N, reads⟩ := Attains.readings_type ht
        refine ⟨N, fun {K' _ _ _} le rem' hA hN => ?_⟩
        cases hA
        exact (reads rem'.exact mΓ.names (.type (mA.mono le))).safe hN rem'
  refine ⟨max (max N₁ N₂) (max N₃ N₄), fun {s₁ ps} h₁ => ?_⟩
  obtain ⟨K₁, le₁, rem₁, held₁⟩ := h₁.held rem held
  refine ⟨?_, fun hA => readsType le₁ rem₁ hA (by omega)⟩
  have eval := evaluates (F := Error.Never) ((mΓ.mono le₁).eval rem₁.exact core)
  refine (eval.weaken (by omega) fun _ he => he).gives rem₁ fun K₂ v s₂ le₂ rem₂ mv s₃ ps' h₃ => ?_
  have held₂ : Held K₂ (.value v :: ps) := .cons (rem₂.eq_erase mv ▸ mv) (held₁.mono le₂)
  obtain ⟨K₃, le₃, rem₃, _⟩ := h₃.held rem₂ held₂
  replace mv := mv.mono le₃
  have mo₃ := mo.mono (le₁.trans (le₂.trans le₃))
  exact ⟨(forces (.force mv)).safe (by omega) rem₃,
    (reads rem₃.exact mΓ.names (Reading.at_matches rem₃.exact mo₃ mv)).safe (by omega) rem₃⟩

/-- `(replace p (λ (k) (Vec Nat k)) vecnil)`. -/
def carriedNil : Expr :=
  .transport .replace (.var "p") (.lam "k" (.vec .nat (.var "k"))) .vecNil

/-- With a number `n` and a proof `p` that it is zero, the empty vector carried along `p` has a value, which
can be forced and read back at the type that was found. -/
theorem carriedNil_safe : ∃ Γ s₁ s₂ T N, Established s₁ Γ ∧ Delivers Γ s₁ carriedNil (some T) s₂ ∧
    Gives Error.Never N (fun k => Γ.env.eval k carriedNil) (fun v s₃ =>
      Safe Error.Never N (fun k => v.force k) s₃ ∧
        Safe Error.IsNumeral N (fun k => readBack k Γ T v) s₃) s₂ ∧
    Safe Error.IsNumeral N (fun k => readBackType k Γ T) s₂ := by
  have established := ((Established.empty .empty).add (n := 9) (e := .free "n" .nat) (by decide)
    rfl).add (n := 9) (e := .free "p" (.equal .nat .zero (.var "n"))) (by decide) rfl
  obtain ⟨N, safe⟩ := evaluation_type_safe established (.synth (n := 12) (e := carriedNil) rfl)
  obtain ⟨evaluates, reads⟩ := safe .start
  refine ⟨_, _, _, _, N, established, .synth (n := 12) (e := carriedNil) rfl, fun k => ?_, reads rfl⟩
  rcases evaluates k with ⟨v, s₃, hv, after⟩ | stops
  · exact .inl ⟨v, s₃, hv, after .start⟩
  · exact .inr stops

/-- A delivered expression and its value in a session, with their counterparts by name. -/
structure Standing (Γ : Context) (core : Expr) (o : Option Value) (v : Value) (s : Session)
    (ps : List Piece) (K : Correspondence) (Γ' : Context) (o' : Option Value) (v' : Value) :
    Prop where
  remembers : Remembers K s
  context : Γ.Matches K Γ'
  type : BothOrNone K o o'
  value : Both K v v'
  held : Held K ps
  admitted : Admitted Γ'
  delivered : Delivered Γ' core o'
  evals : Evals Γ'.env core v'

section Standing

variable {Γ Γ' : Context} {core : Expr} {o o' : Option Value} {v v' : Value} {s s' s₁ s₂ : Session}
  {ps ps' : List Piece} {K : Correspondence}

/-- The value of what was delivered, evaluated in a later session. -/
theorem Delivers.standing (hΓ : Established s Γ) (h : Delivers Γ s core o s')
    (h₁ : History s' (handed Γ o) s₁ ps) {k : Nat}
    (hv : (Γ.env.eval k core : ByNeed Value) s₁ = .ok v s₂) :
    ∃ K Γ' o' v', Standing Γ core o v s₂ (.value v :: ps) K Γ' o' v' := by
  obtain ⟨K, Γ', o', rem, mΓ, mo, held, adm, hd⟩ := h.held hΓ
  obtain ⟨K₁, le₁, rem₁, held₁⟩ := h₁.held rem held
  replace mΓ := mΓ.mono le₁
  obtain ⟨K₂, le₂, rem₂, v', mv, hv'⟩ := Yields.eval rem₁.exact mΓ core _ _ _ rem₁ hv
  exact ⟨K₂, Γ', o', v', rem₂, mΓ.mono le₂, mo.mono (le₁.trans le₂), mv,
    .cons (rem₂.eq_erase mv ▸ mv) (held₁.mono le₂), adm, hd, hv'⟩

namespace Standing

variable (h : Standing Γ core o v s ps K Γ' o' v')

include h

theorem same {K' : Correspondence} (le : K.Le K') (rem : Remembers K' s') :
    Standing Γ core o v s' ps K' Γ' o' v' :=
  ⟨rem, h.context.mono le, h.type.mono le, h.value.mono le, h.held.mono le, h.admitted,
    h.delivered, h.evals⟩

theorem after (h' : History s ps s' ps') :
    ∃ K', K.Le K' ∧ Standing Γ core o v s' ps' K' Γ' o' v' := by
  obtain ⟨K', le, rem', held'⟩ := h'.held h.remembers h.held
  exact ⟨K', le, { h.same le rem' with held := held' }⟩

theorem grow {K' : Correspondence} (le : K.Le K') (rem : Remembers K' s') {w w' : Value}
    (hw : Both K' w w') : Standing Γ core o v s' (.value w :: ps) K' Γ' o' v' :=
  { h.same le rem with held := .cons (rem.eq_erase hw ▸ hw) (h.held.mono le) }

end Standing

end Standing

/-! ## Comparing types by need -/

/-- As an element of the universe, a type is read like a type. -/
theorem readings_univ (n : Nat) (Γ : Context) (T : Value) :
    (readings (n + 2) Γ (.value .univ T) : ByName Expr) = readings (n + 1) Γ (.type T) :=
  rfl

/-- A type that reads back by need reads back by name, without failure from some number of steps on. -/
theorem Yields.settles {K : Correspondence} {Γ Γ' : Context} {T T' : Value} {n : Nat}
    (hK : K.Exact) (hΓ : Γ.Matches K Γ') (hT : Both K T T') :
    Yields K (TypeKernel.readBackType n Γ T) fun _ e => Reads .ofHints Γ'.names (.type T') e ∧
      ∃ N, ∀ i, N ≤ i → (TypeKernel.readings i Γ' (.value .univ T') : ByName Expr) = .ok e where
  ok {s e s'} rem he := by
    obtain ⟨K', _, le, rem', rfl, N, hN⟩ := (byNeed_readings n hK hΓ.names (.type hT) s rem).ok he
    refine ⟨K', le, rem', Reads.of_readings (hN N (Nat.le_refl N)), N + 2, fun i hi => ?_⟩
    obtain ⟨j, rfl⟩ : ∃ j, i = j + 2 := ⟨i - 2, by omega⟩
    rw [readings_univ]
    exact hN (j + 1) (by omega)
  stops rem he := (readBackType hK hΓ hT).stops rem he

/-- Types whose normal forms are known to be the same are found to be the same. -/
theorem Attains.sameType {F : Error → Prop} {N M : Nat} {K : Correspondence} {Γ : Context} {A B : Value}
    {n n' : Expr} (same : n.alphaEquiv n' = some true)
    (hA : Attains F N K (fun i => TypeKernel.readings i Γ (.value .univ A)) fun _ e => e = n)
    (hB : ∀ K', K.Le K' → K'.Exact →
      Attains F M K' (fun i => TypeKernel.readings i Γ (.value .univ B)) fun _ e => e = n') :
    Attains F (max N M) K (fun i => sameType i Γ A B) fun _ b => b = true := by
  refine (hA.weaken (le_max_left N M) fun _ h => h).bind fun K₁ _ le₁ hK₁ hn => ?_
  refine ((hB K₁ le₁ hK₁).weaken (le_max_right N M) fun _ h => h).bind fun K₂ _ _ _ hn' => ?_
  subst hn hn'
  rw [same]
  exact .pure rfl

/-- What has been read back by name is read back by need without failure. -/
theorem Attains.readings_of_ok {F : Error → Prop} {N : Nat} {K : Correspondence} {Γ Γ' : Context}
    {r r' : Reading} {n : Expr}
    (h : ∀ i, N ≤ i → (TypeKernel.readings i Γ' r' : ByName Expr) = .ok n) (hK : K.Exact)
    (hΓ : Γ.names = Γ'.names) (hr : r.Matches K r') :
    Attains F N K (fun i => TypeKernel.readings i Γ r) fun _ e => e = n :=
  of_rel (fun i => byNeed_readings i hK hΓ hr) fun i hi => .inl (h i hi)

/-- By name, the type of a stuck value is the type that was found, and the two read back alike. -/
theorem Delivered.stuck_type {Γ : Context} {core : Expr} {A B v : Value} {e : Neutral}
    (h : Delivered Γ core (some A)) (hΓ : Admitted Γ) (hv : Evals Γ.env core v)
    (hw : Forces v (.neutral B e)) : TyEq .large A B ∧
      ∀ {n n'}, Reads .ofHints Γ.names (.type A) n → Reads .ofHints Γ.names (.type B) n' →
        n.alphaEquiv n' = some true := by
  obtain ⟨w, hw', good, _⟩ := h.evaluates hΓ
  cases hw'.symm.trans hv
  have hAB : TyEq .large A B := good.hasForm.type hw
  have wA := (h.tidy hΓ.scoped).2 A rfl
  have wB : B.Within Γ.BindsFree := by
    cases (hΓ.scoped.eval hv).force hw with
    | neutral wB _ => exact wB
  exact ⟨hAB, fun hn hn' => hAB.agree.alphaEquiv (.type wA) (.type wB) hn hn'⟩

/-- In an established context, let the value of what checking delivers be stuck. The type that the stuck value
carries and the type that checking found are never told apart. If both read back, then comparing them says
from some number of steps on that they are the same type. -/
theorem stuck_type_agrees {Γ : Context} {s s' : Session} {core : Expr} {T : Value}
    (hΓ : Established s Γ) (h : Delivers Γ s core (some T) s') {s₁ s₂ s₃ s₄ : Session}
    {ps₁ ps₃ : List Piece} (h₁ : History s' (handed Γ (some T)) s₁ ps₁) {k : Nat} {v : Value}
    (hv : (Γ.env.eval k core : ByNeed Value) s₁ = .ok v s₂)
    (h₃ : History s₂ (.value v :: ps₁) s₃ ps₃) {j : Nat} {T' : Value} {e : Neutral}
    (hforce : (v.force j : ByNeed Value) s₃ = .ok (.neutral T' e) s₄) {s₅ : Session}
    {ps₅ : List Piece} (h₅ : History s₄ (.value (.neutral T' e) :: ps₃) s₅ ps₅) :
    (∃ N, Gives Error.IsNumeral N (fun i => sameType i Γ T T') (fun same _ => same = true) s₅) ∧
      ∀ {i₁ n₁ s₆ i₂ n₂ s₇}, (readBackType i₁ Γ T : ByNeed Expr) s₅ = .ok n₁ s₆ →
        (readBackType i₂ Γ T' : ByNeed Expr) s₆ = .ok n₂ s₇ →
          ∃ N, Gives Error.Never N (fun i => sameType i Γ T T') (fun same _ => same = true) s₇ := by
  obtain ⟨K₂, Γ', o', v', st₂⟩ := h.standing hΓ h₁ hv
  obtain ⟨K₃, _, st₃⟩ := st₂.after h₃
  obtain ⟨K₄, le₄, rem₄, w', mw, hw⟩ := Yields.force st₃.value _ _ _ st₃.remembers hforce
  obtain ⟨K₅, le₅, st₅⟩ := (st₃.grow le₄ rem₄ mw).after h₅
  have hK₅ := st₅.remembers.exact
  have mΓ := st₅.context
  have univ : ∀ K : Correspondence, Both K .univ .univ := fun _ => .const .univ
  cases mw with | @neutral _ B _ e' mB _ => ?_
  replace mB := mB.mono le₅
  cases st₅.type with | @some _ A mA => ?_
  obtain ⟨hAB, same⟩ := st₅.delivered.stuck_type st₅.admitted st₅.evals hw
  constructor
  · obtain ⟨n, n', hn, hn', _⟩ := hAB.agree .ofHints Γ'.names
    obtain ⟨N₁, readsA⟩ := Attains.readings_value (.value (forces_self rfl) (.univ hn))
    obtain ⟨N₂, readsB⟩ := Attains.readings_value (.value (forces_self rfl) (.univ hn'))
    have compares := (readsA hK₅ mΓ.names (.value (univ _) mA)).sameType (same hn hn')
      fun K' le hK' => readsB hK' mΓ.names (.value (univ _) (mB.mono le))
    exact ⟨_, compares.gives st₅.remembers fun _ _ _ _ _ h => h⟩
  · intro i₁ n₁ s₆ i₂ n₂ s₇ hn₁ hn₂
    obtain ⟨K₆, le₆, rem₆, hn, N₁, readsA⟩ := Yields.settles hK₅ mΓ mA _ _ _ st₅.remembers hn₁
    replace mA := mA.mono le₆
    replace mB := mB.mono le₆
    obtain ⟨K₇, le₇, rem₇, hn', N₂, readsB⟩ :=
      Yields.settles rem₆.exact (mΓ.mono le₆) mB _ _ _ rem₆ hn₂
    have compares := Attains.sameType (F := Error.Never) (same hn hn')
      (.readings_of_ok readsA rem₇.exact mΓ.names (.value (univ _) (mA.mono le₇)))
      fun K' le hK' => .readings_of_ok readsB hK' mΓ.names (.value (univ _) ((mB.mono le₇).mono le))
    exact ⟨_, compares.gives rem₇ fun _ _ _ _ _ h => h⟩

/-- The value of the carried vector is stuck at the type that was found: both types read back, and comparing
them says that they are the same. -/
theorem carriedNil_stuck_type : ∃ Γ s₁ s₂ s₃ s₄ s₅ s₆ T v T' e N, Established s₁ Γ ∧
    Delivers Γ s₁ carriedNil (some T) s₂ ∧
    (Γ.env.eval 9 carriedNil : ByNeed Value) s₂ = .ok v s₃ ∧
    (v.force 9 : ByNeed Value) s₃ = .ok (.neutral T' e) s₄ ∧
    (readBackType 9 Γ T : ByNeed Expr) s₄ = .ok (.vec .nat (.var "n")) s₅ ∧
    (readBackType 9 Γ T' : ByNeed Expr) s₅ = .ok (.vec .nat (.var "n")) s₆ ∧
    Gives Error.Never N (fun i => sameType i Γ T T') (fun same _ => same = true) s₆ := by
  have established := ((Established.empty .empty).add (n := 9) (e := .free "n" .nat) (by decide)
    rfl).add (n := 9) (e := .free "p" (.equal .nat .zero (.var "n"))) (by decide) rfl
  obtain ⟨_, agrees⟩ := stuck_type_agrees established (.synth (n := 12) (e := carriedNil) rfl) .start
    (k := 9) rfl .start (j := 9) rfl .start
  obtain ⟨N, same⟩ := @agrees 9 _ _ 9 _ _ rfl rfl
  exact ⟨_, _, _, _, _, _, _, _, _, _, _, N, established, .synth (n := 12) (e := carriedNil) rfl, rfl,
    rfl, rfl, rfl, same⟩

/-- By name, the value of a normal form reads back, and as this normal form. -/
theorem Delivered.idempotent {Γ : Context} {core once : Expr} {o : Option Value} {v : Value}
    (h : Delivered Γ core o) (hΓ : Admitted Γ) (hv : Evals Γ.env core v)
    (hn : Reads .ofHints Γ.names (Reading.at o v).task once) :
    ∃ w, Evals Γ.env once w ∧
      ∃ N, ∀ i, N ≤ i → (TypeKernel.readings i Γ (.at o w) : ByName Expr) = .ok once := by
  obtain ⟨_, hv', good, again⟩ := h.evaluates hΓ
  cases hv'.symm.trans hv
  obtain ⟨w, hw, hn'⟩ := again once hn
  have within : (Reading.at o v).task.Within Γ.BindsFree := by
    cases o with
    | some A => exact .value ((h.tidy hΓ.scoped).2 A rfl) (hΓ.scoped.eval hv)
    | none => exact .type (hΓ.scoped.eval hv)
  -- The binders of the normal form are apart from the names in use, so they are kept.
  have binders := (hn.tidy Style.ofHints_fresh rfl within).binders
  have tends : Tends False (fun i => TypeKernel.readings i Γ (.at o w)) once := by
    cases o <;> exact hn'.asHinted_tends binders rfl
  exact ⟨w, hw, tends.settles⟩

/-- In an established context, let what checking delivers have a normal form at its type, or as a type if it is
one. The normal form can be evaluated and read back in the same way, in every session that follows. From some
number of steps on this returns, with fewer steps it returns or uses them up, and it never fails. What it
returns is the normal form itself, so the two are the same up to the names of bound variables. -/
theorem normalization_idempotent {Γ : Context} {s s' : Session} {core : Expr} {o : Option Value}
    (hΓ : Established s Γ) (h : Delivers Γ s core o s') {s₁ s₂ s₃ s₄ : Session}
    {ps₁ ps₃ : List Piece} (h₁ : History s' (handed Γ o) s₁ ps₁) {k : Nat} {v : Value}
    (hv : (Γ.env.eval k core : ByNeed Value) s₁ = .ok v s₂)
    (h₃ : History s₂ (.value v :: ps₁) s₃ ps₃) {j : Nat} {once : Expr}
    (honce : (readings j Γ (.at o v) : ByNeed Expr) s₃ = .ok once s₄) : ∃ N, ∀ {s₅ ps₅},
      History s₄ ps₃ s₅ ps₅ → Gives Error.Never N (fun i => Γ.env.eval i once)
        (fun w s₆ => ∀ {s₇ ps₇}, History s₆ (.value w :: ps₅) s₇ ps₇ →
          Gives Error.Never N (fun i => readings i Γ (.at o w))
            (fun twice _ => twice = once ∧ once.alphaEquiv twice = some true) s₇) s₅ := by
  obtain ⟨K₂, Γ', o', v', st₂⟩ := h.standing hΓ h₁ hv
  obtain ⟨K₃, _, st₃⟩ := st₂.after h₃
  have hK₃ := st₃.remembers.exact
  obtain ⟨K₄, le₄, rem₄, hn⟩ := Yields.readings hK₃ st₃.context.names
    (Reading.at_matches hK₃ st₃.type st₃.value) _ _ _ st₃.remembers honce
  have st₄ := st₃.same le₄ rem₄
  obtain ⟨w', hw', N₂, reads⟩ := st₄.delivered.idempotent st₄.admitted st₄.evals hn
  have same : once.alphaEquiv once = some true := Expr.alphaEquiv_of_nameless_eq hn.known rfl
  obtain ⟨N₁, evaluates⟩ := Attains.run hw'
  refine ⟨max N₁ N₂, fun {s₅ ps₅} h₅ => ?_⟩
  obtain ⟨K₅, _, st₅⟩ := st₄.after h₅
  have hK₅ := st₅.remembers.exact
  have eval := (evaluates (F := Error.Never) (st₅.context.eval hK₅ once)).weaken
    (le_max_left N₁ N₂) fun _ he => he
  refine eval.gives st₅.remembers fun K₆ w s₆ le₆ rem₆ mw s₇ ps₇ h₇ => ?_
  obtain ⟨K₇, le₇, st₇⟩ := (st₅.grow le₆ rem₆ mw).after h₇
  have hK₇ := st₇.remembers.exact
  have read := (Attains.readings_of_ok (F := Error.Never) reads hK₇ st₇.context.names
    (Reading.at_matches hK₇ st₇.type (mw.mono le₇))).weaken (le_max_right N₁ N₂) fun _ he => he
  refine read.gives st₇.remembers fun _ e _ _ _ he => ?_
  rw [he]
  exact ⟨rfl, same⟩

/-- A function `f` in the context reads back as `(λ (n) (f n))`, and so does the value of this. -/
theorem function_normal_form_stable : ∃ Γ s₁ s₂ s₃ s₄ T v N, Established s₁ Γ ∧
    Delivers Γ s₁ (.var "f") (some T) s₂ ∧ (Γ.env.eval 9 (.var "f") : ByNeed Value) s₂ = .ok v s₃ ∧
    (readBack 9 Γ T v : ByNeed Expr) s₃ = .ok (.lam "n" (.app (.var "f") (.var "n"))) s₄ ∧
    Gives Error.Never N (fun i => Γ.env.eval i (.lam "n" (.app (.var "f") (.var "n")))) (fun w s₅ =>
      Gives Error.Never N (fun i => readBack i Γ T w)
        (fun twice _ => twice = .lam "n" (.app (.var "f") (.var "n")) ∧
          Expr.alphaEquiv (.lam "n" (.app (.var "f") (.var "n"))) twice = some true) s₅) s₄ := by
  have established := (Established.empty .empty).add (n := 9) (e := .free "f" (.pi "n" .nat .nat))
    (by decide) rfl
  obtain ⟨N, again⟩ := normalization_idempotent established (.synth (n := 9) (e := .var "f") rfl)
    .start (k := 9) rfl .start (j := 9) rfl
  refine ⟨_, _, _, _, _, _, _, N, established, .synth (n := 9) (e := .var "f") rfl, rfl, rfl, fun k => ?_⟩
  rcases again .start k with ⟨w, s₅, hw, reads⟩ | stops
  · exact .inl ⟨w, s₅, hw, reads .start⟩
  · exact .inr stops

end TypeKernel
