/-
# TypeKernel.Proofs.Reacceptance — normal forms are checked again

The normal form of an accepted expression, annotated with the normal form of its type, can be given to the
kernel once more, in the same context. It is accepted if and only if it is checkable (`Expr.Checkable`), and
then it is its own elaborated form and has the type that the expression had.

Normal forms follow the typing rules with the equality of values (`Discipline.normal`). In a scoped context
equal values read back alike, and an annotation that is the normal form of its own value is what the kernel
would write, since its binders are apart from the names in use. So the rules hold as the kernel has them
(`Discipline.printed`), and `Judged.decided` says what checking does.

A normal form that is not checkable is never accepted. Composing a proof by `same` with a proof that is stuck
gives one: the annotation that showed the type of the proof by `same` is gone (`bare_same_not_accepted`).
-/
import TypeKernel.Proofs.Coherence
import TypeKernel.Proofs.Completeness
import TypeKernel.Proofs.ElaboratedForm
import TypeKernel.Proofs.Normalization
import TypeKernel.Proofs.RoomForNames

namespace TypeKernel

set_option autoImplicit false

open Machine

/-! ## The rules that normal forms follow -/

/-- Values are compared by the equality of values, and an annotation is the normal form of its own value. The
type of a congruence is what the annotation shows, if this is simple. -/
def Discipline.normal : Discipline where
  sameType _ A T := TyEq .large A T
  same _ T v w := ElEq T v w
  annotates Γ T t := Reads .asHinted Γ.names (.type T) t
  simple Γ x d R a D := ∃ t, Reads .asHinted Γ.names (.type (.pi x d R)) t ∧
    (∀ n, t.simpleRange? = some n → Evals Γ.env n D) ∧ (t.simpleRange? = none → Applies R a D)
  atom _ := True
  lax := True

theorem Discipline.normal_complete {p : Prop} (hp : p) : normal.Complete p where
  lax := trivial
  sameType h := h
  same h := h
  annotates reads := reads hp
  atom _ := trivial
  simple {Γ x d a D R t} reads hD refl _ shows := by
    cases range : t.simpleRange? with
    | none => exact ⟨D, ⟨t, reads hp, by simp [range], fun _ => hD⟩, refl⟩
    | some n =>
        obtain ⟨D', hD', equal⟩ := shows n range
        refine ⟨D', ⟨t, reads hp, fun n' hn' => ?_, by simp [range]⟩, equal⟩
        cases range.symm.trans hn'
        exact hD'

/-- Hints that are apart from the names in use are kept. -/
theorem Reads.ofHints_of_tidy {Γ : Context} {T : Value} {t : Expr} {N : Name → Prop}
    (h : Reads .asHinted Γ.names (.type T) t) (ht : t.Tidy N Γ.names) :
    Reads .ofHints Γ.names (.type T) t := by
  have tends : Tends False (fun n => readings n Γ (.type T)) t := h.asHinted_tends ht.binders rfl
  obtain ⟨N, hN⟩ := tends.settles
  exact Reads.of_readings (hN N (Nat.le_refl N))

theorem Discipline.normal_local : normal.Local printed where
  lax := .rfl
  atom _ := trivial
  sameType {Γ A T} _ mA mT h := by
    obtain ⟨n, n', hn, hn', _⟩ := TyEq.agree h .ofHints Γ.names
    exact ⟨⟨n, n', hn, hn', (TyEq.agree h).alphaEquiv (.type mA) (.type mT) hn hn'⟩, TyEq.const_inv h⟩
  same {Γ T v w} _ mT mv mw h := by
    have agree := ElEq.agree h h.type
    obtain ⟨n, n', hn, hn', _⟩ := agree .ofHints Γ.names
    exact ⟨n, n', hn, hn', agree.alphaEquiv (.value mT mv) (.value mT mw) hn hn'⟩
  annotated _ te h := by
    cases h with
    | kept _ reads => exact ⟨te, .kept (P := printed) trivial (reads.ofHints_of_tidy te.1)⟩
    | added strict => exact (strict trivial).elim
  simple hΓ mR ma te annotated h := by
    obtain ⟨t, reads, shown, hidden⟩ := h
    cases annotated with
    | added strict => exact (strict trivial).elim
    | kept _ reads' =>
        cases reads.deterministic reads'
        refine ⟨?_, t, reads.ofHints_of_tidy te.1, shown⟩
        cases range : t.simpleRange? with
        | none => exact Closure.Within.apply mR ma (hidden range)
        | some n => exact hΓ.eval (shown n range)

/-! ## By name -/

/-- Let an expression have a type. Its normal form with that of the type is decided by the kernel's rules, and
the value of the normal form of the type reads back as it. -/
theorem Judged.reaccepted {Γ : Context} {e core t n : Expr} {T v : Value}
    (h : Judged .kernel Γ .empty e (.synth T) core) (hΓ : Admitted Γ) (hv : Evals Γ.env core v)
    (ht : Reads .ofHints Γ.names (.type T) t) (hn : Reads .ofHints Γ.names (.value T v) n) :
    ∃ S, Reads .asHinted Γ.names (.type S) t ∧ TendsIff (Expr.the t n).Checkable
      (fun i => synthesize i Γ (.the t n) .empty) (.the t n, S) := by
  -- The normal forms are elaborated.
  obtain ⟨ecore, pT⟩ := h.elaborated hΓ.prepared trivial
  have pv := hΓ.prepared.eval ecore hv
  have elaborated : (Expr.the t n).Elaborated Γ.BindsFree :=
    ⟨Reads.elaborated rfl ht pT, Reads.elaborated rfl hn ⟨pT, pv⟩⟩
  -- They are accepted with the equality of values.
  obtain ⟨Θ, hΘ⟩ := hΓ.described
  obtain ⟨𝒯, rfl, has⟩ := (Delivered.synth h).sound hΓ.scoped hΘ
  cases Expr.value_eq hv
  have hT := hΘ.tyEq has.family hΘ.identity
  have type := (Frame.glued.type_gives Style.ofHints_fresh (has.family hΘ.ofContext) t ht nofun).met rfl
  have element :=
    (Frame.glued.element_gives Style.ofHints_fresh (has.member hΘ.ofContext) hT n hn nofun).met rfl
  obtain ⟨S, hS, equal, reads⟩ := type.type rfl
  have complete := Discipline.normal_complete (p := (Replacement.ofContext Γ).hidden = []) rfl
  have judged : Judged .normal Γ .empty (.the t n) (.synth S) (.the t n) :=
    .the (type.fits.accepted complete .empty Renaming.plain_empty) hS
      (element.fits.accepted complete S equal.symm .empty Renaming.plain_empty)
  exact ⟨S, reads, ((judged.stays Discipline.normal_local hΓ.scoped trivial).judged.decided elaborated).synth⟩

/-- Let an expression have a type and a normal form, from some number of steps on. The normal form is decided,
and the type it has is the same. -/
theorem Judged.rep_decided {Γ : Context} {e core form : Expr} {T : Value} {N : Nat}
    (h : Judged .kernel Γ .empty e (.synth T) core) (hΓ : Admitted Γ)
    (finds : ∀ i, N ≤ i → (synthesize i Γ e .empty : ByName (Expr × Value)) = .ok (core, T))
    (reps : ∀ i, N ≤ i → (rep i Γ e : ByName Expr) = .ok form) : ∃ t n S, form = .the t n ∧
      TendsIff form.Checkable (fun i => synthesize i Γ form .empty) (form, S) ∧
      ∃ M, ∀ i, M ≤ i → (sameType i Γ T S : ByName Bool) = .ok true := by
  have parts : ∀ i, N ≤ i → ∃ v t n, form = .the t n ∧ Evals Γ.env core v ∧
      Returns (readBackType i Γ T : ByName Expr) t ∧ Returns (readBack i Γ T v : ByName Expr) n := by
    intro i hi
    obtain ⟨_, _, v, t, n, hform, found, hv, ht, hn⟩ := rep_inv (reps i hi)
    cases (finds i hi).symm.trans found
    exact ⟨v, t, n, hform, answer_of_run hv, ht, hn⟩
  obtain ⟨v, t, n, rfl, hv, ht, hn⟩ := parts N (Nat.le_refl N)
  have ht := Reads.of_readings ht
  obtain ⟨S, reads, decides⟩ := h.reaccepted hΓ hv ht (Reads.of_readings hn)
  -- Both types read back as the annotation.
  have tidy := Reads.tidy_type (h.stays Discipline.kernel_local hΓ.scoped trivial).found ht
  have tends : Tends False (fun i => readings i Γ (.type S)) t := reads.asHinted_tends tidy.binders rfl
  obtain ⟨M, hM⟩ := tends.settles
  refine ⟨t, n, S, rfl, decides, max N M + 2, fun i hi => ?_⟩
  obtain ⟨i, rfl⟩ : ∃ j, i = j + 2 := ⟨i - 2, by omega⟩
  obtain ⟨_, _, _, heq, _, hT, _⟩ := parts (i + 1) (by omega)
  cases heq
  exact sameType_of_readings hT (hM (i + 1) (by omega)) (alphaEquiv_of_readings hT)

/-! ## By need -/

/-- `(cong p (the (Π ((k Nat)) Nat) (λ (k) (add1 k))))`, composed with its inverse. -/
def successorLoop : Expr :=
  let up := .cong (.var "p") (.the (.pi "k" .nat .nat) (.lam "k" (.add1 (.var "k"))))
  .trans up (.proj .symm up)

/-- The loop with the normal form of its type. -/
def annotatedLoop : Expr :=
  .the (.equal .nat (.add1 .zero) (.add1 .zero)) successorLoop

/-- A number `n` and a proof `p` that it is zero. -/
def zeroNumber : Context :=
  (Context.empty.bindFree "n" .nat).bindFree "p" (.equal .nat .zero (.ofVar "n" .nat))

theorem annotatedLoop_room : zeroNumber.HasRoom (annotatedLoop.cost 0) zeroNumber.pieces [annotatedLoop] 12 := by
  have limit : zeroNumber.reserve (annotatedLoop.cost 0) 12 < 10 ^ Text.digitLimit := by decide +kernel
  have number : Matches (.named (Text.Roomy (zeroNumber.reserve (annotatedLoop.cost 0) 12))) (.value (.ofVar "n" .nat))
      (.value (.ofVar "n" .nat)) := .neutral (.const .nat) (.var rfl)
  have proof := Matches.equal (.const .nat) (.const .zero) number
  refine ⟨limit, ?_, List.forall_mem_singleton.2 ?_⟩
  · refine List.forall_mem_cons.2 ⟨?_, List.forall_mem_cons.2 ⟨proof, List.forall_mem_singleton.2 (.const .nat)⟩⟩
    exact .extend ⟨rfl, .inl (Text.roomy_of_plain limit (by decide))⟩
      (.extend ⟨rfl, .inl (Text.roomy_of_plain limit (by decide))⟩ .empty number) (.neutral proof (.var rfl))
  · have k := Text.roomy_of_plain limit (x := "k") (by decide)
    have successor : Expr.Named (Text.Roomy (zeroNumber.reserve (annotatedLoop.cost 0) 12))
        (.the (.pi "k" .nat .nat) (.lam "k" (.add1 (.var "k")))) :=
      .the (.quant .pi ⟨rfl, k⟩ (.const .nat) (.const .nat)) (.lam ⟨rfl, k⟩ (.unary .add1 (.var (.inl ⟨rfl, rfl⟩))))
    refine .the (.equal (.const .nat) ?one ?one) (.trans ?up (.proj .symm ?up))
    case one => exact .unary .add1 (.const .zero)
    case up => exact .cong (.var rfl) successor

/-- A composed proof that starts with a proof by `same` is accepted at no type. -/
theorem Check.not_check_sameTrans {m : Type → Type} [Machine m] [Returning m] {n : Nat} {Γ : Context}
    {r : Renaming} {A : Value} {a b core : Expr} :
    ¬ Returns ((judge n (.trans (.same a) b) : Judgments m).check Γ r A) core := by
  intro h
  obtain ⟨_, -, h⟩ := h.bind
  obtain ⟨_, rule, -⟩ := h.bind
  obtain ⟨_, left, -⟩ := rule.bind
  obtain ⟨_, found, -⟩ := left.bind
  exact Returns.not_reject found

/-- `(trans (the (= Nat 0 0) (same 0)) p)`. -/
def annotatedSame : Expr :=
  .trans (.the (.equal .nat .zero .zero) (.same .zero)) (.var "p")

end TypeKernel
