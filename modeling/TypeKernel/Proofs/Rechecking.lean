/-
# TypeKernel.Proofs.Rechecking — checking again, under other names

Let an expression be accepted in an established context. Checking it again gives the same up to the names of
binders, also if its own binders are renamed, and if the context has one more name, however that is bound. In
both cases other fresh names are chosen: in the elaborated expression, in its annotations, and in the types
that are read back and compared on the way.

There is one thing that can go wrong. A fresh name is the hint with a higher subscript, and a subscript has at
most `digitLimit` digits. With a longer one in use there is no fresh name, so that renaming a binder or
declaring one more name can make checking fail. It does not fail if the names in the context and in the
expression leave room for the names that are chosen (`Context.HasRoom`).
-/
import TypeKernel.Proofs.Coherence
import TypeKernel.Proofs.Hygiene
import TypeKernel.Proofs.LeastSubscript
import TypeKernel.Proofs.Normalization
import TypeKernel.Proofs.RoomForNames
import TypeKernel.Proofs.TrackedByName

namespace TypeKernel

set_option autoImplicit false

open Machine

/-! ## Elaborated expressions are known -/

theorem Expr.Known.annotate {e t : Expr} (he : e.Known) (ht : t.Known) : (e.annotate t).Known := by
  cases e with
  | the _ _ => exact he
  | _ => exact ⟨ht, he⟩

theorem Discipline.Annotated.known {Γ : Context} {T : Value} {e e' : Expr}
    (h : Discipline.kernel.Annotated Γ T e e') (he : e.Known) : e'.Known := by
  cases h with
  | kept => exact he
  | added _ ht => exact he.annotate (Reads.known ht)

/-- What the rules accept is elaborated to an expression without unknown parts. -/
theorem Judged.known {Γ : Context} {r : Renaming} {e core : Expr} {aim : Aim}
    (h : Judged .kernel Γ r e aim core) : core.Known := by
  induction h with
  | natFold _ _ _ _ _ hB iht ihb ihs | recList _ _ _ _ hB iht ihb ihs => exact ⟨iht, hB.known ihb, ihs⟩
  | indAbsurd _ _ _ _ iht ihm => exact ⟨iht.annotate trivial, ihm⟩
  | cong _ _ _ _ _ _ _ _ _ hf iht ihf => exact ⟨iht, hf.known ihf⟩
  | _ => simp_all [Expr.Known]

theorem Resembles.alphaEquiv_of_eq {B V : Pairing} {e e' : Expr} (h : Alike B V e e')
    (hV : ∀ x x', V x x' → x = x') (known : e.Known) : e.alphaEquiv e' = some true := by
  have self : Alike Eq Eq e e := .refl (fun _ => rfl) e fun _ => rfl
  have other : Alike B Eq e e' := h.mono id (fun _ _ hx => hx) hV
  have one : Pairing.OneToOne Eq := by
    rintro x _ y _ rfl rfl
    rfl
  rw [← self.alphaEquiv other one]
  exact Expr.alphaEquiv_of_nameless_eq known rfl

/-! ## Source expressions -/

theorem Expr.SameUpToBinders.symm {e e' : Expr} (h : e.SameUpToBinders e') : e'.SameUpToBinders e := by
  have under : ∀ {V W : Pairing}, (∀ x x', V x x' → W x' x) → ∀ {y y' : Name} (x x' : Name),
      V.under y y' x x' → W.under y' y x' x := by
    rintro V W hV y y' x x' (⟨rfl, rfl⟩ | ⟨hx, hx', hv⟩)
    · exact .inl ⟨rfl, rfl⟩
    · exact .inr ⟨hx', hx, hV x x' hv⟩
  have flip : ∀ {V : Pairing} {e e' : Expr}, Alike (fun _ _ => True) V e e' →
      ∀ {W : Pairing}, (∀ x x', V x x' → W x' x) → Alike (fun _ _ => True) W e' e := by
    intro V e e' h
    induction h with
    | foldAnnotated ha | indAbsurdAnnotated ha | congAnnotated ha => exact ha.elim
    | var hx => exact fun hV => .var (hV _ _ hx)
    | quote a => exact fun _ => .quote a
    | const c => exact fun _ => .const c
    | unary u _ ih => exact fun hV => .unary u (ih hV)
    | binary b _ _ ih₁ ih₂ => exact fun hV => .binary b (ih₁ hV) (ih₂ hV)
    | equal _ _ _ iht ihl ihr => exact fun hV => .equal (iht hV) (ihl hV) (ihr hV)
    | quant q _ _ _ ihd ihr => exact fun hV => .quant q trivial (ihd hV) (ihr (under hV))
    | lam _ _ ih => exact fun hV => .lam trivial (ih (under hV))
    | the _ _ iht ihe => exact fun hV => .the (iht hV) (ihe hV)
    | app _ _ ihf iha => exact fun hV => .app (ihf hV) (iha hV)
    | proj p _ ih => exact fun hV => .proj p (ih hV)
    | fold f _ _ _ iht ihb ihs => exact fun hV => .fold f (iht hV) (ihb hV) (ihs hV)
    | induct i _ _ _ _ iht ihm ihb ihs =>
        exact fun hV => .induct i (iht hV) (ihm hV) (ihb hV) (ihs hV)
    | transport k _ _ _ iht ihm ihb => exact fun hV => .transport k (iht hV) (ihm hV) (ihb hV)
    | indAbsurd _ _ iht ihm => exact fun hV => .indAbsurd (iht hV) (ihm hV)
    | indVec _ _ _ _ _ ihn iht ihm ihb ihs =>
        exact fun hV => .indVec (ihn hV) (iht hV) (ihm hV) (ihb hV) (ihs hV)
    | trans _ _ ihl ihr => exact fun hV => .trans (ihl hV) (ihr hV)
    | cong _ _ iht ihf => exact fun hV => .cong (iht hV) (ihf hV)
    | todo => exact fun _ => .todo
    | malformed m => exact fun _ => .malformed m
  exact flip h fun _ _ => Eq.symm

/-- Of an accepted expression only the names of the context have to correspond. -/
theorem Elaborates.source {n : Nat} {Γ : Context} {e core e' : Expr} (h : Elaborates n Γ e core)
    (same : e.SameUpToBinders e') (bound : ∀ x, e.occursFree x = some true → x ∈ Γ.names) :
    Tracking.byName.Source Γ.own e e' := by
  have narrow : Alike (fun _ _ => True) Γ.own e e' := by
    refine Resembles.narrow same fun x x' hx occurs => ⟨hx, bound x ?_⟩
    obtain ⟨b, hb⟩ := Option.isSome_iff_exists.1 (h.elaborated.occursFree_isSome x)
    cases b with
    | true => exact hb
    | false => exact (occurs hb).elim
  exact narrow.mono id (fun _ _ _ => ⟨False.elim, trivial⟩) fun _ _ hx => hx

/-! ## By name -/

/-- By need there are two contexts, and by name two that meet, of which the first is admitted. -/
structure Variation (Γ Δ : Context) (K : Correspondence) (Γ' Δ' : Context) (o : Option Outer) :
    Prop where
  left : Γ.Matches K Γ'
  right : Δ.Matches K Δ'
  admitted : Admitted Γ'
  meets : ∀ {n b}, Tracking.byName.Meets n b (.varied Γ'.BindsFree o) Γ'.own Γ' Δ'

/-- The elaborated form of a source expression of the context keeps its names. -/
theorem Context.own_renames (Γ : Context) : Tracking.Renames Γ.own Γ.own .empty .empty :=
  fun _ _ h => h

/-- Two types read back alike. If the first reads back in its context, then the second does in its own, and the
two differ at most in the names of binders. Either is read back if there is room for names above those that it
has. -/
def ReadAlike (Γ : Context) (T : Value) (Δ : Context) (S : Value) (s : Session) : Prop :=
  ∃ N, GivesInRoom (Γ.HasRoom 0 [.value T] []) N (fun k => readBackType k Γ T) (fun t s' => ∃ M,
    GivesInRoom (Δ.HasRoom 0 [.value S] []) M (fun k => readBackType k Δ S)
      (fun t' _ => t.alphaEquiv t' = some true) s') s

namespace Variation

variable {Γ Δ Γ' Δ' : Context} {K K' : Correspondence} {o : Option Outer}

theorem mono (v : Variation Γ Δ K Γ' Δ' o) (le : K.Le K') : Variation Γ Δ K' Γ' Δ' o :=
  ⟨v.left.mono le, v.right.mono le, v.admitted, v.meets⟩

theorem alphaEquiv {b : Nat} {core core' : Expr} (known : core.Known)
    (h : Tracking.byName.Written b Γ'.own Γ' Δ' (.varied Γ'.BindsFree o) core core') :
    core.alphaEquiv core' = some true :=
  Resembles.alphaEquiv_of_eq h Context.own_eq known

theorem readAlike (v : Variation Γ Δ K Γ' Δ' o) {s : Session} (rem : Remembers K s) {T T' S S' : Value}
    {t : Expr} (reads : Reads .ofHints Γ'.names (.type T') t) (mT : Both K T T') (mS : Both K S S')
    (alike : Both (.varied Γ'.BindsFree o) T' S') : ReadAlike Γ T Δ S s := by
  have tends : Tends True (fun n => readBackType n Γ' T') t := reads.ofHints_tends rfl
  obtain ⟨N, hN⟩ := tends.ends
  have first := Attains.of_outcomes (N := N) (F := Error.IsNumeral) (Q := fun u => u = t)
    (fun n => byNeed_readBackType (n := n) rem.exact v.left.names mT) fun n hn => by
      rcases tends.outcome n with ok | exhausted | ⟨_, d, failed⟩
      · exact .inl ⟨t, rfl, ok⟩
      · exact (hN n hn exhausted).elim
      · exact .inr ⟨_, ⟨d, rfl⟩, failed⟩
  have clear : ∀ {J : Correspondence} {s' : Session}, Remembers J s' → ∀ {A A' : Value}, Both J A A' →
      ∀ {Θ : Context} n, Θ.HasRoom 0 [.value A] [] n → Clear (readBackType n Θ A) s' := fun rem' _ _ mA _ _ room =>
    room.clear_readings rem' (List.forall_mem_singleton.2 (rem'.eq_erase mA ▸ mA)) (List.Subset.refl _)
  refine ⟨N, Gives.inRoom (first.gives rem fun K₁ u s₁ le₁ rem₁ hu => ?_) (clear rem mT)⟩
  obtain ⟨_, rfl, rfl, M, read⟩ := hu
  -- The first reading returns by name, so the second ends.
  have again := Tracking.byName.readings M (v.meets (b := 0)).toFrame (.type alike)
    (fun _ _ _ _ => trivial) id _ (read M (Nat.le_refl M))
  obtain ⟨L, second⟩ := again.attains fun _ _ numeral => numeral
  refine ⟨L, Gives.inRoom ((second fun n => byNeed_readBackType (n := n) rem₁.exact (v.right.mono le₁).names
    (mS.mono le₁)).gives rem₁ fun K₂ u' s₂ _ _ hu' => ?_) (clear rem₁ (mS.mono le₁))⟩
  obtain ⟨_, written, rfl⟩ := hu'
  exact alphaEquiv (Reads.known reads) written

end Variation

/-! ## Checking again -/

/-- In any session before or after it, what is accepted in the first context is accepted in the second, if there
is room for names above those in the second context and expression. The elaborated expressions are α-equivalent,
and the types that are found read back alike. -/
structure Rechecks (Γ : Context) (e : Expr) (Δ : Context) (e' : Expr) (s : Session) (ps : List Piece) :
    Prop where
  synth : ∀ {n core T s₁}, (synthesize n Γ e .empty : ByNeed (Expr × Value)) s = .ok (core, T) s₁ →
    ∃ N, ∀ {s₂ ps₂}, History s ps s₂ ps₂ ∨ History s₁ (.value T :: ps) s₂ ps₂ →
      GivesInRoom (Δ.HasRoom (e'.cost 0) Δ.pieces [e']) N (fun k => synthesize k Δ e' .empty)
        (fun p s₃ => core.alphaEquiv p.1 = some true ∧
          ∀ {s₄ ps₄}, History s₃ (.value p.2 :: ps₂) s₄ ps₄ → .value T ∈ ps₄ →
            ReadAlike Γ T Δ p.2 s₄) s₂
  isType : ∀ {n core s₁}, (isType n Γ e .empty : ByNeed Expr) s = .ok core s₁ →
    ∃ N, ∀ {s₂ ps₂}, History s ps s₂ ps₂ ∨ History s₁ ps s₂ ps₂ →
      GivesInRoom (Δ.HasRoom (e'.cost 0) Δ.pieces [e']) N (fun k => isType k Δ e' .empty)
        (fun core' _ => core.alphaEquiv core' = some true) s₂
  /-- The expected type is any value that is at hand and of which the context binds the free names. -/
  check : ∀ {n A core s₁}, .value A ∈ ps → A.erase.Within Γ.BindsFree →
    (check n Γ e A .empty : ByNeed Expr) s = .ok core s₁ →
      ∃ N, ∀ {s₂ ps₂}, History s ps s₂ ps₂ ∨ History s₁ ps s₂ ps₂ →
        GivesInRoom (Δ.HasRoom (e'.cost 0) (.value A :: Δ.pieces) [e']) N
          (fun k => TypeKernel.check k Δ e' A .empty) (fun core' _ => core.alphaEquiv core' = some true) s₂

namespace Variation

variable {Γ Δ Γ' Δ' : Context} {K : Correspondence} {o : Option Outer} {s : Session} {ps : List Piece}
  {e e' : Expr} (v : Variation Γ Δ K Γ' Δ' o) (rem : Remembers K s) (held : Held K ps)
  (same : e.SameUpToBinders e') (bound : ∀ x, e.occursFree x = some true → x ∈ Γ.names)

include v bound same in
theorem judges {n : Nat} {core : Expr} (h : Elaborates n Γ e core) (i : Nat) :
    Tracking.byName.Judges i e.cost Γ'.own (judge i e) (fun i => judge i e') := by
  have own : Γ.own = Γ'.own := by
    unfold Context.own
    rw [v.left.names]
  exact Tracking.judge i (own ▸ h.source same bound) False.elim

include v rem held same bound

theorem rechecks_synth {n : Nat} {core : Expr} {T : Value} {s₁ : Session}
    (found : (synthesize n Γ e .empty : ByNeed (Expr × Value)) s = .ok (core, T) s₁) :
    ∃ N, ∀ {s₂ ps₂}, History s ps s₂ ps₂ ∨ History s₁ (.value T :: ps) s₂ ps₂ →
      GivesInRoom (Δ.HasRoom (e'.cost 0) Δ.pieces [e']) N (fun k => synthesize k Δ e' .empty)
        (fun p s₃ => core.alphaEquiv p.1 = some true ∧
          ∀ {s₄ ps₄}, History s₃ (.value p.2 :: ps₂) s₄ ps₄ → .value T ∈ ps₄ →
            ReadAlike Γ T Δ p.2 s₄) s₂ := by
  obtain ⟨K₁, ⟨_, T'⟩, le₁, rem₁, ⟨rfl, mT⟩, M, finds⟩ :=
    (byNeed_synthesize (n := n) rem.exact v.left e .empty s rem).ok found
  cases (rem₁.eq_erase mT : Piece.value T' = .value T.erase)
  obtain ⟨K₁', _, rem₁', T', mT', judged⟩ :=
    Yields.synthesize .empty rem.exact v.left _ _ _ rem found
  cases (rem₁'.eq_erase mT' : Piece.value T' = .value T.erase)
  obtain ⟨_, _, good, _⟩ := (Delivered.synth judged).evaluates v.admitted
  obtain ⟨t, reads⟩ := good.reads_type rfl Γ'.names
  obtain ⟨N, again⟩ := ((v.judges same bound (.synthesized found) M).synth (b := 0) v.meets
    (Context.own_renames Γ') (fun _ _ _ _ => trivial) id _ (finds M (Nat.le_refl M))).attains
      fun _ _ numeral => numeral
  refine ⟨N, fun {s₂ ps₂} later => ?_⟩
  obtain ⟨K₂, le₂, rem₂, held₂⟩ := held.either rem le₁ (.cons mT (held.mono le₁)) rem₁ later
  have v₂ := v.mono le₂
  refine Gives.inRoom ((again fun k => byNeed_synthesize (n := k) rem₂.exact v₂.right e' .empty).gives rem₂
    fun K₃ p s₃ le₃ rem₃ hp => ?_) fun _ room =>
      room.clear_synthesize rem₂ (v₂.right.held rem₂) (List.Subset.refl _) .empty
  obtain ⟨⟨core', S'⟩, ⟨written, alike⟩, same, mS⟩ := hp
  cases (rem₃.eq_erase mS : Piece.value S' = .value p.2.erase)
  refine ⟨same ▸ alphaEquiv judged.known written, fun {s₄ ps₄} h₄ atHand => ?_⟩
  obtain ⟨K₄, le₄, rem₄, held₄⟩ := h₄.held rem₃ (.cons mS (held₂.mono le₃))
  exact (v₂.mono (le₃.trans le₄)).readAlike rem₄ reads (held₄ _ atHand) (mS.mono le₄) alike

theorem rechecks_isType {n : Nat} {core : Expr} {s₁ : Session}
    (accepted : (isType n Γ e .empty : ByNeed Expr) s = .ok core s₁) :
    ∃ N, ∀ {s₂ ps₂}, History s ps s₂ ps₂ ∨ History s₁ ps s₂ ps₂ →
      GivesInRoom (Δ.HasRoom (e'.cost 0) Δ.pieces [e']) N (fun k => isType k Δ e' .empty)
        (fun core' _ => core.alphaEquiv core' = some true) s₂ := by
  obtain ⟨K₁, _, le₁, rem₁, rfl, M, accepts⟩ :=
    (byNeed_isType (n := n) rem.exact v.left e .empty s rem).ok accepted
  obtain ⟨_, _, _, judged⟩ := Yields.isType .empty rem.exact v.left _ _ _ rem accepted
  obtain ⟨N, again⟩ := ((v.judges same bound (.formed accepted) M).isType (b := 0) v.meets
    (Context.own_renames Γ') (fun _ _ _ _ => trivial) id _ (accepts M (Nat.le_refl M))).attains
      fun _ _ numeral => numeral
  refine ⟨N, fun later => ?_⟩
  obtain ⟨K₂, le₂, rem₂, -⟩ := held.later rem le₁ rem₁ later
  have right := (v.mono le₂).right
  refine Gives.inRoom ((again fun k => byNeed_isType (n := k) rem₂.exact right e' .empty).gives rem₂
    fun _ _ _ _ _ hc => ?_) fun _ room => room.clear_isType rem₂ (right.held rem₂) (List.Subset.refl _) .empty
  obtain ⟨_, written, rfl⟩ := hc
  exact alphaEquiv judged.known written

theorem rechecks_check {n : Nat} {A : Value} {core : Expr} {s₁ : Session} (atHand : .value A ∈ ps)
    (within : A.erase.Within Γ.BindsFree)
    (accepted : (check n Γ e A .empty : ByNeed Expr) s = .ok core s₁) :
    ∃ N, ∀ {s₂ ps₂}, History s ps s₂ ps₂ ∨ History s₁ ps s₂ ps₂ →
      GivesInRoom (Δ.HasRoom (e'.cost 0) (.value A :: Δ.pieces) [e']) N (fun k => check k Δ e' A .empty)
        (fun core' _ => core.alphaEquiv core' = some true) s₂ := by
  have mA : Both K A A.erase := held _ atHand
  have free : Γ.BindsFree = Γ'.BindsFree := funext fun _ => propext v.left.bindsFree_iff
  have alike : Both (.varied Γ'.BindsFree o) A.erase A.erase := by
    rw [free] at within
    exact within.mono (Correspondence.within_le_varied _ _)
  obtain ⟨K₁, _, le₁, rem₁, rfl, M, accepts⟩ :=
    (byNeed_check (n := n) rem.exact v.left e .empty mA s rem).ok accepted
  obtain ⟨_, _, _, judged⟩ := Yields.check .empty rem.exact v.left mA _ _ _ rem accepted
  obtain ⟨N, again⟩ := ((v.judges same bound (.checked accepted) M).check (b := 0) v.meets
    (Context.own_renames Γ') alike (fun _ _ _ _ => trivial) id _ (accepts M (Nat.le_refl M))).attains
      fun _ _ numeral => numeral
  refine ⟨N, fun later => ?_⟩
  obtain ⟨K₂, le₂, rem₂, -⟩ := held.later rem le₁ rem₁ later
  have right := (v.mono le₂).right
  refine Gives.inRoom ((again fun k => byNeed_check (n := k) rem₂.exact right e' .empty
    (mA.mono le₂)).gives rem₂ fun _ _ _ _ _ hc => ?_) fun _ room =>
      room.clear_check rem₂ (.cons (mA.mono le₂) (right.held rem₂)) (List.subset_cons_self _ _) .empty (.head _)
  obtain ⟨_, written, rfl⟩ := hc
  exact alphaEquiv judged.known written

theorem rechecks : Rechecks Γ e Δ e' s ps where
  synth := v.rechecks_synth rem held same bound
  isType := v.rechecks_isType rem held same bound
  check := v.rechecks_check rem held same bound

end Variation

/-- Reflexivity of equality of numbers, `(the (Π ((x Nat)) (= Nat x x)) (λ (y) (same y)))`. -/
def reflexivity (x y : Name) : Expr :=
  .the (.pi x .nat (.equal .nat (.var x) (.var x))) (.lam y (.same (.var y)))

theorem reflexivity_closed (x y z : Name) : (reflexivity x y).occursFree z ≠ some true := by
  by_cases hx : x = z <;> by_cases hy : y = z <;>
    simp [reflexivity, Expr.occursFree, Expr.orSearch, hx, hy, beq_false_of_ne]

theorem reflexivity_sameUpToBinders (x y x' y' : Name) :
    (reflexivity x y).SameUpToBinders (reflexivity x' y') := by
  have here : ∀ {z z' : Name}, Alike (fun _ _ => True) (Pairing.under Eq z z') (.var z) (.var z') :=
    .var (.inl ⟨rfl, rfl⟩)
  exact .the (.quant .pi trivial (.const .nat) (.equal (.const .nat) here here))
    (.lam trivial (.unary .same here))

theorem reflexivity_named {count : Nat} (limit : count < 10 ^ Text.digitLimit) {x y : Name}
    (hx : Text.isPlain x = true) (hy : Text.isPlain y = true) :
    (reflexivity x y).Named (Text.Roomy count) := by
  have here : ∀ {z : Name}, Alike (fun x y => x = y ∧ Text.Roomy count x) (Pairing.under Eq z z) (.var z) (.var z) :=
    .var (.inl ⟨rfl, rfl⟩)
  exact .the (.quant .pi ⟨rfl, Text.roomy_of_plain limit hx⟩ (.const .nat) (.equal (.const .nat) here here))
    (.lam ⟨rfl, Text.roomy_of_plain limit hy⟩ (.unary .same here))

theorem number_named {count : Nat} (limit : count < 10 ^ Text.digitLimit) :
    ∀ p ∈ (Context.empty.bindFree "x" .nat).pieces, p.Named (Text.Roomy count) := by
  refine List.forall_mem_cons.2 ⟨?_, List.forall_mem_singleton.2 (.const .nat)⟩
  exact .extend ⟨rfl, .inl (Text.roomy_of_plain limit (by decide))⟩ .empty (.neutral (.const .nat) (.var rfl))

/-- With `x` and `x₁` in scope there is room for the names of binders that are called `x`. -/
theorem reflexivity_room : Context.HasRoom ⟨[("x₁", .definition .nat .zero), ("x", .free .nat)]⟩
    ((reflexivity "x" "x").cost 0) (Context.pieces ⟨[("x₁", .definition .nat .zero), ("x", .free .nat)]⟩)
    [reflexivity "x" "x"] 9 := by
  have limit : Context.reserve ⟨[("x₁", .definition .nat .zero), ("x", .free .nat)]⟩
      ((reflexivity "x" "x").cost 0) 9 < 10 ^ Text.digitLimit := by decide +kernel
  have one : Text.Subscripted "x₁" "x" [1] :=
    .marked (by simp) (by simp) (by simp) Text.getLast?_x_not_isSubscript (by decide)
  refine ⟨limit, ?_, List.forall_mem_singleton.2 (reflexivity_named limit (by decide) (by decide))⟩
  simp only [Context.pieces, List.flatMap_cons, List.flatMap_nil, Binding.pieces, List.cons_append, List.nil_append,
    List.forall_mem_cons]
  refine ⟨?_, .const .nat, .const .zero, .const .nat, List.forall_mem_nil _⟩
  exact .extend ⟨rfl, .inl (one.roomy (by decide) (by decide +kernel))⟩
    (.extend ⟨rfl, .inl (Text.roomy_of_plain limit (by decide))⟩ .empty (.neutral (.const .nat) (.var rfl)))
    (.const .zero)

/-- A name that has no name after it cannot be used for a binder again. -/
theorem not_elaborates_overlongName {Γ : Context} (h : overlongName ∈ Γ.names) {n : Nat} {q : Quantifier}
    {d r core : Expr} : ¬ Elaborates n Γ (.quant q overlongName d r) core := by
  intro elaborates
  cases elaborates.elaborated with
  | quant _ fresh _ _ => cases (fresh_overlongName h).symm.trans fresh

theorem synthesize_quant_nat {Γ : Context} {x y : Name} (h : Γ.fresh x = .ok y) (q : Quantifier)
    (s : Session) : ∃ s', (synthesize 9 Γ (.quant q x .nat .nat) .empty : ByNeed (Expr × Value)) s =
      .ok (.quant q y .nat .nat, .univ) s' := by
  have fresh : (Check.bindFresh Γ .empty x .nat : ByNeed (Name × Context × Renaming)) =
      pure (y, Γ.bindFree y .nat, Renaming.empty.extend x y) := by
    unfold Check.bindFresh freshName
    rw [h]
    rfl
  -- The domain is checked first, then a name is chosen.
  obtain ⟨s₁, run⟩ : ∃ s₁,
      (synthesize 9 Γ (.quant q x .nat .nat) .empty : ByNeed (Expr × Value)) s =
        (Check.bindFresh Γ .empty x .nat >>= fun p => do
          let range ← (judge 9 .nat).check p.2.1 p.2.2 .univ
          return (.quant q p.1 .nat range, .univ) : ByNeed (Expr × Value)) s₁ := ⟨_, rfl⟩
  rw [run, fresh]
  exact ⟨_, rfl⟩

end TypeKernel
