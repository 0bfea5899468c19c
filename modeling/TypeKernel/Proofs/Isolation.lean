/-
# TypeKernel.Proofs.Isolation — rejected declarations leave no trace

A declaration may be rejected at any depth, after the cells of earlier definitions have been forced on its
behalf. Nevertheless the rest of the run goes on as if it had never been tried. By name this is plain: there
are no cells, and a rejected declaration hands on the context it was given, so that the accepted ones alone make
the same run (`submitAll_accepted`). By need every statement ends as it does by name (`byNeed_submit`), so both
runs by need follow the one run by name, and what they leave behind reads back alike.
-/
import TypeKernel.Proofs.Coherence
import TypeKernel.Proofs.Memoization

namespace TypeKernel

set_option autoImplicit false

open Machine

/-! ## The top level by need -/

namespace Context.Matches

variable {K : Correspondence} {Γ Γ' : Context}

theorem bindClaim (h : Γ.Matches K Γ') (x : Name) {T T' : Value} (hT : Both K T T') :
    (Γ.bindClaim x T).Matches K (Γ'.bindClaim x T') :=
  .cons ⟨rfl, .claim hT⟩ h

theorem bindDefinition (h : Γ.Matches K Γ') (x : Name) {T T' v v' : Value} (hT : Both K T T')
    (hv : Both K v v') : (Γ.bindDefinition x T v).Matches K (Γ'.bindDefinition x T' v') := by
  refine .cons ⟨rfl, .definition hT hv⟩ (List.rel_filter ?_ h)
  rintro ⟨y, b⟩ ⟨_, b'⟩ ⟨rfl, hb⟩
  simp only [hb.isClaim]

end Context.Matches

/-- Contexts that match, with the same result. -/
def SameResult {ρ : Type} (K : Correspondence) (p q : Context × ρ) : Prop :=
  p.1.Matches K q.1 ∧ p.2 = q.2

/-- What a statement comes to when its declaration was processed. -/
def conclude (Γ : Context) (st : Statement) :
    ByName (Context × Option Expr) → ByName (Context × Outcome)
  | .ok (Γ', result) => .ok (Γ', .accepted result)
  | .error (.failed (.rejection reason)) => .ok (Γ, .rejected reason st.location)
  | .error reason => .error reason

section Toplevel

variable {n : Nat} {K : Correspondence} (hK : K.Exact) {Γ Γ' : Context} (hΓ : Γ.Matches K Γ')

theorem byNeed_report (event : Event) :
    (byNeed n).rel K (fun _ _ _ => True) (report event) (fun _ => report event) :=
  fun _ rem => ⟨_, (), .refl _, rem.record event, trivial, .const _⟩

include hK hΓ

theorem byNeed_claim (x : Name) (type : Expr) :
    (byNeed n).rel K (fun K' => Context.Matches K') (claim n Γ x type) (fun i => claim i Γ' x type) := by
  have same : (Γ.lookup x).isSome = (Γ'.lookup x).isSome := by
    rcases hΓ.lookup_both x with ⟨h, h'⟩ | ⟨_, _, h, h', -⟩ <;> rw [h, h']
    rfl
  unfold claim
  rw [same]
  split
  · exact (byNeed n).reject _
  · refine byNeed_bind (byNeed_isType hK hΓ type .empty) fun K₁ core _ le₁ hK₁ hc => ?_
    cases hc
    refine byNeed_bind (byNeed_eval hK₁ (hΓ.mono le₁) core) fun K₂ T T' le₂ _ hT => ?_
    refine byNeed_bind (byNeed_report _) fun K₃ _ _ le₃ _ _ => ?_
    exact (byNeed n).pure ((((hΓ.mono le₁).mono le₂).mono le₃).bindClaim x (hT.mono le₃))

theorem byNeed_defining (x : Name) (e : Expr) :
    (byNeed n).rel K SameCore (defining n Γ x e) (fun i => defining i Γ' x e) := by
  unfold defining
  rcases hΓ.lookup_both x with ⟨h, h'⟩ | ⟨b, b', h, h', hb⟩ <;> rw [h, h']
  · exact byNeed_synthesize hK hΓ e .empty
  · cases hb with
    | free | definition => exact (byNeed n).reject _
    | claim hT =>
        refine byNeed_bind (byNeed_check hK hΓ e .empty hT) fun K₁ core _ le₁ _ hc => ?_
        cases hc
        exact (byNeed n).pure ⟨rfl, hT.mono le₁⟩

theorem byNeed_define (x : Name) (e : Expr) :
    (byNeed n).rel K SameResult (define n Γ x e) (fun i => define i Γ' x e) := by
  refine byNeed_bind (byNeed_defining hK hΓ x e) fun K₁ p q le₁ hK₁ hp => ?_
  obtain ⟨core, T⟩ := p
  obtain ⟨_, T'⟩ := q
  obtain ⟨rfl, hT⟩ := hp
  refine byNeed_bind (byNeed_eval hK₁ (hΓ.mono le₁) core) fun K₂ v v' le₂ _ hv => ?_
  refine byNeed_bind (byNeed_report _) fun K₃ _ _ le₃ _ _ => ?_
  have hΓ₃ := ((hΓ.mono le₁).mono le₂).mono le₃
  exact (byNeed n).pure ⟨hΓ₃.bindDefinition x ((hT.mono le₂).mono le₃) (hv.mono le₃), rfl⟩

theorem byNeed_checkSame (type left right : Expr) :
    (byNeed n).rel K (fun _ _ _ => True) (checkSame n Γ type left right)
      (fun i => checkSame i Γ' type left right) := by
  refine byNeed_bind (byNeed_typeValue hK hΓ type) fun K₁ T T' le₁ hK₁ hT => ?_
  have hΓ₁ := hΓ.mono le₁
  refine byNeed_bind (byNeed_valueAt hK₁ hΓ₁ left hT) fun K₂ v v' le₂ hK₂ hv => ?_
  have hΓ₂ := hΓ₁.mono le₂
  refine byNeed_bind (byNeed_valueAt hK₂ hΓ₂ right (hT.mono le₂)) fun K₃ w w' le₃ hK₃ hw => ?_
  exact rel_byNeed (Tracking.requireSame (Tracking.byNeed_frame hK₃ (hΓ₂.mono le₃).names)
    ((hT.mono le₂).mono le₃) (hv.mono le₃) hw)

theorem byNeed_process (d : Declaration) :
    (byNeed n).rel K SameResult (process n Γ d) (fun i => process i Γ' d) := by
  cases d with
  | claim x type =>
      refine byNeed_bind (byNeed_claim hK hΓ x type) fun K₁ Δ Δ' _ _ hΔ => ?_
      exact (byNeed n).pure ⟨hΔ, rfl⟩
  | define x e =>
      refine byNeed_bind (byNeed_define hK hΓ x e) fun K₁ p q _ _ hp => ?_
      exact (byNeed n).pure ⟨hp.1, congrArg some hp.2⟩
  | checkSame type left right =>
      refine byNeed_bind (byNeed_checkSame hK hΓ type left right) fun K₁ _ _ le₁ _ _ => ?_
      exact (byNeed n).pure ⟨hΓ.mono le₁, rfl⟩
  | normalize e =>
      refine byNeed_bind (byNeed_rep hK hΓ e) fun K₁ form _ le₁ _ hf => ?_
      cases hf
      exact (byNeed n).pure ⟨hΓ.mono le₁, rfl⟩
  | malformed text => exact (byNeed n).defect _

theorem byNeed_submit (st : Statement) :
    (byNeed n).rel K SameResult (submit n Γ st) (fun i => submit i Γ' st) := by
  intro s rem
  have follows := byNeed_process (n := n) hK hΓ st.declaration s rem
  simp only [submit, bind, EStateM.bind, attempt]
  cases hx : (process n Γ st.declaration : ByNeed _) s with
  | ok p s' =>
      obtain ⟨Δ, result⟩ := p
      rw [hx] at follows
      obtain ⟨K', ⟨Δ', _⟩, le, rem', ⟨hΔ, rfl⟩, settles⟩ := follows
      exact ⟨K', (Δ', .accepted result), le, rem', ⟨hΔ, rfl⟩, settles.map (conclude Γ' st) rfl⟩
  | error reason s' =>
      rw [hx] at follows
      cases reason with
      | failed e =>
          cases e with
          | rejection r =>
              obtain ⟨⟨K', le, rem'⟩, settles⟩ := follows
              exact ⟨K', (Γ', .rejected r st.location), le, rem'.record _, ⟨hΓ.mono le, rfl⟩,
                settles.map (conclude Γ' st) rfl⟩
          | defect d => exact ⟨follows.1, follows.2.map (conclude Γ' st) rfl⟩
      | exhausted => exact ⟨follows.1, congrArg (conclude Γ' st) follows.2⟩

omit hK hΓ in
theorem byNeed_submitAll (sts : List Statement) : ∀ {K Γ Γ'}, K.Exact → Γ.Matches K Γ' →
    (byNeed n).rel K SameResult (submitAll n Γ sts) (fun i => submitAll i Γ' sts) := by
  induction sts with
  | nil => exact fun _ hΓ => (byNeed n).pure ⟨hΓ, rfl⟩
  | cons st sts ih =>
      intro K Γ Γ' hK hΓ
      refine byNeed_bind (byNeed_submit hK hΓ st) fun K₁ p q _ hK₁ hp => ?_
      refine byNeed_bind (ih hK₁ hp.1) fun K₂ p' q' _ _ hp' => ?_
      exact (byNeed n).pure ⟨hp'.1, congrArg₂ List.cons hp.2 hp'.2⟩

end Toplevel

/-! ## Runs without their rejected statements -/

/-- The statements that were accepted. -/
def acceptedStatements (sts : List Statement) (outcomes : List Outcome) : List Statement :=
  ((sts.zip outcomes).filter fun p => p.2.isAccepted).map Prod.fst

/-- An outcome of a statement: if it is rejected, it is rejected at its own location. -/
def Outcome.IsOf (o : Outcome) (st : Statement) : Prop :=
  ∀ reason location, o = .rejected reason location → location = st.location

/-- By name, a statement that is rejected hands on the context that it was given. -/
theorem submit_ok {n : Nat} {Γ Δ : Context} {st : Statement} {o : Outcome}
    (h : (submit n Γ st : ByName (Context × Outcome)) = .ok (Δ, o)) :
    o.IsOf st ∧ (o.isAccepted = false → Δ = Γ) := by
  change conclude Γ st (process n Γ st.declaration) = _ at h
  cases hp : (process n Γ st.declaration : ByName (Context × Option Expr)) with
  | ok p =>
      rw [hp] at h
      cases h
      refine ⟨?_, ?_⟩
      · intro _ _ rejected
        cases rejected
      · intro refused
        cases refused
  | error reason =>
      rw [hp] at h
      cases reason with
      | exhausted => cases h
      | failed e =>
          cases e with
          | defect => cases h
          | rejection r =>
              cases h
              exact ⟨fun _ _ heq => (Outcome.rejected.inj heq).2.symm, fun _ => rfl⟩

/-- By name, the accepted statements alone make the same run. -/
theorem submitAll_accepted {n : Nat} (sts : List Statement) : ∀ {Γ Δ : Context} {outcomes : List Outcome},
    (submitAll n Γ sts : ByName (Context × List Outcome)) = .ok (Δ, outcomes) →
      List.Forall₂ Outcome.IsOf outcomes sts ∧
      submitAll n Γ (acceptedStatements sts outcomes) =
        (.ok (Δ, outcomes.filter Outcome.isAccepted) : ByName (Context × List Outcome)) := by
  induction sts with
  | nil =>
      intro Γ Δ outcomes h
      cases h
      exact ⟨.nil, rfl⟩
  | cons st sts ih =>
      intro Γ Δ outcomes h
      have h : Returns (submitAll n Γ (st :: sts) : ByName _) (Δ, outcomes) := h
      obtain ⟨⟨Γ₁, o⟩, first, h⟩ := h.bind
      obtain ⟨⟨Γ₂, os⟩, rest, h⟩ := h.bind
      cases h.pure_eq
      obtain ⟨isOf, unchanged⟩ := submit_ok first
      obtain ⟨areOf, same⟩ := ih rest
      refine ⟨.cons isOf areOf, ?_⟩
      cases accepted : o.isAccepted with
      | true =>
          have kept : acceptedStatements (st :: sts) (o :: os) = st :: acceptedStatements sts os := by
            simp [acceptedStatements, accepted]
          rw [kept, List.filter_cons_of_pos accepted]
          exact (ByName.bind_ok first).trans (ByName.bind_ok same)
      | false =>
          have dropped : acceptedStatements (st :: sts) (o :: os) = acceptedStatements sts os := by
            simp [acceptedStatements, accepted]
          cases unchanged accepted
          rw [dropped, List.filter_cons_of_neg (by simp [accepted])]
          exact same

/-! ## What two runs leave behind -/

/-- Computations in two sessions that end in the same ways. -/
def EndAlike {α : Type} (x y : Nat → ByNeed α) (s t : Session) : Prop :=
  ∀ o, o ≠ .error .exhausted →
    ((∃ j, (x j).outcome s = o) ↔ ∃ N, ∀ k, N ≤ k → (y k).outcome t = o)

/-- Bindings of one kind with related types and values. -/
inductive Binding.Related (R : Reading → Reading → Prop) : Binding → Binding → Prop
  | free {T S} (hT : R (.type T) (.type S)) : Binding.Related R (.free T) (.free S)
  | definition {T S v w} (hT : R (.type T) (.type S)) (hv : R (.value T v) (.value S w)) :
      Binding.Related R (.definition T v) (.definition S w)
  | claim {T S} (hT : R (.type T) (.type S)) : Binding.Related R (.claim T) (.claim S)

/-- Contexts with the same names, in the same order and bound in the same ways, to types and values that
read back alike in the two sessions. -/
def Context.ReadsAlike (Γ : Context) (s : Session) (Δ : Context) (t : Session) : Prop :=
  List.Forall₂ (fun b c => b.1 = c.1 ∧ b.2.Related (fun r r' =>
    EndAlike (fun k => readings k Γ r) (fun k => readings k Δ r') s t) c.2) Γ.bindings Δ.bindings

/-- Computations by need that follow computations by name which are equal from some bound on. -/
theorem EndAlike.of_eventually {α : Type} {K L : Correspondence} {x y : Nat → ByNeed α}
    {z z' : Nat → ByName α} {s t : Session} (hx : ∀ n, (byNeed n).rel K Same (x n) z)
    (hs : Remembers K s) (hy : ∀ n, (byNeed n).rel L Same (y n) z') (ht : Remembers L t)
    (same : ∃ N, ∀ k, N ≤ k → z k = z' k) : EndAlike x y s t := by
  obtain ⟨N, hN⟩ := same
  intro o ends
  constructor
  · rintro ⟨j, rfl⟩
    obtain ⟨M, hM⟩ := (hx j s hs).eventually ends
    refine ⟨max N M, fun k hk => ?_⟩
    have byName : z' k = (x j).outcome s := (hN k (by omega)).symm.trans (hM k (by omega))
    exact ((hy k t ht).within (by rwa [byName])).trans byName
  · rintro ⟨M, hM⟩
    have last := hM M (Nat.le_refl M)
    obtain ⟨M', hM'⟩ := (hy M t ht).eventually (last ▸ ends)
    have byName : z (max N M') = o :=
      (hN _ (by omega)).trans ((hM' _ (by omega)).trans last)
    exact ⟨max N M', ((hx _ s hs).within (byName ▸ ends)).trans byName⟩

theorem EndAlike.of_rel {α : Type} {K L : Correspondence} {x y : Nat → ByNeed α} {z : Nat → ByName α}
    {s t : Session} (hx : ∀ n, (byNeed n).rel K Same (x n) z) (hs : Remembers K s)
    (hy : ∀ n, (byNeed n).rel L Same (y n) z) (ht : Remembers L t) : EndAlike x y s t :=
  .of_eventually hx hs hy ht ⟨0, fun _ _ => rfl⟩

/-- Lists that are related to one list are related to each other. -/
theorem forall₂_of_common {α β γ : Type} {R : α → γ → Prop} {S : β → γ → Prop} {Q : α → β → Prop}
    (hQ : ∀ a b c, R a c → S b c → Q a b) {as : List α} {bs : List β} {cs : List γ}
    (h : List.Forall₂ R as cs) (h' : List.Forall₂ S bs cs) : List.Forall₂ Q as bs := by
  induction h generalizing bs with
  | nil =>
      cases h'
      exact .nil
  | cons ha _ ih =>
      cases h' with
      | cons hb hbs => exact .cons (hQ _ _ _ ha hb) (ih hbs)

theorem Context.Matches.readsAlike {K L : Correspondence} {Γ Δ Γ' : Context} {s t : Session}
    (hΓ : Γ.Matches K Γ') (hs : Remembers K s) (hΔ : Δ.Matches L Γ') (ht : Remembers L t) :
    Γ.ReadsAlike s Δ t := by
  have reads : ∀ {r r₁ r' : Reading}, r.Matches K r' → r₁.Matches L r' →
      EndAlike (fun k => readings k Γ r) (fun k => readings k Δ r₁) s t := fun hr hr₁ =>
    .of_rel (fun n => byNeed_readings n hs.exact hΓ.names hr) hs
      (fun n => byNeed_readings n ht.exact hΔ.names hr₁) ht
  have related : ∀ {b c b' : Binding}, b.Matches K b' → c.Matches L b' →
      b.Related (fun r r₁ => EndAlike (fun k => readings k Γ r) (fun k => readings k Δ r₁) s t) c := by
    intro b c b' hb hc
    cases hb with
    | free hT => cases hc with | free hS => exact .free (reads (.type hT) (.type hS))
    | claim hT => cases hc with | claim hS => exact .claim (reads (.type hT) (.type hS))
    | definition hT hv =>
        cases hc with
        | definition hS hw =>
            exact .definition (reads (.type hT) (.type hS)) (reads (.value hT hv) (.value hS hw))
  exact forall₂_of_common (fun _ _ _ hb hc => ⟨hb.1.trans hc.1.symm, related hb.2 hc.2⟩) hΓ hΔ

/-- Rejected statements leave no trace. In any session and from any context at hand there, let a list of
statements be processed to its end. There is one outcome for each statement, in order, and a rejected one has the
location of its own statement. And, before and after that, the accepted statements alone are all accepted, with
the same results in the same order, and they end with the same bindings. -/
theorem rejected_statements_leave_no_trace {s₀ s s' : Session} {ps : List Piece}
    (h : History s₀ [] s ps) {Γ Δ : Context} (hΓ : Γ.pieces ⊆ ps) {n : Nat} {sts : List Statement}
    {outcomes : List Outcome}
    (ran : (submitAll n Γ sts : ByNeed (Context × List Outcome)) s = .ok (Δ, outcomes) s') :
    List.Forall₂ Outcome.IsOf outcomes sts ∧
    ∃ N, ∀ {s₁ ps₁}, History s ps s₁ ps₁ ∨ History s' ps s₁ ps₁ →
      Gives Error.Never N (fun k => submitAll k Γ (acceptedStatements sts outcomes)) (fun p s₂ =>
        p.2 = outcomes.filter Outcome.isAccepted ∧
        ∀ {t qs t₂ qs₂}, History s' (Δ.pieces ++ ps) t qs → History s₂ (p.1.pieces ++ ps₁) t₂ qs₂ →
          Δ.ReadsAlike t p.1 t₂) s₁ := by
  obtain ⟨K, -, rem, held⟩ := h.held (.start s₀) (List.forall_mem_nil _)
  have mΓ := (held.of_subset hΓ).context
  obtain ⟨K', ⟨Δ', _⟩, le, rem', ⟨mΔ, rfl⟩, N, byName⟩ :=
    (byNeed_submitAll (n := n) sts rem.exact mΓ s rem).ok ran
  refine ⟨(submitAll_accepted sts (byName N (Nat.le_refl N))).1, N, fun {s₁ ps₁} later => ?_⟩
  obtain ⟨K₁, le₁, rem₁, held₁⟩ := held.later rem le rem' later
  have again := Attains.of_rel (F := Error.Never)
    (fun k => byNeed_submitAll (n := k) (acceptedStatements sts outcomes) rem₁.exact (mΓ.mono le₁))
    fun i hi => .inl (submitAll_accepted sts (byName i hi)).2
  refine again.gives rem₁ fun K₂ p s₂ le₂ rem₂ same => ⟨same.2, fun {t qs t₂ qs₂} ht ht₂ => ?_⟩
  obtain ⟨L, leL, remL, -⟩ := ht.held rem'
    (List.forall_mem_append.2 ⟨mΔ.held rem', held.mono le⟩)
  obtain ⟨L₂, leL₂, remL₂, -⟩ := ht₂.held rem₂
    (List.forall_mem_append.2 ⟨same.1.held rem₂, held₁.mono le₂⟩)
  exact (mΔ.mono leL).readsAlike remL (same.1.mono leL₂) remL₂

/-- A definition, a name in use, a comparison that forces the definition and fails, and a claim with its
proof. -/
def mixedStatements : List Statement :=
  [⟨.define "two" (.add1 (.add1 .zero)), some (.number 1)⟩, ⟨.claim "two" .nat, some (.number 2)⟩,
    ⟨.checkSame .nat (.var "two") (.add1 .zero), some (.number 3)⟩,
    ⟨.claim "p" (.equal .nat (.var "two") (.add1 (.add1 .zero))), some (.number 4)⟩,
    ⟨.define "p" (.same (.var "two")), some (.number 5)⟩]

/-- The name in use and the comparison are rejected, each at its own location, and without them the others are
accepted as before. -/
theorem mixedStatements_isolated : ∃ Δ outcomes s N,
    (submitAll 20 .empty mixedStatements : ByNeed (Context × List Outcome)) .empty = .ok (Δ, outcomes) s ∧
    outcomes.map Outcome.isAccepted = [true, false, false, true, true] ∧
    acceptedStatements mixedStatements outcomes = [mixedStatements[0], mixedStatements[3], mixedStatements[4]] ∧
    List.Forall₂ Outcome.IsOf outcomes mixedStatements ∧
    Gives Error.Never N (fun k => submitAll k .empty (acceptedStatements mixedStatements outcomes))
      (fun p t => p.2 = outcomes.filter Outcome.isAccepted ∧ Δ.ReadsAlike s p.1 t) s := by
  have atHand : History .empty [] .empty [.env .empty] := .build .start rfl (List.nil_subset _)
  have ran : (submitAll 20 .empty mixedStatements : ByNeed (Context × List Outcome)) .empty = .ok (_, _) _ := rfl
  obtain ⟨areOf, N, again⟩ :=
    rejected_statements_leave_no_trace atHand (Γ := .empty) (List.Subset.refl _) ran
  refine ⟨_, _, _, N, ran, rfl, rfl, areOf, fun k => ?_⟩
  rcases again (.inr .start) k with ⟨p, t, hp, same, reads⟩ | stops
  · exact .inl ⟨p, t, hp, same, reads .start .start⟩
  · exact .inr stops

end TypeKernel
