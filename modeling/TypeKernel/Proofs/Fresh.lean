/-
# TypeKernel.Proofs.Fresh — fresh names are fresh

The search for a fresh name tries as many subscripts as there are used names, and then answers without
a further look. That is enough: different numbers have different numerals
(`subscriptNumeral_injective`), so if every candidate up to and including the last were used, the used
names would be more than they are.
-/
import Mathlib.Data.List.Basic
import Mathlib.Data.Finset.Card
import Mathlib.Data.Finset.Image
import TypeKernel.Context.Fresh

namespace TypeKernel

set_option autoImplicit false

namespace Text

/-! ## Numerals -/

/-- Reading the digits of a number from the left gives the number. -/
theorem foldl_digitsOnto (fuel n : Nat) (tail : List Nat) (enough : n < fuel) :
    (digitsOnto fuel n tail).foldl (fun acc d => 10 * acc + d) 0 =
      tail.foldl (fun acc d => 10 * acc + d) n := by
  induction fuel generalizing n tail with
  | zero => omega
  | succ fuel ih =>
      simp only [digitsOnto]
      split
      · simp
      · rw [ih (n / 10) (n % 10 :: tail) (by omega), List.foldl_cons]
        congr 1
        omega

theorem digitsOnto_lt_ten (fuel n : Nat) (tail : List Nat) (small : ∀ d ∈ tail, d < 10) :
    ∀ d ∈ digitsOnto fuel n tail, d < 10 := by
  induction fuel generalizing n tail with
  | zero => exact small
  | succ fuel ih =>
      simp only [digitsOnto]
      split
      · intro d mem
        rcases List.mem_cons.1 mem with rfl | mem
        · assumption
        · exact small d mem
      · apply ih
        intro d mem
        rcases List.mem_cons.1 mem with rfl | mem
        · omega
        · exact small d mem

theorem digits_lt_ten (n : Nat) : ∀ d ∈ digits n, d < 10 :=
  digitsOnto_lt_ten (n + 1) n [] (by simp)

theorem digits_injective : Function.Injective digits := by
  intro a b same
  have left := foldl_digitsOnto (a + 1) a [] (by omega)
  have right := foldl_digitsOnto (b + 1) b [] (by omega)
  simp only [digits] at same
  rw [same] at left
  simpa using left.symm.trans right

theorem subscriptValue?_subscriptDigit : ∀ d < 10, subscriptValue? (subscriptDigit d) = some d := by
  decide

theorem subscriptDigit_injOn {d e : Nat} (hd : d < 10) (he : e < 10)
    (same : subscriptDigit d = subscriptDigit e) : d = e := by
  have value := subscriptValue?_subscriptDigit d hd
  rw [same, subscriptValue?_subscriptDigit e he] at value
  exact (Option.some.inj value).symm

theorem map_subscriptDigit_inj {ds es : List Nat} (hd : ∀ d ∈ ds, d < 10) (he : ∀ e ∈ es, e < 10)
    (same : ds.map subscriptDigit = es.map subscriptDigit) : ds = es := by
  induction ds generalizing es with
  | nil => cases es <;> simp_all
  | cons d ds ih =>
      cases es with
      | nil => simp at same
      | cons e es =>
          simp only [List.map_cons, List.cons.injEq] at same
          simp only [List.forall_mem_cons] at hd he
          rw [subscriptDigit_injOn hd.1 he.1 same.1, ih hd.2 he.2 same.2]

theorem subscriptNumeral_injective : Function.Injective subscriptNumeral := by
  intro a b same
  apply digits_injective
  exact map_subscriptDigit_inj (digits_lt_ten a) (digits_lt_ten b) (String.ofList_injective same)

end Text

/-! ## The search -/

/-- The names from `m` to one below the answer are all used. -/
theorem firstUnused_spec (used : List Name) (base : String) (tries m : Nat) :
    ∃ k ≤ tries, firstUnused used base tries m = m + k ∧
      (∀ i < k, base ++ Text.subscriptNumeral (m + i) ∈ used) ∧
      (k < tries → base ++ Text.subscriptNumeral (m + k) ∉ used) := by
  induction tries generalizing m with
  | zero => exact ⟨0, le_rfl, rfl, by simp, by simp⟩
  | succ tries ih =>
      simp only [firstUnused]
      split
      · rename_i here
        obtain ⟨k, bound, answer, below, unused⟩ := ih (m + 1)
        refine ⟨k + 1, by omega, by omega, ?_, ?_⟩
        · intro i hi
          cases i with
          | zero => exact here
          | succ i =>
              have := below i (by omega)
              rwa [show m + 1 + i = m + (i + 1) by omega] at this
        · intro hk
          have := unused (by omega)
          rwa [show m + 1 + k = m + (k + 1) by omega] at this
      · rename_i here
        exact ⟨0, by omega, rfl, by simp, fun _ => here⟩

/-- A list cannot hold more different candidates than it has entries. -/
theorem not_all_candidates_used (used : List Name) (base : String) (m : Nat) :
    ¬ ∀ i < used.length + 1, base ++ Text.subscriptNumeral (m + i) ∈ used := by
  intro all
  have injective : Function.Injective fun i => base ++ Text.subscriptNumeral (m + i) := by
    intro i j same
    have := Text.subscriptNumeral_injective (String.append_right_inj base |>.1 same)
    omega
  have inside : (Finset.range (used.length + 1)).image
      (fun i => base ++ Text.subscriptNumeral (m + i)) ⊆ used.toFinset := by
    intro name mem
    obtain ⟨i, hi, rfl⟩ := Finset.mem_image.1 mem
    exact List.mem_toFinset.2 (all i (Finset.mem_range.1 hi))
  have count := (Finset.card_le_card inside).trans (List.toFinset_card_le used)
  rw [Finset.card_image_of_injective _ injective, Finset.card_range] at count
  omega

theorem firstUnused_notMem (used : List Name) (base : String) (m : Nat) :
    base ++ Text.subscriptNumeral (firstUnused used base used.length m) ∉ used := by
  obtain ⟨k, bound, answer, below, unused⟩ := firstUnused_spec used base used.length m
  rw [answer]
  rcases Nat.lt_or_ge k used.length with short | long
  · exact unused short
  · intro last
    apply not_all_candidates_used used base m
    intro i hi
    rcases Nat.lt_or_ge i k with h | h
    · exact below i h
    · rwa [show i = k by omega]

theorem freshAmong_notMem {used : List Name} {hint y : Name} (h : freshAmong used hint = .ok y) :
    y ∉ used := by
  simp only [freshAmong] at h
  split at h
  · cases split : Text.splitSubscript hint with
    | error e => simp [split, bind, Except.bind] at h
    | ok parts =>
        obtain ⟨base, n⟩ := parts
        simp only [split, bind, Except.bind, Text.subscript] at h
        split at h
        · simp at h
        · rename_i written
          split at written
          · simp only [Except.ok.injEq] at written
            simp only [pure, Except.pure, Except.ok.injEq] at h
            rw [← h, ← written]
            exact firstUnused_notMem used base (n + 1)
          · simp at written
  · simp only [Except.ok.injEq] at h
    rwa [← h]

/-- An unused hint is taken as it is. -/
theorem freshAmong_of_notMem {used : List Name} {hint : Name} (h : hint ∉ used) :
    freshAmong used hint = .ok hint := by
  simp [freshAmong, h]

namespace Context

theorem fresh_notMem {Γ : Context} {hint y : Name} (h : Γ.fresh hint = .ok y) : y ∉ Γ.names :=
  freshAmong_notMem h

theorem fresh_of_notMem {Γ : Context} {hint : Name} (h : hint ∉ Γ.names) :
    Γ.fresh hint = .ok hint :=
  freshAmong_of_notMem h

@[simp] theorem names_bindFree (Γ : Context) (x : Name) (type : Value) :
    (Γ.bindFree x type).names = x :: Γ.names := rfl

theorem lookup_bindFree (Γ : Context) (y : Name) (T : Value) (x : Name) :
    (Γ.bindFree y T).lookup x = if x = y then some (.free T) else Γ.lookup x := by
  by_cases h : x = y <;> simp [lookup, bindFree, List.lookup_cons, h, beq_false_of_ne]

theorem lookup_of_notMem {Γ : Context} {x : Name} (h : x ∉ Γ.names) : Γ.lookup x = none := by
  rw [lookup, List.lookup_eq_none_iff]
  intro entry mem
  have : entry.1 ≠ x := fun same => h (List.mem_map.2 ⟨entry, mem, same⟩)
  simpa using this.symm

theorem mem_names_of_lookup {Γ : Context} {x : Name} {b : Binding} (h : Γ.lookup x = some b) :
    x ∈ Γ.names := by
  by_contra notMem
  cases (lookup_of_notMem notMem).symm.trans h

end Context

end TypeKernel
