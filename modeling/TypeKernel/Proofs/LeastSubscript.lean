/-
# TypeKernel.Proofs.LeastSubscript — which name a fresh name is

A hint in use is taken apart in front of its subscript, and the fresh name is its base with the least
higher subscript that gives an unused name. `Text.Subscripted` says how a name is taken apart, without
saying how the parts are found; numbers are read and written as in `Nat.digits`.

A subscript is a numeral, and a numeral has at most `digitLimit` digits. That is the only way for a fresh
name to fail: the hint's own subscript is longer, or the least unused one is. Since every name in use
rules out one candidate at most, there is a fresh name whenever the hint's number is as far below
`10 ^ digitLimit` as there are names in use (`Text.Roomy`).

* `firstUnused_isLeast` — the search stops at the least unused subscript
* `freshAmong_of_subscripted` — the fresh name of a hint in use, or why there is none
* `exists_freshAmong` — with room there is one, and it leaves the rest of the room
* `Draws.nodup` — names drawn one after the other are different from each other
-/
import Mathlib.Data.List.TakeWhile
import Mathlib.Data.Nat.Digits.Lemmas
import TypeKernel.Proofs.Fresh
import TypeKernel.Proofs.Visibility

namespace TypeKernel

set_option autoImplicit false

namespace Text

/-! ## Names with subscripts -/

/-- The characters ₀ to ₉. -/
def IsSubscript (c : Char) : Prop :=
  ∃ d < 10, c = subscriptDigit d

/-- How a name is taken apart: `base` is what stands before the subscript digits at its end, and `ds` are
their values. A name without them, or of nothing else, is its own base. -/
inductive Subscripted (name : String) : String → List Nat → Prop
  | unmarked (last : ∀ c ∈ name.toList.getLast?, ¬ IsSubscript c) : Subscripted name name []
  | baseless (all : ∀ c ∈ name.toList, IsSubscript c) : Subscripted name name []
  | marked {base : String} {ds : List Nat} (small : ∀ d ∈ ds, d < 10) (some : ds ≠ [])
      (front : base.toList ≠ []) (last : ∀ c ∈ base.toList.getLast?, ¬ IsSubscript c)
      (whole : name = base ++ String.ofList (ds.map subscriptDigit)) : Subscripted name base ds

/-- `base` with the number `n` as its subscript. -/
def numbered (base : String) (n : Nat) : Name :=
  base ++ String.ofList ((Nat.digits 10 n).reverse.map subscriptDigit)

/-- The hint's subscript is short enough, and so are the `count` numbers above it. -/
def Roomy (count : Nat) (hint : Name) : Prop :=
  ∀ base ds, Subscripted hint base ds →
    ds.length ≤ digitLimit ∧ Nat.ofDigits 10 ds.reverse + count < 10 ^ digitLimit

theorem Roomy.mono {count fewer : Nat} {hint : Name} (h : Roomy count hint) (le : fewer ≤ count) :
    Roomy fewer hint := by
  intro base ds parts
  obtain ⟨short, room⟩ := h base ds parts
  exact ⟨short, by omega⟩

theorem isSome_subscriptValue? {c : Char} : (subscriptValue? c).isSome = true ↔ IsSubscript c := by
  constructor
  · intro value
    by_cases range : 0x2080 ≤ c.toNat ∧ c.toNat ≤ 0x2089
    · refine ⟨c.toNat - 0x2080, by omega, ?_⟩
      rw [subscriptDigit, show 0x2080 + (c.toNat - 0x2080) = c.toNat by omega, Char.ofNat_toNat]
    · simp [subscriptValue?, range] at value
  · rintro ⟨d, small, rfl⟩
    rw [subscriptValue?_subscriptDigit d small]
    rfl

theorem isSome_subscriptValue?_false {c : Char} :
    (subscriptValue? c).isSome = false ↔ ¬ IsSubscript c := by
  rw [← isSome_subscriptValue?, Bool.not_eq_true]

/-- `x` is a base. -/
theorem getLast?_x_not_isSubscript : ∀ c ∈ "x".toList.getLast?, ¬ IsSubscript c := by
  simpa using isSome_subscriptValue?_false.1 (show (subscriptValue? 'x').isSome = false by decide)

/-- A text of subscript digits is the text of their values. -/
theorem exists_digits {cs : List Char} (all : ∀ c ∈ cs, IsSubscript c) :
    ∃ ds : List Nat, (∀ d ∈ ds, d < 10) ∧ cs = ds.map subscriptDigit := by
  induction cs with
  | nil => exact ⟨[], by simp, rfl⟩
  | cons c cs ih =>
      obtain ⟨d, small, rfl⟩ := all c (.head _)
      obtain ⟨ds, rest, rfl⟩ := ih fun c mem => all c (.tail _ mem)
      exact ⟨d :: ds, List.forall_mem_cons.2 ⟨small, rest⟩, rfl⟩

theorem subscriptNumber_digits {ds : List Nat} (small : ∀ d ∈ ds, d < 10) :
    subscriptNumber (ds.map subscriptDigit) = Nat.ofDigits 10 ds.reverse := by
  have digit : ∀ d ∈ ds, ∀ n, 10 * n + (subscriptValue? (subscriptDigit d)).getD 0 = d + 10 * n := by
    intro d mem n
    rw [subscriptValue?_subscriptDigit d (small d mem), Option.getD_some, Nat.add_comm]
  rw [subscriptNumber, List.foldl_map, Nat.ofDigits_eq_foldr, List.foldr_reverse]
  exact List.foldl_ext _ _ 0 fun n d mem => digit d mem n

/-- From its end, a name is first its subscript digits and then what stands before them. -/
theorem span_subscripts (base tail : List Char) (digits : ∀ c ∈ tail, IsSubscript c)
    (last : ∀ c ∈ base.getLast?, ¬ IsSubscript c) :
    ((base ++ tail).reverse.takeWhile fun c => (subscriptValue? c).isSome) = tail.reverse ∧
      ((base ++ tail).reverse.dropWhile fun c => (subscriptValue? c).isSome) = base.reverse := by
  have inside : ∀ c ∈ tail.reverse, (subscriptValue? c).isSome = true := fun c mem =>
    isSome_subscriptValue?.2 (digits c (List.mem_reverse.1 mem))
  have outside : ∀ c ∈ base.reverse.head?, (subscriptValue? c).isSome = false := by
    intro c mem
    rw [List.head?_reverse] at mem
    exact isSome_subscriptValue?_false.2 (last c mem)
  rw [List.reverse_append, List.takeWhile_append_of_pos inside, List.dropWhile_append_of_pos inside]
  cases h : base.reverse with
  | nil => simp
  | cons c cs =>
      have stop := outside c (by simp [h])
      simp [stop]

/-- Every name is taken apart in one of the three ways. -/
theorem exists_subscripted (name : String) : ∃ base ds, Subscripted name base ds := by
  let digit := fun c => (subscriptValue? c).isSome
  let base := (name.toList.reverse.dropWhile digit).reverse
  let tail := (name.toList.reverse.takeWhile digit).reverse
  have whole : name.toList = base ++ tail := by
    rw [← List.reverse_append, List.takeWhile_append_dropWhile, List.reverse_reverse]
  have digits : ∀ c ∈ tail, IsSubscript c := by
    intro c mem
    have value := List.mem_takeWhile_imp (List.mem_reverse.1 mem)
    exact isSome_subscriptValue?.1 value
  have last : ∀ c ∈ base.getLast?, ¬ IsSubscript c := by
    intro c mem
    rw [List.getLast?_reverse] at mem
    have stop := List.head?_dropWhile_not digit name.toList.reverse
    rw [Option.mem_def.1 mem] at stop
    exact isSome_subscriptValue?_false.1 (by simpa [digit] using stop)
  by_cases front : base = []
  · rw [front, List.nil_append] at whole
    exact ⟨_, _, .baseless (whole ▸ digits)⟩
  · by_cases none : tail = []
    · rw [none, List.append_nil] at whole
      exact ⟨_, _, .unmarked (whole ▸ last)⟩
    · obtain ⟨ds, small, spelled⟩ := exists_digits digits
      have some : ds ≠ [] := by
        rintro rfl
        exact none spelled
      refine ⟨String.ofList base, ds, .marked small some (by simpa using front) (by simpa using last) ?_⟩
      rw [← spelled, ← String.ofList_append, ← whole, String.ofList_toList]

/-- A name is taken apart as it should be, unless its subscript is too long to be read. -/
theorem splitSubscript_of_subscripted {name base : String} {ds : List Nat}
    (h : Subscripted name base ds) :
    splitSubscript name = if digitLimit < ds.length then .error (.unreadable ds.length)
      else .ok (base, Nat.ofDigits 10 ds.reverse) := by
  cases h with
  | unmarked last =>
      have parts := span_subscripts name.toList [] (by simp) last
      rw [List.append_nil] at parts
      simp [splitSubscript, parts.1]
  | baseless all =>
      have parts := span_subscripts [] name.toList all (by simp)
      rw [List.nil_append] at parts
      simp [splitSubscript, parts.2]
  | marked small some front last whole =>
      have digits : ∀ c ∈ ds.map subscriptDigit, IsSubscript c := by
        intro c mem
        obtain ⟨d, hd, rfl⟩ := List.mem_map.1 mem
        exact ⟨d, small d hd, rfl⟩
      have parts := span_subscripts base.toList _ digits last
      have letters : name.toList = base.toList ++ ds.map subscriptDigit := by simp [whole]
      rw [← letters] at parts
      simp only [splitSubscript, parts.1, parts.2, List.reverse_reverse, String.ofList_toList,
        subscriptNumber_digits small, List.length_map, List.isEmpty_iff, List.map_eq_nil_iff, some, front,
        Bool.or_eq_true, or_self, if_false]
      by_cases long : digitLimit < ds.length
      · rw [if_neg (by omega), if_pos long]
      · rw [if_pos (by omega), if_neg long]

/-- However a name is taken apart, the same number is read. -/
theorem Subscripted.roomy {name base : String} {ds : List Nat} (h : Subscripted name base ds) {count : Nat}
    (short : ds.length ≤ digitLimit) (room : Nat.ofDigits 10 ds.reverse + count < 10 ^ digitLimit) :
    Roomy count name := by
  intro base' ds' parts
  have read := splitSubscript_of_subscripted parts
  rw [splitSubscript_of_subscripted h, if_neg (by omega)] at read
  split_ifs at read with long
  simp only [Except.ok.injEq, Prod.mk.injEq] at read
  exact ⟨by omega, read.2 ▸ room⟩

/-- A base that gets another number leaves the room above that. -/
theorem Subscripted.numbered {name base : String} {ds : List Nat} (h : Subscripted name base ds)
    {m count : Nat} (pos : 0 < m) (room : m + count < 10 ^ digitLimit) : Roomy count (numbered base m) := by
  have small : ∀ d ∈ (Nat.digits 10 m).reverse, d < 10 := fun d mem =>
    Nat.digits_lt_base (by omega) (List.mem_reverse.1 mem)
  have digits : ∀ c ∈ (Nat.digits 10 m).reverse.map subscriptDigit, IsSubscript c := by
    intro c mem
    obtain ⟨d, hd, rfl⟩ := List.mem_map.1 mem
    exact ⟨d, small d hd, rfl⟩
  have unread (all : ∀ c ∈ base.toList, IsSubscript c) : Roomy count (Text.numbered base m) := by
    have whole : (Text.numbered base m).toList = base.toList ++ (Nat.digits 10 m).reverse.map subscriptDigit := by
      simp [Text.numbered]
    refine (Subscripted.baseless (whole ▸ List.forall_mem_append.2 ⟨all, digits⟩)).roomy (Nat.zero_le _) ?_
    simp
    omega
  have marked (front : base.toList ≠ []) (last : ∀ c ∈ base.toList.getLast?, ¬ IsSubscript c) :
      Roomy count (Text.numbered base m) := by
    have some : (Nat.digits 10 m).reverse ≠ [] := by
      simpa [Nat.digits_eq_nil_iff_eq_zero] using Nat.ne_of_gt pos
    refine (Subscripted.marked small some front last rfl).roomy ?_ ?_
    · rw [List.length_reverse]
      exact (Nat.digits_length_le_iff (by omega) m).2 (by omega)
    · rwa [List.reverse_reverse, Nat.ofDigits_digits]
  cases h with
  | baseless all => exact unread all
  | marked _ _ front last _ => exact marked front last
  | unmarked last =>
      by_cases front : name.toList = []
      · exact unread (by simp [front])
      · exact marked front last

/-! ## Numerals -/

theorem digitsOnto_eq_append (fuel n : Nat) (tail : List Nat) (pos : 0 < n) (enough : n < fuel) :
    digitsOnto fuel n tail = (Nat.digits 10 n).reverse ++ tail := by
  induction fuel generalizing n tail with
  | zero => omega
  | succ fuel ih =>
      rw [digitsOnto, Nat.digits_def' (by omega) pos]
      by_cases small : n < 10
      · rw [if_pos small, Nat.div_eq_of_lt small, Nat.mod_eq_of_lt small]
        simp
      · rw [if_neg small, ih (n / 10) (n % 10 :: tail) (by omega) (by omega)]
        simp

theorem digits_eq_reverse {n : Nat} (pos : 0 < n) : digits n = (Nat.digits 10 n).reverse := by
  rw [digits, digitsOnto_eq_append (n + 1) n [] pos (by omega), List.append_nil]

theorem append_subscriptNumeral (base : String) {n : Nat} (pos : 0 < n) :
    base ++ subscriptNumeral n = numbered base n := by
  rw [numbered, subscriptNumeral, digits_eq_reverse pos]

/-- A number can be written if it is less than the least one with too many digits. -/
theorem subscript_of_pos {n : Nat} (pos : 0 < n) :
    subscript n = if 10 ^ digitLimit ≤ n then .error .unwritable else .ok (subscriptNumeral n) := by
  have short : (digits n).length ≤ digitLimit ↔ n < 10 ^ digitLimit := by
    rw [digits_eq_reverse pos, List.length_reverse]
    exact Nat.digits_length_le_iff (by omega) n
  rw [subscript]
  by_cases long : 10 ^ digitLimit ≤ n
  · rw [if_neg (by rw [short]; omega), if_pos long]
  · rw [if_pos (by rw [short]; omega), if_neg long]

end Text

/-! ## The search -/

theorem firstUnused_isLeast (used : List Name) (base : String) (n : Nat) :
    IsLeast {m | n < m ∧ Text.numbered base m ∉ used} (firstUnused used base used.length (n + 1)) := by
  have unused := firstUnused_notMem used base (n + 1)
  obtain ⟨k, -, answer, below, -⟩ := firstUnused_spec used base used.length (n + 1)
  rw [answer] at unused ⊢
  rw [Text.append_subscriptNumeral base (by omega)] at unused
  constructor
  · exact ⟨by omega, unused⟩
  · rintro m ⟨above, notMem⟩
    by_contra less
    have taken := below (m - (n + 1)) (by omega)
    rw [show n + 1 + (m - (n + 1)) = m by omega, Text.append_subscriptNumeral base (by omega)] at taken
    exact notMem taken

/-- The fresh name of a hint in use, or why there is none. -/
theorem freshAmong_of_subscripted {used : List Name} {hint : Name} {base : String} {ds : List Nat}
    (parts : Text.Subscripted hint base ds) (mem : hint ∈ used) :
    ∃ m ≤ Nat.ofDigits 10 ds.reverse + 1 + used.length,
      IsLeast {k | Nat.ofDigits 10 ds.reverse < k ∧ Text.numbered base k ∉ used} m ∧
      freshAmong used hint = if Text.digitLimit < ds.length then .error (.unreadable ds.length)
        else if 10 ^ Text.digitLimit ≤ m then .error .unwritable
        else .ok (Text.numbered base m) := by
  have least := firstUnused_isLeast used base (Nat.ofDigits 10 ds.reverse)
  obtain ⟨k, bound, answer, -, -⟩ :=
    firstUnused_spec used base used.length (Nat.ofDigits 10 ds.reverse + 1)
  refine ⟨_, by omega, least, ?_⟩
  rw [freshAmong, if_pos mem, Text.splitSubscript_of_subscripted parts]
  by_cases long : Text.digitLimit < ds.length
  · rw [if_pos long, if_pos long]
    rfl
  · rw [if_neg long, if_neg long]
    show (do
      let numeral ← Text.subscript
        (firstUnused used base used.length (Nat.ofDigits 10 ds.reverse + 1))
      return base ++ numeral : Except Text.NumeralError Name) = _
    rw [Text.subscript_of_pos (by omega), ← Text.append_subscriptNumeral base (by omega)]
    split
    · rfl
    · rfl

/-- With room above its subscript a hint has a fresh name, and what is left of the room is above that name. -/
theorem exists_freshAmong {used : List Name} {hint : Name} {count : Nat}
    (roomy : Text.Roomy (count + (used.length + 1)) hint) :
    ∃ y, freshAmong used hint = .ok y ∧ Text.Roomy count y := by
  by_cases mem : hint ∈ used
  · obtain ⟨base, ds, parts⟩ := Text.exists_subscripted hint
    obtain ⟨short, room⟩ := roomy base ds parts
    obtain ⟨m, bound, ⟨⟨above, -⟩, -⟩, answer⟩ := freshAmong_of_subscripted parts mem
    rw [if_neg (by omega), if_neg (by omega)] at answer
    exact ⟨_, answer, parts.numbered (by omega) (by omega)⟩
  · exact ⟨hint, if_neg mem, roomy.mono (by omega)⟩

namespace Context

variable {Γ : Context}

/-! ## One name after the other -/

/-- Names drawn from a context for the given hints, each bound in some way before the next is drawn. -/
inductive Draws : Context → List Name → List Name → Prop
  | nil {Γ : Context} : Draws Γ [] []
  | cons {Γ : Context} {hint x : Name} {hints xs : List Name} (fresh : Γ.fresh hint = .ok x) (b : Binding)
      (rest : Draws (Γ.put x b) hints xs) : Draws Γ (hint :: hints) (x :: xs)

theorem names_subset_put (Γ : Context) (x : Name) (b : Binding) : x :: Γ.names ⊆ (Γ.put x b).names := by
  refine List.cons_subset.2 ⟨?_, ?_⟩
  · cases b <;> exact .head _
  · cases b with
    | definition T v => exact names_subset_bindDefinition
    | free T => exact List.subset_cons_self x Γ.names
    | claim T => exact List.subset_cons_self x Γ.names

theorem Draws.nodup {hints xs : List Name} (h : Γ.Draws hints xs) :
    xs.Nodup ∧ ∀ x ∈ xs, x ∉ Γ.names := by
  induction h with
  | nil => simp
  | @cons Γ hint x hints xs fresh b _ ih =>
      obtain ⟨distinct, apart⟩ := ih
      have later : ∀ y ∈ xs, y ∉ x :: Γ.names := fun y mem here =>
        apart y mem (names_subset_put Γ x b here)
      refine ⟨List.nodup_cons.2 ⟨fun mem => later x mem (.head _), distinct⟩, ?_⟩
      intro y mem
      rcases List.mem_cons.1 mem with rfl | mem
      · exact fresh_notMem fresh
      · exact fun here => later y mem (.tail _ here)

/-- With room for as many names as there will be, a series does not fail. -/
theorem exists_freshSeries (type : Value) {hints : List Name}
    (roomy : ∀ hint ∈ hints, Text.Roomy (Γ.names.length + hints.length) hint) :
    ∃ xs, Γ.freshSeries type hints = .ok xs ∧ Γ.Draws hints xs := by
  induction hints generalizing Γ with
  | nil => exact ⟨[], rfl, .nil⟩
  | cons hint hints ih =>
      obtain ⟨x, fresh, -⟩ : ∃ x, Γ.fresh hint = .ok x ∧ Text.Roomy hints.length x :=
        exists_freshAmong ((roomy hint (.head _)).mono (by simp; omega))
      have rest : ∀ h ∈ hints, Text.Roomy ((Γ.bindFree x type).names.length + hints.length) h := by
        intro h mem
        refine (roomy h (.tail _ mem)).mono ?_
        show Γ.names.length + 1 + hints.length ≤ Γ.names.length + (hints.length + 1)
        omega
      obtain ⟨xs, series, draws⟩ := ih rest
      refine ⟨x :: xs, ?_, .cons fresh (.free type) draws⟩
      rw [freshSeries, fresh]
      show (do
        let xs ← (Γ.bindFree x type).freshSeries type hints
        return x :: xs : Except Text.NumeralError (List Name)) = _
      rw [series]
      rfl

end Context

/-! ## Which name is fresh -/

/-- A name with a subscript that is too long. -/
def overlongName : Name :=
  String.ofList ('x' :: List.replicate (Text.digitLimit + 1) '₁')

/-- Where it is in use there is no name after it. -/
theorem fresh_overlongName {Γ : Context} (h : overlongName ∈ Γ.names) :
    Γ.fresh overlongName = .error (.unreadable (Text.digitLimit + 1)) := by
  have parts : Text.Subscripted overlongName "x" (List.replicate (Text.digitLimit + 1) 1) := by
    refine .marked (by simp) (by simp) (by simp) Text.getLast?_x_not_isSubscript ?_
    rw [List.map_replicate, overlongName, ← List.singleton_append, String.ofList_append]
    rfl
  obtain ⟨m, -, -, answer⟩ := freshAmong_of_subscripted parts h
  rw [List.length_replicate, if_pos (by omega)] at answer
  exact answer

/-- An unused hint is taken as it is. Of a hint in use, however it is taken apart, the least higher
subscript that gives an unused name is taken, if its own subscript can be read and that one be written.
Names drawn one after the other, each bound in any way, are new and different from each other, and with
room above the hints' subscripts such names are always drawn. -/
theorem fresh_is_least_unused (Γ : Context) (hint : Name) :
    (hint ∉ Γ.names → Γ.fresh hint = .ok hint) ∧
    (∃ base ds, Text.Subscripted hint base ds) ∧
    (∀ base ds, Text.Subscripted hint base ds → hint ∈ Γ.names →
      ∃ m, IsLeast {k | Nat.ofDigits 10 ds.reverse < k ∧ Text.numbered base k ∉ Γ.names} m ∧
        Γ.fresh hint = if Text.digitLimit < ds.length then .error (.unreadable ds.length)
          else if 10 ^ Text.digitLimit ≤ m then .error .unwritable
          else .ok (Text.numbered base m)) ∧
    (∀ hints xs, Γ.Draws hints xs → xs.Nodup ∧ ∀ x ∈ xs, x ∉ Γ.names) ∧
    (∀ type hints, (∀ h ∈ hints, Text.Roomy (Γ.names.length + hints.length) h) →
      ∃ xs, Γ.freshSeries type hints = .ok xs ∧ Γ.Draws hints xs) := by
  refine ⟨Context.fresh_of_notMem, Text.exists_subscripted hint, ?_, ?_, ?_⟩
  · intro base ds parts used
    obtain ⟨m, -, least, answer⟩ := freshAmong_of_subscripted parts used
    exact ⟨m, least, answer⟩
  · intro hints xs draws
    exact draws.nodup
  · intro type hints roomy
    exact Context.exists_freshSeries type roomy

theorem fresh_names_after_subscript_nine :
    (Context.empty.bindFree "x₉" .nat).fresh "x₉" = .ok "x₁₀" ∧
    ∃ xs, (Context.empty.bindFree "x₉" .nat).freshSeries .nat ["x₉", "x₉"] = .ok xs ∧ xs.Nodup := by
  obtain ⟨-, -, least, distinct, series⟩ :=
    fresh_is_least_unused (Context.empty.bindFree "x₉" .nat) "x₉"
  have limit : 10 ^ 2 ≤ 10 ^ Text.digitLimit := Nat.pow_le_pow_right (by omega) (by decide)
  have nine : Text.Subscripted "x₉" "x" [9] :=
    .marked (by simp) (by simp) (by simp) Text.getLast?_x_not_isSubscript (by decide)
  have roomy : Text.Roomy 3 "x₉" := nine.roomy (by decide) (by
    rw [List.reverse_singleton, Nat.ofDigits_singleton]
    omega)
  constructor
  · obtain ⟨m, ⟨⟨above, -⟩, below⟩, fresh⟩ := least "x" [9] nine (by decide)
    have ten : m = 10 := le_antisymm (below ⟨by decide, by decide⟩) above
    rw [fresh, if_neg (by decide), if_neg (by omega), ten]
    exact congrArg Except.ok (by decide : Text.numbered "x" 10 = "x₁₀")
  · obtain ⟨xs, drawn, draws⟩ := series .nat ["x₉", "x₉"]
      (List.forall_mem_cons.2 ⟨roomy, List.forall_mem_singleton.2 roomy⟩)
    exact ⟨xs, drawn, (distinct _ xs draws).1⟩

/-- A name can be in use and have no name after it. -/
theorem no_fresh_name_after_overlongName :
    ∃ Γ : Context, overlongName ∈ Γ.names ∧ ∀ y, Γ.fresh overlongName ≠ .ok y := by
  refine ⟨Context.empty.bindFree overlongName .nat, .head _, ?_⟩
  intro y fresh
  rw [fresh_overlongName (.head _)] at fresh
  cases fresh

end TypeKernel
