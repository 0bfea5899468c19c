/-
# TypeKernel.Proofs.Unambiguous — the text of an expression determines it

All forms share one format: words, and parenthesized lists of what they consist of. An application has
no head word and a binder is a list inside a list, so a text is understood in two steps. A text of clean
words is the text of one tree only, and the tree of an expression is the tree of that expression only,
as long as its names are not words that the printer writes itself. Both steps are given by reading
back: `Reader` recovers the tree and `Tree.expr?` the expression.

* `Reader.read_text` — reading the text of a tree of clean words gives the tree
* `Expr.expr?_tree` — the tree of a writable expression is understood as that expression
* `render_eq_iff` — writable expressions with one text are equal
-/
import TypeKernel.Atom
import TypeKernel.Expr.Printer

namespace TypeKernel

set_option autoImplicit false

/-! ## Trees of words and their texts -/

/-- What a line of text consists of: words and lists. -/
inductive Tree where
  | word (w : String)
  | list (items : List Tree)

mutual

/-- A tree on one line. -/
def Tree.text : Tree → String
  | .word w => w
  | .list items => Expr.listed (Tree.texts items)

def Tree.texts : List Tree → List String
  | [] => []
  | t :: ts => t.text :: Tree.texts ts

end

/-- Characters that end a word. -/
def isDelimiter (c : Char) : Bool :=
  c == ' ' || c == '(' || c == ')'

/-- A nonempty text without blanks and parentheses. -/
def isCleanWord (w : String) : Bool :=
  !w.toList.isEmpty && w.toList.all fun c => !isDelimiter c

mutual

/-- All words of the tree are clean. -/
def Tree.isClean : Tree → Bool
  | .word w => isCleanWord w
  | .list items => Tree.areClean items

def Tree.areClean : List Tree → Bool
  | [] => true
  | t :: ts => t.isClean && Tree.areClean ts

end

/-- A reader halfway through a text: the letters of the word that it is in, the items of the list that
it is in, and those of the lists around it, each with the last first. -/
structure Reader where
  letters : List Char
  items : List Tree
  outer : List (List Tree)

namespace Reader

/-- The word being read is over. -/
def flush (r : Reader) : Reader :=
  match r.letters with
  | [] => r
  | letters => ⟨[], .word (String.ofList letters.reverse) :: r.items, r.outer⟩

/-- The list being read is over. -/
def pop (r : Reader) : Option Reader :=
  match r.outer with
  | [] => none
  | items :: outer => some ⟨[], .list r.items.reverse :: items, outer⟩

def step (r : Reader) (c : Char) : Option Reader :=
  if c == ' ' then some r.flush
  else if c == '(' then some ⟨[], [], r.flush.items :: r.flush.outer⟩
  else if c == ')' then r.flush.pop
  else some { r with letters := c :: r.letters }

/-- The tree that has been read, if it is exactly one. -/
def close (r : Reader) : Option Tree :=
  match r.items, r.outer with
  | [t], [] => some t
  | _, _ => none

/-- The tree of the remaining text. -/
def read (r : Reader) : List Char → Option Tree
  | [] => r.flush.close
  | c :: cs => (r.step c).bind fun r => r.read cs

@[simp] theorem flush_flush (r : Reader) : r.flush.flush = r.flush := by
  rcases r with ⟨_ | ⟨c, letters⟩, items, outer⟩
  · rfl
  · rfl

@[simp] theorem flush_start (items : List Tree) (outer : List (List Tree)) :
    flush ⟨[], items, outer⟩ = ⟨[], items, outer⟩ :=
  rfl

/-- The rest of a text after a complete item: nothing, or a blank, or the end of a list. -/
def Ends (rest : List Char) : Prop :=
  rest = [] ∨ ∃ cs, rest = ' ' :: cs ∨ rest = ')' :: cs

/-- A word ends at the end of an item, whether it has been noticed or not. -/
theorem read_flush {rest : List Char} (ends : Ends rest) (r : Reader) :
    r.flush.read rest = r.read rest := by
  rcases ends with rfl | ⟨cs, rfl | rfl⟩
  · simp [read]
  · simp [read, step]
  · simp [read, step]

theorem read_letters {w : List Char} (clean : ∀ c ∈ w, isDelimiter c = false) (r : Reader)
    (rest : List Char) :
    r.read (w ++ rest) = read ⟨w.reverse ++ r.letters, r.items, r.outer⟩ rest := by
  induction w generalizing r with
  | nil => rfl
  | cons c w ih =>
      have hc : isDelimiter c = false := clean c (List.mem_cons_self ..)
      simp only [isDelimiter, Bool.or_eq_false_iff] at hc
      rw [List.cons_append, read, step, hc.1.1, hc.1.2, hc.2]
      simp [ih (fun d hd => clean d (List.mem_cons_of_mem c hd))]

theorem flush_word {w : String} (nonempty : w.toList.isEmpty = false) (items : List Tree)
    (outer : List (List Tree)) :
    flush ⟨w.toList.reverse, items, outer⟩ = ⟨[], .word w :: items, outer⟩ := by
  cases h : w.toList.reverse with
  | nil =>
      rw [List.reverse_eq_nil_iff] at h
      simp [h] at nonempty
  | cons c cs =>
      have back : String.ofList (c :: cs).reverse = w := by
        rw [← h, List.reverse_reverse, String.ofList_toList]
      simp only [flush, back]

theorem read_word {w : String} (clean : isCleanWord w = true) {rest : List Char}
    (ends : Ends rest) (items : List Tree) (outer : List (List Tree)) :
    read ⟨[], items, outer⟩ (w.toList ++ rest) = read ⟨[], .word w :: items, outer⟩ rest := by
  simp only [isCleanWord, Bool.and_eq_true, Bool.not_eq_true', List.all_eq_true] at clean
  rw [read_letters clean.2, List.append_nil, ← read_flush ends, flush_word clean.1]

mutual

/-- Reading the text of a tree adds the tree to the items of the list being read. -/
theorem read_text (t : Tree) (clean : t.isClean = true) {rest : List Char} (ends : Ends rest)
    (items : List Tree) (outer : List (List Tree)) :
    read ⟨[], items, outer⟩ (t.text.toList ++ rest) = read ⟨[], t :: items, outer⟩ rest := by
  cases t with
  | word w => exact read_word clean ends items outer
  | list ts =>
      have inner := read_texts ts clean rest [] (items :: outer)
      have opened : (Tree.text (.list ts)).toList ++ rest =
          '(' :: ((Expr.spaced (Tree.texts ts)).toList ++ ')' :: rest) := by
        simp [Tree.text, Expr.listed]
      rw [opened, read]
      simp [step, inner, read, pop]

/-- Reading the texts of trees with blanks between them, up to the end of their list. -/
theorem read_texts (ts : List Tree) (clean : Tree.areClean ts = true) (rest : List Char)
    (items : List Tree) (outer : List (List Tree)) :
    read ⟨[], items, outer⟩ ((Expr.spaced (Tree.texts ts)).toList ++ ')' :: rest) =
      read ⟨[], ts.reverse ++ items, outer⟩ (')' :: rest) := by
  cases ts with
  | nil => rfl
  | cons t ts =>
      simp only [Tree.areClean, Bool.and_eq_true] at clean
      cases ts with
      | nil =>
          rw [Tree.texts, Tree.texts, Expr.spaced]
          exact read_text t clean.1 (.inr ⟨rest, .inr rfl⟩) items outer
      | cons u us =>
          have first := read_text t clean.1
            (.inr ⟨(Expr.spaced (Tree.texts (u :: us))).toList ++ ')' :: rest, .inl rfl⟩) items outer
          have others := read_texts (u :: us) clean.2 rest (t :: items) outer
          have blank : (Expr.spaced (Tree.texts (t :: u :: us))).toList ++ ')' :: rest =
              t.text.toList ++ ' ' :: ((Expr.spaced (Tree.texts (u :: us))).toList ++ ')' :: rest) := by
            simp [Tree.texts, Expr.spaced]
          rw [blank, first, read]
          simp [step, others]

end

end Reader

/-- The tree of a text. -/
def Tree.ofText (text : String) : Option Tree :=
  Reader.read ⟨[], [], []⟩ text.toList

/-- A text of clean words has one tree. -/
theorem Tree.ofText_text {t : Tree} (clean : t.isClean = true) : Tree.ofText t.text = some t := by
  have whole := Reader.read_text t clean (.inl rfl) [] []
  rw [List.append_nil] at whole
  exact whole

/-! ## Expressions as trees -/

/-- The words that stand first in the list of an expression that is no application. -/
inductive Keyword where
  | unary (u : Unary)
  | binary (b : Binary)
  | equal
  | quant (q : Quantifier)
  | lam
  | the
  | proj (p : Projection)
  | fold (f : Fold)
  | induct (i : Induction)
  | transport (k : Transport)
  | indAbsurd
  | indVec
  | trans
  | cong

def Keyword.word : Keyword → String
  | .unary u => u.word
  | .binary b => b.word
  | .equal => "="
  | .quant q => q.word
  | .lam => "λ"
  | .the => "the"
  | .proj p => p.word
  | .fold f => f.word
  | .induct i => i.word
  | .transport k => k.word
  | .indAbsurd => "ind-Absurd"
  | .indVec => "ind-Vec"
  | .trans => "trans"
  | .cong => "cong"

/-- All keywords. -/
def Keyword.all : List Keyword :=
  [.unary .list, .unary .add1, .unary .left, .unary .right, .unary .same, .binary .vec,
    .binary .either, .binary .cons, .binary .listCons, .binary .vecCons, .equal, .quant .pi,
    .quant .sigma, .lam, .the, .proj .car, .proj .cdr, .proj .head, .proj .tail, .proj .symm,
    .fold .whichNat, .fold .iterNat, .fold .recNat, .fold .recList, .induct .indNat,
    .induct .indList, .induct .indEither, .transport .replace, .transport .indEqual, .indAbsurd,
    .indVec, .trans, .cong]

/-- All forms without parts. -/
def Const.all : List Const :=
  [.univ, .nat, .atom, .trivial, .absurd, .zero, .sole, .nil, .vecNil]

/-- The words that the printer writes for forms. -/
def reservedWords : List String :=
  Keyword.all.map Keyword.word ++ Const.all.map Const.word ++ ["TODO"]

example : reservedWords =
    ["List", "add1", "left", "right", "same", "Vec", "Either", "cons", "::", "vec::", "=", "Π", "Σ",
      "λ", "the", "car", "cdr", "head", "tail", "symm", "which-Nat", "iter-Nat", "rec-Nat",
      "rec-List", "ind-Nat", "ind-List", "ind-Either", "replace", "ind-=", "ind-Absurd", "ind-Vec",
      "trans", "cong", "U", "Nat", "Atom", "Trivial", "Absurd", "zero", "sole", "nil", "vecnil",
      "TODO"] :=
  rfl

/-- The keyword that a word is. -/
def Keyword.ofWord (w : String) : Option Keyword :=
  Keyword.all.find? fun h => h.word == w

/-- The form without parts that a word stands for. -/
def Const.ofWord (w : String) : Option Const :=
  Const.all.find? fun c => c.word == w

theorem Keyword.ofWord_word (h : Keyword) : Keyword.ofWord h.word = some h := by
  cases h with
  | unary u => cases u <;> rfl
  | binary b => cases b <;> rfl
  | quant q => cases q <;> rfl
  | proj p => cases p <;> rfl
  | fold f => cases f <;> rfl
  | induct i => cases i <;> rfl
  | transport k => cases k <;> rfl
  | equal | lam | the | indAbsurd | indVec | trans | cong => rfl

theorem Const.ofWord_word (c : Const) : Const.ofWord c.word = some c := by
  cases c <;> rfl

theorem Keyword.ofWord_eq_none {w : String} (free : w ∉ reservedWords) : Keyword.ofWord w = none := by
  rw [Keyword.ofWord, List.find?_eq_none]
  intro h mem same
  simp only [reservedWords, List.mem_append, List.mem_map, not_or] at free
  exact free.1.1 ⟨h, mem, eq_of_beq same⟩

theorem Const.ofWord_eq_none {w : String} (free : w ∉ reservedWords) : Const.ofWord w = none := by
  rw [Const.ofWord, List.find?_eq_none]
  intro c mem same
  simp only [reservedWords, List.mem_append, List.mem_map, not_or] at free
  exact free.1.2 ⟨c, mem, eq_of_beq same⟩

/-- The expression of a single word. -/
def Expr.ofWord (w : String) : Expr :=
  match Const.ofWord w with
  | some c => .const c
  | none =>
    if w = "TODO" then .todo
    else match w.toList with
      | '\'' :: letters => .quote (String.ofList letters)
      | _ => .var w

/-- The keyword that a tree consists of, if it is one. -/
def Tree.keyword? : Tree → Option Keyword
  | .word w => Keyword.ofWord w
  | .list _ => none

/-- The tree of a part: `t`, except that a bare text in the place of a part stands as a word. -/
def Expr.part : Expr → Tree → Tree
  | .malformed (.text s), _ => .word s
  | _, t => t

/-- The tree of an expression. -/
def Expr.tree : Expr → Tree
  | .var x => .word x
  | .quote a => .word ("'" ++ a)
  | .const c => .word c.word
  | .unary u e => .list [.word (Keyword.unary u).word, e.part e.tree]
  | .binary b e₁ e₂ => .list [.word (Keyword.binary b).word, e₁.part e₁.tree, e₂.part e₂.tree]
  | .equal t l r => .list [.word Keyword.equal.word, t.part t.tree, l.part l.tree, r.part r.tree]
  | .quant q x d r =>
      .list [.word (Keyword.quant q).word, .list [.list [.word x, d.part d.tree]], r.part r.tree]
  | .lam x b => .list [.word Keyword.lam.word, .list [.word x], b.part b.tree]
  | .the t e => .list [.word Keyword.the.word, t.part t.tree, e.part e.tree]
  | .app f a => .list [f.part f.tree, a.part a.tree]
  | .proj p t => .list [.word (Keyword.proj p).word, t.part t.tree]
  | .fold f t b s => .list [.word (Keyword.fold f).word, t.part t.tree, b.part b.tree, s.part s.tree]
  | .induct i t m b s =>
      .list [.word (Keyword.induct i).word, t.part t.tree, m.part m.tree, b.part b.tree, s.part s.tree]
  | .transport k t m b =>
      .list [.word (Keyword.transport k).word, t.part t.tree, m.part m.tree, b.part b.tree]
  | .indAbsurd t m => .list [.word Keyword.indAbsurd.word, t.part t.tree, m.part m.tree]
  | .indVec n t m b s =>
      .list [.word Keyword.indVec.word, n.part n.tree, t.part t.tree, m.part m.tree, b.part b.tree, s.part s.tree]
  | .trans l r => .list [.word Keyword.trans.word, l.part l.tree, r.part r.tree]
  | .cong t f => .list [.word Keyword.cong.word, t.part t.tree, f.part f.tree]
  | .todo => .word "TODO"
  | .malformed m => .list [.word m.label]

/-- The expression that a tree stands for: a list whose first item is no keyword is an application. -/
def Tree.expr? : Tree → Option Expr
  | .word w => some (.ofWord w)
  | .list [a, b] =>
    match a.keyword? with
    | some (.unary u) => return .unary u (← b.expr?)
    | some (.proj p) => return .proj p (← b.expr?)
    | some _ => none
    | none => return .app (← a.expr?) (← b.expr?)
  | .list [a, b, c] =>
    match a.keyword? with
    | some (.binary k) => return .binary k (← b.expr?) (← c.expr?)
    | some (.quant q) =>
      match b with
      | .list [.list [.word x, d]] => return .quant q x (← d.expr?) (← c.expr?)
      | _ => none
    | some .lam =>
      match b with
      | .list [.word x] => return .lam x (← c.expr?)
      | _ => none
    | some .the => return .the (← b.expr?) (← c.expr?)
    | some .indAbsurd => return .indAbsurd (← b.expr?) (← c.expr?)
    | some .trans => return .trans (← b.expr?) (← c.expr?)
    | some .cong => return .cong (← b.expr?) (← c.expr?)
    | _ => none
  | .list [a, b, c, d] =>
    match a.keyword? with
    | some .equal => return .equal (← b.expr?) (← c.expr?) (← d.expr?)
    | some (.fold f) => return .fold f (← b.expr?) (← c.expr?) (← d.expr?)
    | some (.transport k) => return .transport k (← b.expr?) (← c.expr?) (← d.expr?)
    | _ => none
  | .list [a, b, c, d, e] =>
    match a.keyword? with
    | some (.induct i) => return .induct i (← b.expr?) (← c.expr?) (← d.expr?) (← e.expr?)
    | _ => none
  | .list [a, b, c, d, e, f] =>
    match a.keyword? with
    | some .indVec =>
      return .indVec (← b.expr?) (← c.expr?) (← d.expr?) (← e.expr?) (← f.expr?)
    | _ => none
  | _ => none

/-- A name that can be told from everything else that is written: a clean word that does not look like
a quoted atom and is not reserved. -/
def isPlainName (x : Name) : Bool :=
  isCleanWord x && x.toList.head? != some '\'' && !reservedWords.contains x

/-- All names of the expression are plain, its quoted atoms are atoms, and no part is malformed. -/
def Expr.isWritable : Expr → Bool
  | .var x => isPlainName x
  | .quote a => isAtom a
  | .const _ | .todo => true
  | .unary _ e => e.isWritable
  | .binary _ e₁ e₂ => e₁.isWritable && e₂.isWritable
  | .equal t l r => t.isWritable && l.isWritable && r.isWritable
  | .quant _ x d r => isPlainName x && d.isWritable && r.isWritable
  | .lam x b => isPlainName x && b.isWritable
  | .the t e => t.isWritable && e.isWritable
  | .app f a => f.isWritable && a.isWritable
  | .proj _ t => t.isWritable
  | .fold _ t b s => t.isWritable && b.isWritable && s.isWritable
  | .induct _ t m b s => t.isWritable && m.isWritable && b.isWritable && s.isWritable
  | .transport _ t m b => t.isWritable && m.isWritable && b.isWritable
  | .indAbsurd t m => t.isWritable && m.isWritable
  | .indVec n t m b s =>
      n.isWritable && t.isWritable && m.isWritable && b.isWritable && s.isWritable
  | .trans l r => l.isWritable && r.isWritable
  | .cong t f => t.isWritable && f.isWritable
  | .malformed _ => false

theorem isPlainName_iff {x : Name} :
    isPlainName x = true ↔
      isCleanWord x = true ∧ x.toList.head? ≠ some '\'' ∧ x ∉ reservedWords := by
  simp [isPlainName, and_assoc]

theorem Expr.part_of_isWritable {e : Expr} (h : e.isWritable = true) (t : Tree) :
    e.part t = t := by
  cases e with
  | malformed m => cases h
  | _ => rfl

theorem Expr.text_part (e : Expr) (t : Tree) : (e.part t).text = e.asPart t.text := by
  cases e with
  | malformed m => cases m <;> rfl
  | _ => rfl

theorem Expr.text_tree (e : Expr) : e.tree.text = e.render := by
  induction e with
  | _ => simp_all [Expr.tree, Expr.render, Tree.text, Tree.texts, Keyword.word, Expr.text_part]

theorem isDelimiter_of_isLetter {c : Char} (h : Text.isLetter c = true) : isDelimiter c = false := by
  rw [← Bool.not_eq_true]
  intro delimiter
  simp only [isDelimiter, Bool.or_eq_true, beq_iff_eq] at delimiter
  rcases delimiter with (rfl | rfl) | rfl
  · revert h; decide +kernel
  · revert h; decide +kernel
  · revert h; decide +kernel

theorem isCleanWord_quote {a : String} (h : isAtom a = true) : isCleanWord ("'" ++ a) = true := by
  simp only [isAtom, Bool.and_eq_true, List.all_eq_true, Bool.or_eq_true, beq_iff_eq] at h
  have letters : ∀ c ∈ a.toList, isDelimiter c = false := by
    intro c hc
    rcases h.2 c hc with letter | rfl
    · exact isDelimiter_of_isLetter letter
    · rfl
  simpa [isCleanWord, String.toList_append, isDelimiter] using letters

@[simp] theorem Keyword.isCleanWord_word (h : Keyword) : isCleanWord h.word = true := by
  cases h with
  | unary u => cases u <;> rfl
  | binary b => cases b <;> rfl
  | quant q => cases q <;> rfl
  | proj p => cases p <;> rfl
  | fold f => cases f <;> rfl
  | induct i => cases i <;> rfl
  | transport k => cases k <;> rfl
  | equal | lam | the | indAbsurd | indVec | trans | cong => rfl

@[simp] theorem Const.isCleanWord_word (c : Const) : isCleanWord c.word = true := by
  cases c <;> rfl

theorem isCleanWord_of_isPlainName {x : Name} (h : isPlainName x = true) : isCleanWord x = true :=
  (isPlainName_iff.1 h).1

/-- The words of a writable expression are clean. -/
theorem Expr.isClean_tree {e : Expr} (h : e.isWritable = true) : e.tree.isClean = true := by
  induction e with
  | malformed m => cases h
  | todo => rfl
  | _ =>
      simp_all [Expr.isWritable, Expr.tree, Tree.isClean, Tree.areClean, isCleanWord_quote,
        isCleanWord_of_isPlainName, Expr.part_of_isWritable]

theorem quote_notMem_reservedWords (a : String) : "'" ++ a ∉ reservedWords := by
  intro mem
  have first : ∀ w ∈ reservedWords, w.toList.head? ≠ some '\'' := by decide +kernel
  exact first _ mem (by simp [String.toList_append])

theorem Expr.ofWord_const (c : Const) : Expr.ofWord c.word = .const c := by
  rw [Expr.ofWord, Const.ofWord_word]

theorem Expr.ofWord_of_free {w : String} (free : w ∉ reservedWords) :
    Expr.ofWord w = match w.toList with
      | '\'' :: letters => .quote (String.ofList letters)
      | _ => .var w := by
  have notHole : w ≠ "TODO" := by
    rintro rfl
    exact free (by decide)
  rw [Expr.ofWord, Const.ofWord_eq_none free]
  simp only [notHole, if_false]

theorem Expr.ofWord_quote (a : String) : Expr.ofWord ("'" ++ a) = .quote a := by
  rw [Expr.ofWord_of_free (quote_notMem_reservedWords a)]
  simp [String.toList_append]

theorem Expr.ofWord_name {x : Name} (h : isPlainName x = true) : Expr.ofWord x = .var x := by
  obtain ⟨-, unquoted, free⟩ := isPlainName_iff.1 h
  rw [Expr.ofWord_of_free free]
  split
  · rename_i letters first
    simp [first] at unquoted
  · rfl

@[simp] theorem Keyword.keyword?_word (h : Keyword) : (Tree.word h.word).keyword? = some h :=
  Keyword.ofWord_word h

/-- No writable expression is a keyword by itself, so an application is recognized by what it lacks. -/
theorem Expr.keyword?_tree {e : Expr} (h : e.isWritable = true) : e.tree.keyword? = none := by
  cases e with
  | var x => exact Keyword.ofWord_eq_none (isPlainName_iff.1 h).2.2
  | quote a => exact Keyword.ofWord_eq_none (quote_notMem_reservedWords a)
  | const c => cases c <;> rfl
  | malformed m => cases h
  | _ => rfl

/-- The tree of a writable expression stands for it. -/
theorem Expr.expr?_tree {e : Expr} (h : e.isWritable = true) : e.tree.expr? = some e := by
  induction e with
  | var x => exact congrArg some (Expr.ofWord_name h)
  | quote a => exact congrArg some (Expr.ofWord_quote a)
  | const c => exact congrArg some (Expr.ofWord_const c)
  | todo => rfl
  | malformed m => cases h
  | binary | the | indAbsurd | trans | cong =>
      simp_all [Expr.isWritable, Expr.tree, Tree.expr?.eq_def (.list [_, _, _]),
        Expr.part_of_isWritable]
  | _ =>
      simp_all [Expr.isWritable, Expr.tree, Tree.expr?, Expr.keyword?_tree,
        Expr.part_of_isWritable]

/-- The expression of a text. -/
def Expr.parse (text : String) : Option Expr :=
  (Tree.ofText text).bind Tree.expr?

theorem Expr.parse_render {e : Expr} (h : e.isWritable = true) : Expr.parse e.render = some e := by
  rw [Expr.parse, ← Expr.text_tree, Tree.ofText_text (Expr.isClean_tree h)]
  exact Expr.expr?_tree h

/-- The printer is unambiguous: two writable expressions have one text only if they are one. -/
theorem render_eq_iff {e₁ e₂ : Expr} (h₁ : e₁.isWritable = true) (h₂ : e₂.isWritable = true) :
    e₁.render = e₂.render ↔ e₁ = e₂ := by
  constructor
  · intro same
    have read₁ : Expr.parse e₁.render = some e₁ := Expr.parse_render h₁
    rw [same, Expr.parse_render h₂] at read₁
    exact (Option.some.inj read₁).symm
  · rintro rfl
    rfl

-- reserved words, quotes and parentheses in names are what makes texts ambiguous
example : Expr.render (.app (.var "add1") .zero) = Expr.render (.add1 .zero) := rfl
example : Expr.render (.var "'a") = Expr.render (.quote "a") := rfl
example : Expr.render (.app (.var "f") (.var "x")) = Expr.render (.var "(f x)") := rfl

/-- `(f (g (Π ((x A)) x)))` and `((f g) (Π ((x A)) x))`. -/
theorem grouping_shows_in_text :
    let family : Expr := .pi "x" (.var "A") (.var "x")
    let nested : Expr := .app (.var "f") (.app (.var "g") family)
    let curried : Expr := .app (.app (.var "f") (.var "g")) family
    nested.isWritable = true ∧ curried.isWritable = true ∧ nested.render ≠ curried.render := by
  intro family nested curried
  have h₁ : nested.isWritable = true := by decide
  have h₂ : curried.isWritable = true := by decide
  refine ⟨h₁, h₂, fun same => ?_⟩
  exact absurd ((render_eq_iff h₁ h₂).1 same) (by decide)

end TypeKernel
