/-
# TypeKernel.Proofs.LineBreaks — what laying out an expression changes

An expression is a tree of words and lists. On one line there is a space between any two items of a list;
over several lines some of these spaces are line breaks, each with a margin of an even number of blanks,
and nothing else is different. `Tree.Spread` are the texts of a tree that differ in this way only.

* `spread_layout` — an expression is laid out as a text of its tree, whatever the width and the level
* `Tree.Spread.filter_eq` — the texts of a tree have the same characters, blanks left out
-/
import Mathlib.Data.List.Forall2
import TypeKernel.Expr.Layout
import TypeKernel.Proofs.Unambiguous

namespace TypeKernel

set_option autoImplicit false

/-! ## Texts of a tree -/

/-- What stands between two items of a list: a space, or a line break and a margin. -/
inductive IsGap : String → Prop
  | space : IsGap " "
  | newline (half : Nat) : IsGap ("\n" ++ String.ofList (List.replicate (2 * half) ' '))

mutual

/-- The texts of a tree, on one line or on several. -/
inductive Tree.Spread : Tree → String → Prop
  | word (w : String) : Tree.Spread (.word w) w
  | list {ts : List Tree} {text : String} (h : Tree.SpreadAll ts text) :
      Tree.Spread (.list ts) ("(" ++ text ++ ")")

inductive Tree.SpreadAll : List Tree → String → Prop
  | nil : Tree.SpreadAll [] ""
  | one {t : Tree} {text : String} (h : Tree.Spread t text) : Tree.SpreadAll [t] text
  | more {t u : Tree} {ts : List Tree} {text gap rest : String} (h : Tree.Spread t text)
      (between : IsGap gap) (later : Tree.SpreadAll (u :: ts) rest) :
      Tree.SpreadAll (t :: u :: ts) (text ++ gap ++ rest)

end

namespace Tree

theorem SpreadAll.spaced {ts : List Tree} {texts : List String} (h : List.Forall₂ Spread ts texts) :
    SpreadAll ts (Expr.spaced texts) := by
  induction h with
  | nil => exact .nil
  | cons first rest ih =>
      cases rest with
      | nil => exact .one first
      | cons => exact .more first .space ih

/-- After an item, all others on lines of their own. -/
theorem SpreadAll.continued {t : Tree} {ts : List Tree} {text : String} {texts : List String}
    (h : t.Spread text) (hs : List.Forall₂ Spread ts texts) (level : Int) :
    SpreadAll (t :: ts) (text ++ Expr.continued level texts) := by
  induction hs generalizing t text with
  | nil =>
      rw [Expr.continued, String.append_empty]
      exact .one h
  | @cons u next us later first _ ih =>
      have lines := SpreadAll.more h (.newline level.toNat) (ih first)
      rw [Expr.continued, Expr.margin]
      simpa only [String.append_assoc] using lines

theorem Spread.listed {ts : List Tree} {texts : List String} (h : List.Forall₂ Spread ts texts) :
    Spread (.list ts) (Expr.listed texts) :=
  .list (.spaced h)

theorem Spread.stacked {ts : List Tree} {texts : List String} (h : List.Forall₂ Spread ts texts)
    (level : Int) : Spread (.list ts) (Expr.stacked level texts) := by
  have inside : Expr.stacked level texts =
      "(" ++ (Expr.spaced (texts.take 2) ++ Expr.continued (level + 1) (texts.drop 2)) ++ ")" := by
    simp only [Expr.stacked, String.append_assoc]
  rw [inside]
  refine .list ?_
  cases h with
  | nil => exact .nil
  | cons first rest =>
      cases rest with
      | nil => simpa [Expr.spaced, Expr.continued] using SpreadAll.one first
      | cons second rest =>
          have lines := SpreadAll.more first .space (.continued second rest (level + 1))
          simpa only [Expr.spaced, List.take, List.drop, String.append_assoc] using lines

mutual

theorem spread_text : (t : Tree) → t.Spread t.text
  | .word w => .word w
  | .list ts => .listed (forall₂_texts ts)

theorem forall₂_texts : (ts : List Tree) → List.Forall₂ Spread ts (texts ts)
  | [] => .nil
  | t :: ts => .cons (spread_text t) (forall₂_texts ts)

end

/-! ## Blanks -/

theorem filter_gap {blank : Char → Bool} (space : blank ' ' = true) (newline : blank '\n' = true)
    {gap : String} (h : IsGap gap) : gap.toList.filter (!blank ·) = [] := by
  cases h with
  | space => simp [space]
  | newline half => simp [space, newline]

mutual

/-- Any two texts of a tree consist of the same characters, blanks left out. -/
theorem Spread.filter_eq {blank : Char → Bool} (space : blank ' ' = true)
    (newline : blank '\n' = true) {t : Tree} {text : String} : t.Spread text →
      text.toList.filter (!blank ·) = t.text.toList.filter (!blank ·)
  | .word _ => rfl
  | .list h => by
      have inside := h.filter_eq space newline
      simp only [Tree.text, Expr.listed, String.toList_append, List.filter_append, inside]

theorem SpreadAll.filter_eq {blank : Char → Bool} (space : blank ' ' = true)
    (newline : blank '\n' = true) {ts : List Tree} {text : String} : SpreadAll ts text →
      text.toList.filter (!blank ·) = (Expr.spaced (texts ts)).toList.filter (!blank ·)
  | .nil => rfl
  | .one h => h.filter_eq space newline
  | @SpreadAll.more t u ts _ _ _ h between later => by
      have first := h.filter_eq space newline
      have next := later.filter_eq space newline
      show _ = (t.text ++ " " ++ Expr.spaced (texts (u :: ts))).toList.filter (!blank ·)
      simp [filter_gap space newline between, first, next, space]

end

end Tree

/-! ## Expressions -/

theorem Expr.spread_part {e : Expr} {text : String} (h : e.tree.Spread text) :
    (e.part e.tree).Spread (e.asPart text) := by
  cases e with
  | malformed m =>
      cases m with
      | text s => exact .word s
      | _ => exact h
  | _ => exact h

/-- An expression is laid out as a text of its tree. -/
theorem Expr.spread_layout (width : Int) (e : Expr) (level : Int) :
    e.tree.Spread (e.layout width level) := by
  have line : ∀ e : Expr, e.tree.Spread e.render := by
    intro e
    rw [← e.text_tree]
    exact e.tree.spread_text
  induction e generalizing level with
  | var | quote | const | todo | malformed =>
      unfold Expr.layout
      split <;> exact line _
  | quant q x d r _ ih =>
      have binder : Tree.Spread (.list [.list [.word x, d.part d.tree]])
          (listed [listed [x, d.asPart d.render]]) :=
        .listed (.cons (.listed (.cons (.word x) (.cons (spread_part (line d)) .nil))) .nil)
      unfold Expr.layout
      split
      · exact line _
      · exact .stacked (.cons (.word _) (.cons binder (.cons (spread_part (ih _)) .nil))) level
  | _ =>
      unfold Expr.layout
      split
      · exact line _
      · refine .stacked ?_ level
        simp_all [Expr.spread_part, Tree.Spread.word, Tree.Spread.listed, Keyword.word]

/-- Laying out changes nothing but the spaces between the items of lists: the line of an expression and
its layout are texts of one tree, at any width and level. In particular they consist of the same
characters, whatever counts as blank besides spaces and line breaks. -/
theorem layout_changes_gaps_only (width : Int) (e : Expr) (level : Int) :
    e.tree.text = e.render ∧ e.tree.Spread (e.layout width level) ∧
    ∀ blank : Char → Bool, blank ' ' = true → blank '\n' = true →
      (e.layout width level).toList.filter (!blank ·) = e.render.toList.filter (!blank ·) := by
  have spread := e.spread_layout width level
  refine ⟨e.text_tree, spread, ?_⟩
  intro blank space newline
  rw [spread.filter_eq space newline, e.text_tree]

example : Expr.layout 12 (.app (.var "f") (.pi "x" .nat (.malformed (.text "a b")))) 0 =
    "(f (Π ((x Nat))\n    a b))" := by decide

end TypeKernel
