/-
# TypeKernel.Expr.Layout — expressions over several lines

`layout` writes an expression on one line if it fits the width at its level. Otherwise the head
and the first part stay on the opening line and every further part starts a line of its own, one
level deeper. Binders stay on one line, and a name, atom or constant is never broken.
-/
import TypeKernel.Expr.Printer

namespace TypeKernel.Expr

set_option autoImplicit false

/-- The blanks in front of a line at the given level; none at a negative level. -/
def margin (level : Int) : String :=
  String.ofList (List.replicate (2 * level.toNat) ' ')

/-- Parts that each start a line of their own. -/
def continued (level : Int) : List String → String
  | [] => ""
  | part :: parts => "\n" ++ margin level ++ part ++ continued level parts

/-- A list broken after its second entry. -/
def stacked (level : Int) (parts : List String) : String :=
  "(" ++ spaced (parts.take 2) ++ continued (level + 1) (parts.drop 2) ++ ")"

/-- Whether a line at the given level stays within the width, counted in characters. -/
def fits (width level : Int) (line : String) : Bool :=
  (line.length : Int) + level * 2 ≤ width

/-- An expression at the given level, broken wherever it does not fit the width. -/
def layout (width : Int) (e : Expr) (level : Int) : String :=
  if fits width level e.render then e.render
  else match e with
    | .unary u a => stacked level [u.word, a.asPart (layout width a (level + 1))]
    | .binary b a₁ a₂ =>
        stacked level [b.word, a₁.asPart (layout width a₁ (level + 1)),
          a₂.asPart (layout width a₂ (level + 1))]
    | .equal t l r =>
        stacked level ["=", t.asPart (layout width t (level + 1)),
          l.asPart (layout width l (level + 1)), r.asPart (layout width r (level + 1))]
    | .quant q x d r =>
        stacked level [q.word, listed [listed [x, d.asPart d.render]],
          r.asPart (layout width r (level + 1))]
    | .lam x b => stacked level ["λ", listed [x], b.asPart (layout width b (level + 1))]
    | .the t a =>
        stacked level ["the", t.asPart (layout width t (level + 1)),
          a.asPart (layout width a (level + 1))]
    | .app f a =>
        stacked level [f.asPart (layout width f (level + 1)),
          a.asPart (layout width a (level + 1))]
    | .proj p t => stacked level [p.word, t.asPart (layout width t (level + 1))]
    | .fold f t b s =>
        stacked level [f.word, t.asPart (layout width t (level + 1)),
          b.asPart (layout width b (level + 1)), s.asPart (layout width s (level + 1))]
    | .induct i t m b s =>
        stacked level [i.word, t.asPart (layout width t (level + 1)),
          m.asPart (layout width m (level + 1)), b.asPart (layout width b (level + 1)),
          s.asPart (layout width s (level + 1))]
    | .transport k t m b =>
        stacked level [k.word, t.asPart (layout width t (level + 1)),
          m.asPart (layout width m (level + 1)), b.asPart (layout width b (level + 1))]
    | .indAbsurd t m =>
        stacked level ["ind-Absurd", t.asPart (layout width t (level + 1)),
          m.asPart (layout width m (level + 1))]
    | .indVec n t m b s =>
        stacked level ["ind-Vec", n.asPart (layout width n (level + 1)),
          t.asPart (layout width t (level + 1)), m.asPart (layout width m (level + 1)),
          b.asPart (layout width b (level + 1)), s.asPart (layout width s (level + 1))]
    | .trans l r =>
        stacked level ["trans", l.asPart (layout width l (level + 1)),
          r.asPart (layout width r (level + 1))]
    | .cong t f =>
        stacked level ["cong", t.asPart (layout width t (level + 1)),
          f.asPart (layout width f (level + 1))]
    | .var _ | .quote _ | .const _ | .todo | .malformed _ => e.render

/-- The width that is used when none is asked for. -/
def defaultWidth : Int := 80

end TypeKernel.Expr
