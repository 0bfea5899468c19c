/-
# TypeKernel.Expr.Printer — expressions on one line

`render` writes an expression as a parenthesized list of its head and parts, separated by single
spaces. Names, quoted atoms and forms without parts stand alone; an application has no head word.
-/
import TypeKernel.Expr.Basic
import TypeKernel.Text.Quoted

namespace TypeKernel

set_option autoImplicit false

def Const.word : Const → String
  | .univ => "U"
  | .nat => "Nat"
  | .atom => "Atom"
  | .trivial => "Trivial"
  | .absurd => "Absurd"
  | .zero => "zero"
  | .sole => "sole"
  | .nil => "nil"
  | .vecNil => "vecnil"

def Unary.word : Unary → String
  | .list => "List"
  | .add1 => "add1"
  | .left => "left"
  | .right => "right"
  | .same => "same"

def Binary.word : Binary → String
  | .vec => "Vec"
  | .either => "Either"
  | .cons => "cons"
  | .listCons => "::"
  | .vecCons => "vec::"

def Quantifier.word : Quantifier → String
  | .pi => "Π"
  | .sigma => "Σ"

def Projection.word : Projection → String
  | .car => "car"
  | .cdr => "cdr"
  | .head => "head"
  | .tail => "tail"
  | .symm => "symm"

def Fold.word : Fold → String
  | .whichNat => "which-Nat"
  | .iterNat => "iter-Nat"
  | .recNat => "rec-Nat"
  | .recList => "rec-List"

def Induction.word : Induction → String
  | .indNat => "ind-Nat"
  | .indList => "ind-List"
  | .indEither => "ind-Either"

def Transport.word : Transport → String
  | .replace => "replace"
  | .indEqual => "ind-="

/-- What is shown of a malformed item. -/
def Malformed.label : Malformed → String
  | .int n => toString n
  | .text s => Text.quoted s
  | .unknown => "<pie.core.Core object>"

namespace Expr

def spaced : List String → String
  | [] => ""
  | [w] => w
  | w :: ws => w ++ " " ++ spaced ws

def listed (words : List String) : String :=
  "(" ++ spaced words ++ ")"

/-- The text of a part: `text`, except that a bare text in the place of a part stands as it is. -/
def asPart : Expr → String → String
  | .malformed (.text s), _ => s
  | _, text => text

/-- An expression on one line. -/
def render : Expr → String
  | .var x => x
  | .quote a => "'" ++ a
  | .const c => c.word
  | .unary u e => listed [u.word, e.asPart e.render]
  | .binary b e₁ e₂ => listed [b.word, e₁.asPart e₁.render, e₂.asPart e₂.render]
  | .equal t l r => listed ["=", t.asPart t.render, l.asPart l.render, r.asPart r.render]
  | .quant q x d r => listed [q.word, listed [listed [x, d.asPart d.render]], r.asPart r.render]
  | .lam x b => listed ["λ", listed [x], b.asPart b.render]
  | .the t e => listed ["the", t.asPart t.render, e.asPart e.render]
  | .app f a => listed [f.asPart f.render, a.asPart a.render]
  | .proj p t => listed [p.word, t.asPart t.render]
  | .fold f t b s => listed [f.word, t.asPart t.render, b.asPart b.render, s.asPart s.render]
  | .induct i t m b s =>
      listed [i.word, t.asPart t.render, m.asPart m.render, b.asPart b.render, s.asPart s.render]
  | .transport k t m b => listed [k.word, t.asPart t.render, m.asPart m.render, b.asPart b.render]
  | .indAbsurd t m => listed ["ind-Absurd", t.asPart t.render, m.asPart m.render]
  | .indVec n t m b s =>
      listed ["ind-Vec", n.asPart n.render, t.asPart t.render, m.asPart m.render,
        b.asPart b.render, s.asPart s.render]
  | .trans l r => listed ["trans", l.asPart l.render, r.asPart r.render]
  | .cong t f => listed ["cong", t.asPart t.render, f.asPart f.render]
  | .todo => "TODO"
  | .malformed m => listed [m.label]

end Expr

end TypeKernel
