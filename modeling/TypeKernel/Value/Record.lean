/-
# TypeKernel.Value.Record — values as records

Values are written like expressions, with the tags of values and of neutral forms. A delayed value
shows its expression as long as its cell is empty, and the result once it has one; the text thus
tells which cells have been forced. What a cell holds is given by the function `shown`.
-/
import TypeKernel.Expr.Record
import TypeKernel.Value.Basic

namespace TypeKernel

set_option autoImplicit false

def Shape.tag : Shape → String
  | .const c => "V" ++ c.tag
  | .quote => "VQuote"
  | .unary u => "V" ++ u.tag
  | .binary b => "V" ++ b.tag
  | .equal => "VEqual"
  | .quant q => "V" ++ q.tag
  | .lam => "VLambda"
  | .neutral => "Neutral"
  | .delayed => "Delay"

/-- The body of a closure on one line; a malformed number or text stands as it is. -/
def Expr.renderBody : Expr → String
  | .malformed (.int n) => toString n
  | .malformed (.text s) => s
  | e => e.render

/-- A closure shows its parameter and, if it has one, its body. -/
def Closure.describe : Closure → String
  | .code _ x body => "(closure (" ++ x ++ ") " ++ body.renderBody ++ ")"
  | .family x _ => "<closure (" ++ x ++ ") <fn>>"

mutual

/-- A value as a record, where `shown` gives the text of the results that cells hold. -/
def Value.describe (shown : Nat → Option String) : Value → String
  | .const c => record (Shape.const c).tag []
  | .quote a => record Shape.quote.tag [("atom", Text.quoted a)]
  | .unary u v => record (Shape.unary u).tag [(u.field, v.describe shown)]
  | .binary b v w =>
      record (Shape.binary b).tag
        [(b.fields.1, v.describe shown), (b.fields.2, w.describe shown)]
  | .equal t v w =>
      record Shape.equal.tag
        [("type", t.describe shown), ("from_", v.describe shown), ("to", w.describe shown)]
  | .quant q x d r =>
      record (Shape.quant q).tag
        [("name", describeName x), (q.fields.1, d.describe shown), (q.fields.2, r.describe)]
  | .lam x b => record Shape.lam.tag [("param", describeName x), ("body", b.describe)]
  | .neutral t n =>
      record Shape.neutral.tag [("type", t.describe shown), ("neutral", n.describe shown)]
  | .delayed cell _ e =>
      match shown cell with
      | some text => record Shape.delayed.tag [("forced", text)]
      | none => Shape.delayed.tag ++ "(" ++ e.describe ++ ")"

def Neutral.describe (shown : Nat → Option String) : Neutral → String
  | .var x => record "NVar" [("name", describeName x)]
  | .app f a => record "NApplication" [("fn", f.describe shown), ("arg", a.describe shown)]
  | .proj p t => record ("N" ++ p.tag) [("target", t.describe shown)]
  | .fold f t b s =>
      record ("N" ++ f.tag)
        [("target", t.describe shown), ("base", b.describe shown), ("step", s.describe shown)]
  | .induct i t m b s =>
      record ("N" ++ i.tag)
        [("target", t.describe shown), ("motive", m.describe shown),
          (i.fields.1, b.describe shown), (i.fields.2, s.describe shown)]
  | .transport k t m b =>
      record ("N" ++ k.tag)
        [("target", t.describe shown), ("motive", m.describe shown), ("base", b.describe shown)]
  | .indAbsurd t m =>
      record "NIndAbsurd" [("target", t.describe shown), ("motive", m.describe shown)]
  | .indVec n t m b s =>
      record "NIndVec"
        [("length", n.describe shown), ("target", t.describe shown),
          ("motive", m.describe shown), ("base", b.describe shown), ("step", s.describe shown)]
  | .trans l r => record "NTrans" [("left", l.describe shown), ("right", r.describe shown)]
  | .cong t f => record "NCong" [("target", t.describe shown), ("fun", f.describe shown)]

def Typed.describe (shown : Nat → Option String) : Typed → String
  | .mk t v => record "TypedValue" [("type", t.describe shown), ("value", v.describe shown)]

end

/-- An environment as a record, nearest binding first. -/
def Env.describe (shown : Nat → Option String) (ρ : Env) : String :=
  "<Environment \x7b"
    ++ commaSeparated (ρ.toList.map fun (x, v) => x ++ ": " ++ v.describe shown) ++ "\x7d>"

end TypeKernel
