/-
# TypeKernel.Expr.Record — expressions as records

`describe` writes an expression as a record: the tag of its form and each part under the name of
its field, `Add1(smaller=Zero())`. Values use the same tags and field names.
-/
import TypeKernel.Expr.Printer

namespace TypeKernel

set_option autoImplicit false

def Const.tag : Const → String
  | .univ => "Universe"
  | .nat => "Nat"
  | .atom => "Atom"
  | .trivial => "Trivial"
  | .absurd => "Absurd"
  | .zero => "Zero"
  | .sole => "Sole"
  | .nil => "Nil"
  | .vecNil => "VecNil"

def Unary.tag : Unary → String
  | .list => "List"
  | .add1 => "Add1"
  | .left => "Left"
  | .right => "Right"
  | .same => "Same"

def Unary.field : Unary → String
  | .list => "entry_type"
  | .add1 => "smaller"
  | .left | .right | .same => "value"

def Binary.tag : Binary → String
  | .vec => "Vec"
  | .either => "Either"
  | .cons => "Cons"
  | .listCons => "ListCons"
  | .vecCons => "VecCons"

def Binary.fields : Binary → String × String
  | .vec => ("entry_type", "length")
  | .either => ("left_type", "right_type")
  | .cons => ("car", "cdr")
  | .listCons | .vecCons => ("head", "tail")

def Quantifier.tag : Quantifier → String
  | .pi => "Pi"
  | .sigma => "Sigma"

def Quantifier.fields : Quantifier → String × String
  | .pi => ("arg_type", "result_type")
  | .sigma => ("car_type", "cdr_type")

def Projection.tag : Projection → String
  | .car => "Car"
  | .cdr => "Cdr"
  | .head => "Head"
  | .tail => "Tail"
  | .symm => "Symm"

def Projection.field : Projection → String
  | .car | .cdr => "pair"
  | .head | .tail => "vec"
  | .symm => "target"

def Fold.tag : Fold → String
  | .whichNat => "WhichNat"
  | .iterNat => "IterNat"
  | .recNat => "RecNat"
  | .recList => "RecList"

def Induction.tag : Induction → String
  | .indNat => "IndNat"
  | .indList => "IndList"
  | .indEither => "IndEither"

def Induction.fields : Induction → String × String
  | .indNat | .indList => ("base", "step")
  | .indEither => ("base_left", "base_right")

def Transport.tag : Transport → String
  | .replace => "Replace"
  | .indEqual => "IndEqual"

def commaSeparated : List String → String
  | [] => ""
  | [w] => w
  | w :: ws => w ++ ", " ++ commaSeparated ws

/-- A record: its tag, and its fields in order. -/
def record (tag : String) (fields : List (String × String)) : String :=
  tag ++ "(" ++ commaSeparated (fields.map fun (field, text) => field ++ "=" ++ text) ++ ")"

def describeName (x : Name) : String :=
  "Symbol(" ++ Text.quoted x ++ ")"

def Expr.describe : Expr → String
  | .var x => record "Var" [("name", describeName x)]
  | .quote a => record "Quote" [("atom", Text.quoted a)]
  | .const c => record c.tag []
  | .unary u e => record u.tag [(u.field, e.describe)]
  | .binary b e₁ e₂ => record b.tag [(b.fields.1, e₁.describe), (b.fields.2, e₂.describe)]
  | .equal t l r => record "Equal" [("type", t.describe), ("from_", l.describe), ("to", r.describe)]
  | .quant q x d r =>
      record q.tag [("name", describeName x), (q.fields.1, d.describe), (q.fields.2, r.describe)]
  | .lam x b => record "Lambda" [("param", describeName x), ("body", b.describe)]
  | .the t e => record "The" [("type", t.describe), ("expr", e.describe)]
  | .app f a => record "Application" [("fn", f.describe), ("arg", a.describe)]
  | .proj p t => record p.tag [(p.field, t.describe)]
  | .fold f t b s =>
      record f.tag [("target", t.describe), ("base", b.describe), ("step", s.describe)]
  | .induct i t m b s =>
      record i.tag [("target", t.describe), ("motive", m.describe), (i.fields.1, b.describe),
        (i.fields.2, s.describe)]
  | .transport k t m b =>
      record k.tag [("target", t.describe), ("motive", m.describe), ("base", b.describe)]
  | .indAbsurd t m => record "IndAbsurd" [("target", t.describe), ("motive", m.describe)]
  | .indVec n t m b s =>
      record "IndVec" [("length", n.describe), ("target", t.describe), ("motive", m.describe),
        ("base", b.describe), ("step", s.describe)]
  | .trans l r => record "Trans" [("left", l.describe), ("right", r.describe)]
  | .cong t f => record "Cong" [("target", t.describe), ("fun", f.describe)]
  | .todo => record "Todo" []
  | .malformed m => m.label

end TypeKernel
