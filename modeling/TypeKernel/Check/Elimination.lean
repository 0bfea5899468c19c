/-
# TypeKernel.Check.Elimination — rules of the eliminators

The target of an eliminator shows its type, which must have the right head. The other arguments are
checked against types that are computed from it. Where evaluation will need the type of a base or of
a function to rebuild a stuck eliminator, the elaborated argument is annotated with it.
-/
import TypeKernel.Check.Introduction
import TypeKernel.Expr.Scope

namespace TypeKernel

set_option autoImplicit false

namespace Value

def isNat? : Value → Option Unit
  | .nat => some ()
  | _ => none

def isAbsurd? : Value → Option Unit
  | .absurd => some ()
  | _ => none

def listEntry? : Value → Option Value
  | .list entry => some entry
  | _ => none

def vecParts? : Value → Option (Value × Value)
  | .vec entry length => some (entry, length)
  | _ => none

def eitherParts? : Value → Option (Value × Value)
  | .either l r => some (l, r)
  | _ => none

def equalParts? : Value → Option (Value × Value × Value)
  | .equal type start finish => some (type, start, finish)
  | _ => none

end Value

namespace Check

open Machine

variable {m : Type → Type} [Machine m] (n : Nat)

/-- Synthesize a target and insist on the head of its type, whose parts `view` gives. -/
def target {α : Type} (eliminator : Eliminator) (head : TypeHead) (view : Value → Option α)
    (subject : Judgments m) (Γ : Context) (r : Renaming) : m (Expr × α) := do
  let (core, type) ← subject.synth Γ r
  let type ← type.force n
  match view type with
  | some parts => return (core, parts)
  | none => do
      let t ← readBackType n Γ type
      reject (.wrongTarget eliminator head t)

/-- Synthesize a proof of equality. -/
def equality (eliminator : Eliminator) (subject : Judgments m) (Γ : Context) (r : Renaming) :
    m (Expr × Value × Value × Value) :=
  target n eliminator .equal Value.equalParts? subject Γ r

def app (f a : Expr) (fn arg : Judgments m) : Judgments m :=
  ofSynthesis n (.app f a) fun Γ r => do
    let (fnCore, type) ← fn.synth Γ r
    match ← type.force n with
    | .pi _ domain range => do
        let argCore ← arg.check Γ r domain
        let v ← valueOf n Γ argCore
        let result ← range.apply n v
        return (.app fnCore argCore, result)
    | type => do
        let t ← readBackType n Γ type
        reject (.notAFunction t)

/-- Synthesize a pair, and the two parts of its type. -/
def pair (p : Projection) (subject : Judgments m) (Γ : Context) (r : Renaming) :
    m (Expr × Value × Closure) := do
  let (core, type) ← subject.synth Γ r
  match ← type.force n with
  | .sigma _ domain range => return (core, domain, range)
  | type => do
      let t ← readBackType n Γ type
      reject (.notAPair p t)

def projRule (p : Projection) (subject : Judgments m) (Γ : Context) (r : Renaming) :
    m (Expr × Value) :=
  match p with
  | .car => do
      let (core, domain, _) ← pair n .car subject Γ r
      return (.proj .car core, domain)
  | .cdr => do
      let (core, _, range) ← pair n .cdr subject Γ r
      let v ← valueOf n Γ core
      let a ← Eval.car (run n) v
      let result ← range.apply n a
      return (.proj .cdr core, result)
  | .head => do
      let (core, entry, length) ← target n (.proj .head) .vec Value.vecParts? subject Γ r
      let _ ← nonemptyLength n Γ Projection.head.word entry length
      return (.proj .head core, entry)
  | .tail => do
      let (core, entry, length) ← target n (.proj .tail) .vec Value.vecParts? subject Γ r
      let smaller ← nonemptyLength n Γ Projection.tail.word entry length
      return (.proj .tail core, .vec entry smaller)
  | .symm => do
      let (core, type, start, finish) ← equality n (.proj .symm) subject Γ r
      return (.proj .symm core, .equal type finish start)

def proj (p : Projection) (t : Expr) (subject : Judgments m) : Judgments m :=
  ofSynthesis n (.proj p t) (projRule n p subject)

/-- The base and step of a fold: the step's type is computed from the type of the base. -/
def baseAndStep (stepType : Value → Value) (base step : Judgments m) (Γ : Context)
    (r : Renaming) : m (Expr × Expr × Value) := do
  let (baseCore, type) ← base.synth Γ r
  let stepCore ← step.check Γ r (stepType type)
  let t ← readBackType n Γ type
  return (baseCore.annotate t, stepCore, type)

def natFoldRule (f : Fold) (stepType : Value → Value) (subject base step : Judgments m)
    (Γ : Context) (r : Renaming) : m (Expr × Value) := do
  let (core, _) ← target n (.fold f) .nat Value.isNat? subject Γ r
  let (baseCore, stepCore, type) ← baseAndStep n stepType base step Γ r
  return (.fold f core baseCore stepCore, type)

def foldRule (f : Fold) (subject base step : Judgments m) (Γ : Context) (r : Renaming) :
    m (Expr × Value) :=
  match f with
  | .whichNat => natFoldRule n .whichNat Value.whichNatStep subject base step Γ r
  | .iterNat => natFoldRule n .iterNat Value.iterNatStep subject base step Γ r
  | .recNat => natFoldRule n .recNat Value.recNatStep subject base step Γ r
  | .recList => do
      let (core, entry) ← target n (.fold .recList) .list Value.listEntry? subject Γ r
      let (baseCore, stepCore, type) ← baseAndStep n (Value.recListStep entry) base step Γ r
      return (.fold .recList core baseCore stepCore, type)

def fold (f : Fold) (t b s : Expr) (subject base step : Judgments m) : Judgments m :=
  ofSynthesis n (.fold f t b s) (foldRule n f subject base step)

def inductRule (i : Induction) (subject motive base step : Judgments m) (Γ : Context)
    (r : Renaming) : m (Expr × Value) :=
  match i with
  | .indNat => do
      let (core, _) ← target n (.induct .indNat) .nat Value.isNat? subject Γ r
      let motiveCore ← motive.check Γ r .natMotive
      let mo ← valueOf n Γ motiveCore
      let atZero ← mo.call n .zero
      let baseCore ← base.check Γ r atZero
      let stepCore ← step.check Γ r (.indNatStep mo)
      let v ← valueOf n Γ core
      let result ← mo.call n v
      return (.induct .indNat core motiveCore baseCore stepCore, result)
  | .indList => do
      let (core, entry) ← target n (.induct .indList) .list Value.listEntry? subject Γ r
      let motiveCore ← motive.check Γ r (.listMotive entry)
      let mo ← valueOf n Γ motiveCore
      let atNil ← mo.call n .nil
      let baseCore ← base.check Γ r atNil
      let stepCore ← step.check Γ r (.indListStep entry mo)
      let v ← valueOf n Γ core
      let result ← mo.call n v
      return (.induct .indList core motiveCore baseCore stepCore, result)
  | .indEither => do
      let (core, a, b) ← target n (.induct .indEither) .either Value.eitherParts? subject Γ r
      let motiveCore ← motive.check Γ r (.simpleMotive (.either a b))
      let mo ← valueOf n Γ motiveCore
      let leftCore ← base.check Γ r (.eitherCase .left a mo)
      let rightCore ← step.check Γ r (.eitherCase .right b mo)
      let v ← valueOf n Γ core
      let result ← mo.call n v
      return (.induct .indEither core motiveCore leftCore rightCore, result)

def induct (i : Induction) (t mo b s : Expr) (subject motive base step : Judgments m) :
    Judgments m :=
  ofSynthesis n (.induct i t mo b s) (inductRule n i subject motive base step)

def indVec (k t mo b s : Expr) (length subject motive base step : Judgments m) : Judgments m :=
  ofSynthesis n (.indVec k t mo b s) fun Γ r => do
    let lengthCore ← length.check Γ r .nat
    let len ← valueOf n Γ lengthCore
    let (core, entry, found) ← target n .indVec .vec Value.vecParts? subject Γ r
    requireSame n Γ .nat len found
    let motiveCore ← motive.check Γ r (.vecMotive entry)
    let mo ← valueOf n Γ motiveCore
    let atNil ← mo.callBoth n .zero .vecNil
    let baseCore ← base.check Γ r atNil
    let stepCore ← step.check Γ r (.indVecStep entry mo)
    let fn ← mo.call n len
    let v ← valueOf n Γ core
    let result ← fn.call n v
    return (.indVec lengthCore core motiveCore baseCore stepCore, result)

def indAbsurd (t mo : Expr) (subject motive : Judgments m) : Judgments m :=
  ofSynthesis n (.indAbsurd t mo) fun Γ r => do
    let (core, _) ← target n .indAbsurd .absurd Value.isAbsurd? subject Γ r
    let motiveCore ← motive.check Γ r .univ
    let result ← valueOf n Γ motiveCore
    return (.indAbsurd (core.annotate .absurd) motiveCore, result)

def transportRule (k : Transport) (subject motive base : Judgments m) (Γ : Context)
    (r : Renaming) : m (Expr × Value) :=
  match k with
  | .replace => do
      let (core, type, start, finish) ← equality n (.transport .replace) subject Γ r
      let motiveCore ← motive.check Γ r (.simpleMotive type)
      let mo ← valueOf n Γ motiveCore
      let atStart ← mo.call n start
      let baseCore ← base.check Γ r atStart
      let result ← mo.call n finish
      return (.transport .replace core motiveCore baseCore, result)
  | .indEqual => do
      let (core, type, start, finish) ← equality n (.transport .indEqual) subject Γ r
      let motiveCore ← motive.check Γ r (.equalMotive type start)
      let mo ← valueOf n Γ motiveCore
      let atStart ← mo.callBoth n start (.same start)
      let baseCore ← base.check Γ r atStart
      let fn ← mo.call n finish
      let v ← valueOf n Γ core
      let result ← fn.call n v
      return (.transport .indEqual core motiveCore baseCore, result)

def transport (k : Transport) (t mo b : Expr) (subject motive base : Judgments m) :
    Judgments m :=
  ofSynthesis n (.transport k t mo b) (transportRule n k subject motive base)

def trans (a b : Expr) (left right : Judgments m) : Judgments m :=
  ofSynthesis n (.trans a b) fun Γ r => do
    let (leftCore, type, start, middle) ← equality n .trans left Γ r
    let (rightCore, type', middle', finish) ← equality n .trans right Γ r
    requireSameType n Γ type type'
    requireSame n Γ type middle middle'
    return (.trans leftCore rightCore, .equal type start finish)

/-- The range of a function type, which must not mention the argument. -/
def simpleRange (Γ : Context) (x : Name) (domain : Value) (range : Closure) : m Value := do
  let y ← freshName Γ x
  let result ← range.apply n (.ofVar y domain)
  let core ← readBackType n (Γ.bindFree y domain) result
  if ← answered (core.occursFree y) then do
    let t ← readBackType n Γ (.pi x domain range)
    reject (.dependentFunction t)
  else valueOf n Γ core

def cong (t f : Expr) (subject fn : Judgments m) : Judgments m :=
  ofSynthesis n (.cong t f) fun Γ r => do
    let (core, type, start, finish) ← equality n .cong subject Γ r
    let (fnCore, fnType) ← fn.synth Γ r
    match ← fnType.force n with
    | .pi x domain range => do
        requireSameType n Γ domain type
        let result ← simpleRange n Γ x domain range
        let g ← valueOf n Γ fnCore
        let start ← g.call n start
        let finish ← g.call n finish
        let t ← readBackType n Γ (.pi x domain range)
        return (.cong core (fnCore.annotate t), .equal result start finish)
    | fnType => do
        let t ← readBackType n Γ fnType
        reject (.wrongTarget .cong .pi t)

end Check

end TypeKernel
