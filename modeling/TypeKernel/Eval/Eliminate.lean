/-
# TypeKernel.Eval.Eliminate — the rules of the eliminators

Every eliminator forces its target. A constructor reduces. A neutral target gives the neutral form
of the eliminator at its result type, with every other argument recorded at the type at which it
reads back. Any other target is a defect.
-/
import TypeKernel.Eval.Request

namespace TypeKernel.Eval

set_option autoImplicit false

open Machine

variable {m : Type → Type} [Machine m] (ask : Request → m Value)

/-- Apply a function value. -/
def call (fn arg : Value) : m Value := do
  match ← ask (.force fn) with
  | .lam _ body => ask (.apply body arg)
  | .neutral type stuck => do
      match ← ask (.force type) with
      | .pi _ domain range => do
          let result ← ask (.apply range arg)
          return .neutral result (.app stuck (.mk domain arg))
      | _ => irreducible .application (.neutral type stuck)
  | v => irreducible .application v

def callBoth (fn arg₁ arg₂ : Value) : m Value := do
  let result ← call ask fn arg₁
  call ask result arg₂

/-- The value of a family at an argument. -/
def applyFamily (arg : Value) : Family → m Value
  | .always type => return type
  | .fixed motive v => call ask motive v
  | .fixedBoth motive v w => callBoth ask motive v w
  | .wrapped u motive => call ask motive (.unary u arg)
  | .natStep motive => do
      let here ← call ask motive arg
      return .piFamily "ih" here (.fixed motive (.add1 arg))
  | .listStep entry motive => return .piFamily "es" (.list entry) (.listStepTail motive arg)
  | .listStepTail motive head => do
      let here ← call ask motive arg
      return .piFamily "ih" here (.fixed motive (.listCons head arg))
  | .vecMotive entry => return .piFamily "es" (.vec entry arg) (.always .univ)
  | .vecStep entry motive => return .piFamily "e" entry (.vecStepHead entry motive arg)
  | .vecStepHead entry motive length =>
      return .piFamily "es" (.vec entry length) (.vecStepTail motive length arg)
  | .vecStepTail motive length head => do
      let here ← callBoth ask motive length arg
      return .piFamily "ih" here (.fixedBoth motive (.add1 length) (.vecCons head arg))
  | .equalMotive type left => return .piFamily "p" (.equal type left arg) (.always .univ)

/-- The type of the base of a stuck eliminator, which only an annotated base has. -/
def requireType (eliminator : Eliminator) : Option Value → m Value
  | some type => return type
  | none => defect (.untypedBase eliminator)

def entryType (eliminator : Eliminator) (type : Value) (stuck : Neutral) : m Value := do
  match ← ask (.force type) with
  | .list entry => return entry
  | _ => irreducible eliminator (.neutral type stuck)

/-- The type and endpoints of a neutral proof of equality. -/
def equalityOf (eliminator : Eliminator) (type : Value) (stuck : Neutral) :
    m (Value × Value × Value) := do
  match ← ask (.force type) with
  | .equal type left right => return (type, left, right)
  | _ => irreducible eliminator (.neutral type stuck)

def car (pair : Value) : m Value := do
  match ← ask (.force pair) with
  | .cons a _ => return a
  | .neutral type stuck => do
      match ← ask (.force type) with
      | .sigma _ domain _ => return .neutral domain (.proj .car stuck)
      | _ => irreducible (.proj .car) (.neutral type stuck)
  | v => irreducible (.proj .car) v

def cdr (pair : Value) : m Value := do
  match ← ask (.force pair) with
  | .cons _ d => return d
  | .neutral type stuck => do
      match ← ask (.force type) with
      | .sigma _ domain range => do
          let result ← ask (.apply range (.neutral domain (.proj .car stuck)))
          return .neutral result (.proj .cdr stuck)
      | _ => irreducible (.proj .cdr) (.neutral type stuck)
  | v => irreducible (.proj .cdr) v

def head (vec : Value) : m Value := do
  match ← ask (.force vec) with
  | .vecCons e _ => return e
  | .neutral type stuck => do
      match ← ask (.force type) with
      | .vec entry _ => return .neutral entry (.proj .head stuck)
      | _ => irreducible (.proj .head) (.neutral type stuck)
  | v => irreducible (.proj .head) v

def tail (vec : Value) : m Value := do
  match ← ask (.force vec) with
  | .vecCons _ es => return es
  | .neutral type stuck => do
      match ← ask (.force type) with
      | .vec entry length => do
          match ← ask (.force length) with
          | .add1 smaller => return .neutral (.vec entry smaller) (.proj .tail stuck)
          | _ => irreducible (.proj .tail) (.neutral type stuck)
      | _ => irreducible (.proj .tail) (.neutral type stuck)
  | v => irreducible (.proj .tail) v

def symm (target : Value) : m Value := do
  match ← ask (.force target) with
  | .same v => return .same v
  | .neutral type stuck => do
      let (type, left, right) ← equalityOf ask (.proj .symm) type stuck
      return .neutral (.equal type right left) (.proj .symm stuck)
  | v => irreducible (.proj .symm) v

def project : Projection → Value → m Value
  | .car => car ask
  | .cdr => cdr ask
  | .head => head ask
  | .tail => tail ask
  | .symm => symm ask

/-- A fold over numbers that is stuck. -/
def stuckNatFold (f : Fold) (stepType : Value → Value) (stuck : Neutral)
    (baseType : Option Value) (base step : Value) : m Value := do
  let type ← requireType (.fold f) baseType
  return .neutral type (.fold f stuck (.mk type base) (.mk (stepType type) step))

def whichNat (target : Value) (baseType : Option Value) (base step : Value) : m Value := do
  match ← ask (.force target) with
  | .zero => return base
  | .add1 smaller => call ask step smaller
  | .neutral _ stuck => stuckNatFold .whichNat Value.whichNatStep stuck baseType base step
  | v => irreducible (.fold .whichNat) v

def iterNat (target : Value) (baseType : Option Value) (base step : Value) : m Value := do
  match ← ask (.force target) with
  | .zero => return base
  | .add1 smaller => do
      let result ← ask (.fold .iterNat smaller baseType base step)
      call ask step result
  | .neutral _ stuck => stuckNatFold .iterNat Value.iterNatStep stuck baseType base step
  | v => irreducible (.fold .iterNat) v

def recNat (target : Value) (baseType : Option Value) (base step : Value) : m Value := do
  match ← ask (.force target) with
  | .zero => return base
  | .add1 smaller => do
      let fn ← call ask step smaller
      let result ← ask (.fold .recNat smaller baseType base step)
      call ask fn result
  | .neutral _ stuck => stuckNatFold .recNat Value.recNatStep stuck baseType base step
  | v => irreducible (.fold .recNat) v

def recList (target : Value) (baseType : Option Value) (base step : Value) : m Value := do
  match ← ask (.force target) with
  | .nil => return base
  | .listCons e es => do
      let fn ← callBoth ask step e es
      let result ← ask (.fold .recList es baseType base step)
      call ask fn result
  | .neutral type stuck => do
      let result ← requireType (.fold .recList) baseType
      let entry ← entryType ask (.fold .recList) type stuck
      return .neutral result
        (.fold .recList stuck (.mk result base) (.mk (Value.recListStep entry result) step))
  | v => irreducible (.fold .recList) v

def fold : Fold → Value → Option Value → Value → Value → m Value
  | .whichNat => whichNat ask
  | .iterNat => iterNat ask
  | .recNat => recNat ask
  | .recList => recList ask

def indNat (target motive base step : Value) : m Value := do
  match ← ask (.force target) with
  | .zero => return base
  | .add1 smaller => do
      let fn ← call ask step smaller
      let result ← ask (.induct .indNat smaller motive base step)
      call ask fn result
  | .neutral type stuck => do
      let result ← call ask motive (.neutral type stuck)
      let atZero ← call ask motive .zero
      return .neutral result
        (.induct .indNat stuck (.mk .natMotive motive) (.mk atZero base)
          (.mk (.indNatStep motive) step))
  | v => irreducible (.induct .indNat) v

def indList (target motive base step : Value) : m Value := do
  match ← ask (.force target) with
  | .nil => return base
  | .listCons e es => do
      let fn ← callBoth ask step e es
      let result ← ask (.induct .indList es motive base step)
      call ask fn result
  | .neutral type stuck => do
      let entry ← entryType ask (.induct .indList) type stuck
      let result ← call ask motive (.neutral type stuck)
      let atNil ← call ask motive .nil
      return .neutral result
        (.induct .indList stuck (.mk (.listMotive entry) motive) (.mk atNil base)
          (.mk (.indListStep entry motive) step))
  | v => irreducible (.induct .indList) v

def indEither (target motive onLeft onRight : Value) : m Value := do
  match ← ask (.force target) with
  | .left v => call ask onLeft v
  | .right v => call ask onRight v
  | .neutral type stuck => do
      match ← ask (.force type) with
      | .either l r => do
          let result ← call ask motive (.neutral type stuck)
          return .neutral result
            (.induct .indEither stuck (.mk (.simpleMotive (.either l r)) motive)
              (.mk (.eitherCase .left l motive) onLeft)
              (.mk (.eitherCase .right r motive) onRight))
      | _ => irreducible (.induct .indEither) (.neutral type stuck)
  | v => irreducible (.induct .indEither) v

def induct : Induction → Value → Value → Value → Value → m Value
  | .indNat => indNat ask
  | .indList => indList ask
  | .indEither => indEither ask

def indVec (length target motive base step : Value) : m Value := do
  match ← ask (.force target) with
  | .vecNil => return base
  | .vecCons e es => do
      match ← ask (.force length) with
      | .add1 smaller => do
          let fn ← callBoth ask step smaller e
          let fn ← call ask fn es
          let result ← ask (.indVec smaller es motive base step)
          call ask fn result
      | v => irreducible .indVec v
  | .neutral type stuck => do
      match ← ask (.force type) with
      | .vec entry _ => do
          let result ← callBoth ask motive length (.neutral type stuck)
          let atNil ← callBoth ask motive .zero .vecNil
          return .neutral result
            (.indVec (.mk .nat length) stuck (.mk (.vecMotive entry) motive) (.mk atNil base)
              (.mk (.indVecStep entry motive) step))
      | _ => irreducible .indVec (.neutral type stuck)
  | v => irreducible .indVec v

def indAbsurd (target motive : Value) : m Value := do
  match ← ask (.force target) with
  | .neutral _ stuck => return .neutral motive (.indAbsurd stuck (.mk .univ motive))
  | v => irreducible .indAbsurd v

def replace (target motive base : Value) : m Value := do
  match ← ask (.force target) with
  | .same _ => return base
  | .neutral type stuck => do
      let (type, left, right) ← equalityOf ask (.transport .replace) type stuck
      let result ← call ask motive right
      let start ← call ask motive left
      return .neutral result
        (.transport .replace stuck (.mk (.simpleMotive type) motive) (.mk start base))
  | v => irreducible (.transport .replace) v

def indEqual (target motive base : Value) : m Value := do
  match ← ask (.force target) with
  | .same _ => return base
  | .neutral type stuck => do
      let (carrier, left, right) ← equalityOf ask (.transport .indEqual) type stuck
      let result ← callBoth ask motive right (.neutral type stuck)
      let start ← callBoth ask motive left (.same left)
      return .neutral result
        (.transport .indEqual stuck (.mk (.equalMotive carrier left) motive) (.mk start base))
  | v => irreducible (.transport .indEqual) v

def transport : Transport → Value → Value → Value → m Value
  | .replace => replace ask
  | .indEqual => indEqual ask

/-- Two proofs in a row. The left one is named when neither rule applies. -/
def trans (left right : Value) : m Value := do
  let left ← ask (.force left)
  let right ← ask (.force right)
  match left, right with
  | .same v, .same _ => return .same v
  | .same v, .neutral type stuck => do
      let (type', start, finish) ← equalityOf ask .trans type stuck
      return .neutral (.equal type' v finish)
        (.trans (.mk (.equal type' v v) (.same v))
          (.mk (.equal type' start finish) (.neutral type stuck)))
  | .neutral type stuck, .same v => do
      let (type', start, finish) ← equalityOf ask .trans type stuck
      return .neutral (.equal type' start v)
        (.trans (.mk (.equal type' start finish) (.neutral type stuck))
          (.mk (.equal type' v v) (.same v)))
  | .neutral type₁ stuck₁, .neutral type₂ stuck₂ => do
      let (left', start, middle) ← equalityOf ask .trans type₁ stuck₁
      let (right', middle', finish) ← equalityOf ask .trans type₂ stuck₂
      return .neutral (.equal left' start finish)
        (.trans (.mk (.equal left' start middle) (.neutral type₁ stuck₁))
          (.mk (.equal right' middle' finish) (.neutral type₂ stuck₂)))
  | v, _ => irreducible .trans v

/-- A function on both sides of an equality; the type of the function is known if it was
annotated. -/
def cong (target : Value) (fnType : Option Value) (fn : Value) : m Value := do
  match ← ask (.force target) with
  | .same v => do
      let result ← call ask fn v
      return .same result
  | .neutral type stuck => do
      let (_, left, right) ← equalityOf ask .cong type stuck
      let fnType ← requireType .cong fnType
      match ← ask (.force fnType) with
      | .pi x domain range => do
          let result ← ask (.apply range left)
          let left ← call ask fn left
          let right ← call ask fn right
          return .neutral (.equal result left right)
            (.cong stuck (.mk (.pi x domain range) fn))
      | v => irreducible .cong v
  | v => irreducible .cong v

end TypeKernel.Eval
