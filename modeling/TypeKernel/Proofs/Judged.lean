/-
# TypeKernel.Proofs.Judged — the typing rules

`Judged Γ r e aim core` says that the rules accept the expression `e` in the context `Γ`, under the
renaming `r`, with the elaborated form `core`: at a type that they find (`synth`), at a type that is given
(`check`), or as a type (`isType`). The rules are stated about values as evaluation by name gives them, and
without a bound on the steps.

A `Discipline` says which values count as the same and how annotations are made. The kernel reads values
back for both. Normal forms follow the same rules with the equality of values in place of this: they are
annotated already, except that a composed proof may be `same` as it stands.

A type former has one rule for both sizes of types: the rule for elements of the universe asks of its
parts what the rule for all types asks of them, one size down.
-/
import TypeKernel.Check.Basic
import TypeKernel.Proofs.Equality
import TypeKernel.Proofs.Rules

namespace TypeKernel

set_option autoImplicit false

/-- What is asked of an expression. -/
inductive Aim where
  /-- To have a type, which is found to be this one. -/
  | synth (T : Value)
  /-- To have this type. -/
  | check (A : Value)
  /-- To be a type. -/
  | isType

/-- What is asked of a type former. -/
def Size.whole : Size → Aim
  | .small => .synth .univ
  | .large => .isType

/-- What is asked of the parts of a type former that are types. -/
def Size.part : Size → Aim
  | .small => .check .univ
  | .large => .isType

/-- The type of a form without parts that shows it. -/
def Const.type? : Const → Option Value
  | .nat | .atom | .trivial | .absurd => some .univ
  | .zero => some .nat
  | .sole => some .trivial
  | _ => none

/-- The range of a function type, if it does not mention the variable. -/
def Expr.simpleRange? : Expr → Option Expr
  | .quant .pi x _ b => if b.occursFree x = some false then some b else none
  | _ => none

/-- Values that read back alike. -/
def Converts (Γ : Context) (t t' : Task) : Prop :=
  ∃ e e', Reads .ofHints Γ.names t e ∧ Reads .ofHints Γ.names t' e' ∧ e.alphaEquiv e' = some true

/-- What the rules leave open. -/
structure Discipline where
  /-- Which types are the same. -/
  sameType : Context → Value → Value → Prop
  /-- Which elements of a type are the same. -/
  same : Context → Value → Value → Value → Prop
  /-- Which expressions annotate an expression of a type. -/
  annotates : Context → Value → Expr → Prop
  /-- Whether the range over a domain is the same type for all arguments, of which one is given. -/
  simple : Context → Name → Value → Closure → Value → Value → Prop
  /-- Which atoms may be quoted. -/
  atom : String → Prop
  /-- Whether the rules are those for normal forms, where annotations stand already and a proof that is
  composed with another one may be `same` without one. -/
  lax : Prop

namespace Discipline

/-- Values are compared, and annotations made, by reading back. -/
def kernel : Discipline where
  sameType Γ A T := Converts Γ (.type A) (.type T)
  same Γ T v w := Converts Γ (.value T v) (.value T w)
  annotates Γ T t := Reads .ofHints Γ.names (.type T) t
  simple Γ x d R _ D := ∃ y B n, y = Style.ofHints.pick Γ.names x ∧ Applies R (.ofVar y d) B ∧
    Reads .ofHints (y :: Γ.names) (.type B) n ∧ n.occursFree y = some false ∧ Evals Γ.env n D
  atom a := isAtom a = true
  lax := False

/-- Values are compared by the equality of values; annotations are as they stand. -/
def semantic : Discipline where
  sameType _ A T := TyEq .large A T
  same _ T v w := ElEq T v w
  annotates _ _ _ := True
  simple _ _ d R a D := Applies R a D ∧ ∀ {b B}, ElEq d b b → Applies R b B → TyEq .large B D
  atom _ := True
  lax := True

/-- What a discipline for normal forms must accept: whatever is equal counts as the same, and an annotation
may stand that is the reading of its value if `p` holds. The range of a function type `t` that is the same
for all arguments is simple, as the type that `t` shows for it if `t` does not mention the variable there. -/
structure Complete (P : Discipline) (p : Prop) : Prop where
  lax : P.lax
  sameType : ∀ {Γ : Context} {A T : Value}, TyEq .large A T → P.sameType Γ A T
  same : ∀ {Γ : Context} {T v w : Value}, ElEq T v w → P.same Γ T v w
  annotates : ∀ {Γ : Context} {T : Value} {t : Expr},
    (p → Reads .asHinted Γ.names (.type T) t) → P.annotates Γ T t
  atom : ∀ a, P.atom a
  simple : ∀ {Γ : Context} {x : Name} {d a D : Value} {R : Closure} {t : Expr},
    (p → Reads .asHinted Γ.names (.type (.pi x d R)) t) → Applies R a D → TyEq .large D D →
      (∀ {b B}, ElEq d b b → Applies R b B → TyEq .large B D) →
        (∀ n, t.simpleRange? = some n → ∃ D', Evals Γ.env n D' ∧ TyEq .large D' D) →
          ∃ D', P.simple Γ x d R a D' ∧ TyEq .large D' D

theorem semantic_complete (p : Prop) : semantic.Complete p where
  lax := trivial
  sameType h := h
  same h := h
  annotates _ := trivial
  atom _ := trivial
  simple _ hD refl constant _ := ⟨_, ⟨hD, constant⟩, refl⟩

/-- An expression of a type with its annotation. -/
inductive Annotated (P : Discipline) (Γ : Context) (T : Value) : Expr → Expr → Prop
  | kept {t e : Expr} (hP : P.lax) (h : P.annotates Γ T t) : Annotated P Γ T (.the t e) (.the t e)
  | added {e t : Expr} (hP : ¬ P.lax) (h : P.annotates Γ T t) : Annotated P Γ T e (e.annotate t)

end Discipline

variable {P : Discipline}

/-- The typing rules. -/
inductive Judged (P : Discipline) : Context → Renaming → Expr → Aim → Expr → Prop
  /-- An expression that has a type is accepted at every type that is the same. -/
  | switch {Γ r e T A c} (h : Judged P Γ r e (.synth T) c) (hT : P.sameType Γ A T) :
      Judged P Γ r e (.check A) c
  /-- Elements of the universe are types. -/
  | lift {Γ r e T c} (h : Judged P Γ r e (.synth T) c) (hT : Forces T .univ) :
      Judged P Γ r e .isType c
  | var {Γ r x b} (hx : Γ.lookup (r.rename x) = some b) (hb : b.isClaim = false) :
      Judged P Γ r (.var x) (.synth b.type) (.var (r.rename x))
  | the {Γ r t t' T e e'} (ht : Judged P Γ r t .isType t') (hT : Evals Γ.env t' T)
      (he : Judged P Γ r e (.check T) e') : Judged P Γ r (.the t e) (.synth T) (.the t' e')
  | const {Γ r} {c : Const} {T} (hc : c.type? = some T) :
      Judged P Γ r (.const c) (.synth T) (.const c)
  | univ {Γ r} : Judged P Γ r .univ .isType .univ
  | quant {Γ r q x y d d' D b b'} (ℓ : Size) (hd : Judged P Γ r d ℓ.part d') (hD : Evals Γ.env d' D)
      (hy : y = Style.ofHints.pick Γ.names x)
      (hb : Judged P (Γ.bindFree y D) (r.extend x y) b ℓ.part b') :
      Judged P Γ r (.quant q x d b) ℓ.whole (.quant q y d' b')
  | list {Γ r e e'} (ℓ : Size) (he : Judged P Γ r e ℓ.part e') :
      Judged P Γ r (.list e) ℓ.whole (.list e')
  | vec {Γ r e e' k k'} (ℓ : Size) (he : Judged P Γ r e ℓ.part e')
      (hk : Judged P Γ r k (.check .nat) k') : Judged P Γ r (.vec e k) ℓ.whole (.vec e' k')
  | either {Γ r a a' b b'} (ℓ : Size) (ha : Judged P Γ r a ℓ.part a')
      (hb : Judged P Γ r b ℓ.part b') : Judged P Γ r (.either a b) ℓ.whole (.either a' b')
  | equal {Γ r t t' T a a' b b'} (ℓ : Size) (ht : Judged P Γ r t ℓ.part t') (hT : Evals Γ.env t' T)
      (ha : Judged P Γ r a (.check T) a') (hb : Judged P Γ r b (.check T) b') :
      Judged P Γ r (.equal t a b) ℓ.whole (.equal t' a' b')
  | lam {Γ r x y A z d R B b b'} (hA : Forces A (.pi z d R)) (hy : y = Style.ofHints.pick Γ.names x)
      (hB : Applies R (.ofVar y d) B)
      (hb : Judged P (Γ.bindFree y d) (r.extend x y) b (.check B) b') :
      Judged P Γ r (.lam x b) (.check A) (.lam y b')
  | cons {Γ r A z d R a a' v B b b'} (hA : Forces A (.sigma z d R))
      (ha : Judged P Γ r a (.check d) a') (hv : Evals Γ.env a' v) (hB : Applies R v B)
      (hb : Judged P Γ r b (.check B) b') : Judged P Γ r (.cons a b) (.check A) (.cons a' b')
  | add1 {Γ r e e'} (he : Judged P Γ r e (.check .nat) e') :
      Judged P Γ r (.add1 e) (.synth .nat) (.add1 e')
  | quote {Γ r a} (ha : P.atom a) : Judged P Γ r (.quote a) (.synth .atom) (.quote a)
  | nil {Γ r A E} (hA : Forces A (.list E)) : Judged P Γ r .nil (.check A) .nil
  /-- A normal form that is a list is only ever checked. -/
  | listConsSynth {Γ r E a a' b b'} (hP : ¬ P.lax) (ha : Judged P Γ r a (.synth E) a')
      (hb : Judged P Γ r b (.check (.list E)) b') :
      Judged P Γ r (.listCons a b) (.synth (.list E)) (.listCons a' b')
  | listCons {Γ r A E a a' b b'} (hA : Forces A (.list E)) (ha : Judged P Γ r a (.check E) a')
      (hb : Judged P Γ r b (.check (.list E)) b') :
      Judged P Γ r (.listCons a b) (.check A) (.listCons a' b')
  | vecNil {Γ r A E k} (hA : Forces A (.vec E k)) (hk : P.same Γ .nat .zero k) :
      Judged P Γ r .vecNil (.check A) .vecNil
  | vecCons {Γ r A E k m a a' b b'} (hA : Forces A (.vec E k)) (hk : Forces k (.add1 m))
      (ha : Judged P Γ r a (.check E) a') (hb : Judged P Γ r b (.check (.vec E m)) b') :
      Judged P Γ r (.vecCons a b) (.check A) (.vecCons a' b')
  | left {Γ r A L R e e'} (hA : Forces A (.either L R)) (he : Judged P Γ r e (.check L) e') :
      Judged P Γ r (.left e) (.check A) (.left e')
  | right {Γ r A L R e e'} (hA : Forces A (.either L R)) (he : Judged P Γ r e (.check R) e') :
      Judged P Γ r (.right e) (.check A) (.right e')
  | same {Γ r A T a b e e' v} (hA : Forces A (.equal T a b)) (he : Judged P Γ r e (.check T) e')
      (hv : Evals Γ.env e' v) (ha : P.same Γ T a v)
      (hb : P.same Γ T v b) : Judged P Γ r (.same e) (.check A) (.same e')
  | app {Γ r f f' F z d R a a' v B} (hf : Judged P Γ r f (.synth F) f') (hF : Forces F (.pi z d R))
      (ha : Judged P Γ r a (.check d) a') (hv : Evals Γ.env a' v) (hB : Applies R v B) :
      Judged P Γ r (.app f a) (.synth B) (.app f' a')
  | car {Γ r t t' T z d R} (ht : Judged P Γ r t (.synth T) t') (hT : Forces T (.sigma z d R)) :
      Judged P Γ r (.proj .car t) (.synth d) (.proj .car t')
  | cdr {Γ r t t' T z d R v a B} (ht : Judged P Γ r t (.synth T) t') (hT : Forces T (.sigma z d R))
      (hv : Evals Γ.env t' v) (ha : Eval.car answer v = .ok a) (hB : Applies R a B) :
      Judged P Γ r (.proj .cdr t) (.synth B) (.proj .cdr t')
  | head {Γ r t t' T E k m} (ht : Judged P Γ r t (.synth T) t') (hT : Forces T (.vec E k))
      (hk : Forces k (.add1 m)) : Judged P Γ r (.proj .head t) (.synth E) (.proj .head t')
  | tail {Γ r t t' T E k m} (ht : Judged P Γ r t (.synth T) t') (hT : Forces T (.vec E k))
      (hk : Forces k (.add1 m)) : Judged P Γ r (.proj .tail t) (.synth (.vec E m)) (.proj .tail t')
  | symm {Γ r t t' T K a b} (ht : Judged P Γ r t (.synth T) t') (hT : Forces T (.equal K a b)) :
      Judged P Γ r (.proj .symm t) (.synth (.equal K b a)) (.proj .symm t')
  | natFold {Γ r f S t t' T b b' b'' B s s'} (hf : NatFold f S) (ht : Judged P Γ r t (.synth T) t')
      (hT : Forces T .nat) (hb : Judged P Γ r b (.synth B) b') (hs : Judged P Γ r s (.check (S B)) s')
      (hB : P.Annotated Γ B b' b'') : Judged P Γ r (.fold f t b s) (.synth B) (.fold f t' b'' s')
  | recList {Γ r t t' T E b b' b'' B s s'} (ht : Judged P Γ r t (.synth T) t')
      (hT : Forces T (.list E)) (hb : Judged P Γ r b (.synth B) b')
      (hs : Judged P Γ r s (.check (.recListStep E B)) s')
      (hB : P.Annotated Γ B b' b'') :
      Judged P Γ r (.fold .recList t b s) (.synth B) (.fold .recList t' b'' s')
  | indNat {Γ r t t' T m m' M b b' Z s s' v B} (ht : Judged P Γ r t (.synth T) t')
      (hT : Forces T .nat) (hm : Judged P Γ r m (.check .natMotive) m') (hM : Evals Γ.env m' M)
      (hZ : Calls M .zero Z) (hb : Judged P Γ r b (.check Z) b')
      (hs : Judged P Γ r s (.check (.indNatStep M)) s') (hv : Evals Γ.env t' v) (hB : Calls M v B) :
      Judged P Γ r (.induct .indNat t m b s) (.synth B) (.induct .indNat t' m' b' s')
  | indList {Γ r t t' T E m m' M b b' Z s s' v B} (ht : Judged P Γ r t (.synth T) t')
      (hT : Forces T (.list E)) (hm : Judged P Γ r m (.check (.listMotive E)) m')
      (hM : Evals Γ.env m' M) (hZ : Calls M .nil Z) (hb : Judged P Γ r b (.check Z) b')
      (hs : Judged P Γ r s (.check (.indListStep E M)) s') (hv : Evals Γ.env t' v)
      (hB : Calls M v B) :
      Judged P Γ r (.induct .indList t m b s) (.synth B) (.induct .indList t' m' b' s')
  | indEither {Γ r t t' T L R m m' M b b' s s' v B} (ht : Judged P Γ r t (.synth T) t')
      (hT : Forces T (.either L R)) (hm : Judged P Γ r m (.check (.simpleMotive (.either L R))) m')
      (hM : Evals Γ.env m' M) (hb : Judged P Γ r b (.check (.eitherCase .left L M)) b')
      (hs : Judged P Γ r s (.check (.eitherCase .right R M)) s') (hv : Evals Γ.env t' v)
      (hB : Calls M v B) :
      Judged P Γ r (.induct .indEither t m b s) (.synth B) (.induct .indEither t' m' b' s')
  | indVec {Γ r k k' n t t' T E l m m' M b b' Z s s' v B} (hk : Judged P Γ r k (.check .nat) k')
      (hn : Evals Γ.env k' n) (ht : Judged P Γ r t (.synth T) t') (hT : Forces T (.vec E l))
      (hl : P.same Γ .nat n l)
      (hm : Judged P Γ r m (.check (.vecMotive E)) m') (hM : Evals Γ.env m' M)
      (hZ : CallsBoth M .zero .vecNil Z) (hb : Judged P Γ r b (.check Z) b')
      (hs : Judged P Γ r s (.check (.indVecStep E M)) s') (hv : Evals Γ.env t' v)
      (hB : CallsBoth M n v B) :
      Judged P Γ r (.indVec k t m b s) (.synth B) (.indVec k' t' m' b' s')
  | indAbsurd {Γ r t t' T m m' M} (ht : Judged P Γ r t (.synth T) t') (hT : Forces T .absurd)
      (hm : Judged P Γ r m (.check .univ) m') (hM : Evals Γ.env m' M) :
      Judged P Γ r (.indAbsurd t m) (.synth M) (.indAbsurd (t'.annotate .absurd) m')
  | replace {Γ r t t' T K a c m m' M b b' Z B} (ht : Judged P Γ r t (.synth T) t')
      (hT : Forces T (.equal K a c)) (hm : Judged P Γ r m (.check (.simpleMotive K)) m')
      (hM : Evals Γ.env m' M) (hZ : Calls M a Z) (hb : Judged P Γ r b (.check Z) b')
      (hB : Calls M c B) :
      Judged P Γ r (.transport .replace t m b) (.synth B) (.transport .replace t' m' b')
  | indEqual {Γ r t t' T K a c m m' M b b' Z v B} (ht : Judged P Γ r t (.synth T) t')
      (hT : Forces T (.equal K a c)) (hm : Judged P Γ r m (.check (.equalMotive K a)) m')
      (hM : Evals Γ.env m' M) (hZ : CallsBoth M a (.same a) Z)
      (hb : Judged P Γ r b (.check Z) b') (hv : Evals Γ.env t' v) (hB : CallsBoth M c v B) :
      Judged P Γ r (.transport .indEqual t m b) (.synth B) (.transport .indEqual t' m' b')
  | trans {Γ r a a' T K l m b b' T' K' m' n} (ha : Judged P Γ r a (.synth T) a')
      (hT : Forces T (.equal K l m)) (hb : Judged P Γ r b (.synth T') b')
      (hT' : Forces T' (.equal K' m' n)) (hK : P.sameType Γ K K')
      (hm : P.same Γ K m m') :
      Judged P Γ r (.trans a b) (.synth (.equal K l n)) (.trans a' b')
  /-- A proof by `same` proves what the other proof asks of it. -/
  | sameTrans {Γ r e e' v b b' T K m n} (hP : P.lax) (hb : Judged P Γ r b (.synth T) b')
      (hT : Forces T (.equal K m n)) (he : Judged P Γ r e (.check K) e') (hv : Evals Γ.env e' v)
      (hm : P.same Γ K v m) :
      Judged P Γ r (.trans (.same e) b) (.synth (.equal K v n)) (.trans (.same e') b')
  | transSame {Γ r a a' T K l m e e' v} (hP : P.lax) (ha : Judged P Γ r a (.synth T) a')
      (hT : Forces T (.equal K l m)) (he : Judged P Γ r e (.check K) e') (hv : Evals Γ.env e' v)
      (hm : P.same Γ K m v) :
      Judged P Γ r (.trans a (.same e)) (.synth (.equal K l v)) (.trans a' (.same e'))
  | cong {Γ r t t' T K a c f f' f'' F x d R D g u v} (ht : Judged P Γ r t (.synth T) t')
      (hT : Forces T (.equal K a c)) (hf : Judged P Γ r f (.synth F) f') (hF : Forces F (.pi x d R))
      (hd : P.sameType Γ d K) (hD : P.simple Γ x d R a D) (hg : Evals Γ.env f' g)
      (hu : Calls g a u) (hv : Calls g c v) (hf'' : P.Annotated Γ (.pi x d R) f' f'') :
      Judged P Γ r (.cong t f) (.synth (.equal D u v)) (.cong t' f'')

end TypeKernel
