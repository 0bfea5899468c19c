/-
# TypeKernel.Proofs.Interpretation — what an interpretation of types must satisfy

The rules of typing are justified twice: once for equality of values, and once for a value beside an
instance of it, in which the variables of the value have been replaced. Both are relations between the
elements of two types, and both are interpretations in the sense of this module. Whatever holds in every
interpretation is proved once.

An interpretation relates types (`ty`) and elements of related types (`el`), at worlds that record
which variables exist. `stuck w C n u` says that `u`, of type `C`, is what the neutral form `n` on the
other side stands for. All types and elements that are related equal themselves.

The laws come in four groups: about the relations in general, about types by their form, about elements
by the form of their type, and about eliminators whose target is stuck.
-/
import TypeKernel.Proofs.Equality
import TypeKernel.Proofs.Rules

namespace TypeKernel

set_option autoImplicit false

/-- Relations between types and between elements of types. -/
structure Frame where
  World : Type
  le : World → World → Prop
  ty : Size → World → Rel
  el : World → Value → Value → Rel
  stuck : World → Value → Neutral → Value → Prop

namespace Frame

variable (I : Frame)

/-- The left value is stuck, at a type equal to `A`, and the right one is what it stands for. -/
def held (w : I.World) (A C : Value) : Rel := fun v u =>
  ∃ T n, Forces v (.neutral T n) ∧ TyEq .large A T ∧ I.stuck w C n u

/-- Laws of the two relations. -/
structure General : Prop where
  refl : ∀ w, I.le w w
  trans : ∀ {w₁ w₂ w₃}, I.le w₁ w₂ → I.le w₂ w₃ → I.le w₁ w₃
  ty_mono : ∀ {ℓ w w' A C}, I.ty ℓ w A C → I.le w w' → I.ty ℓ w' A C
  el_mono : ∀ {w w' A C v u}, I.el w A C v u → I.le w w' → I.el w' A C v u
  ty_left : ∀ {ℓ w A C}, I.ty ℓ w A C → TyEq ℓ A A
  ty_right : ∀ {ℓ w A C}, I.ty ℓ w A C → TyEq ℓ C C
  el_left : ∀ {w A C v u}, I.el w A C v u → ElEq A v v
  el_right : ∀ {w A C v u}, I.el w A C v u → ElEq C u u
  el_ty : ∀ {w A C v u}, I.el w A C v u → I.ty .large w A C
  lift : ∀ {ℓ w A C}, I.ty ℓ w A C → I.ty .large w A C
  ty_form : ∀ {ℓ w A A' C C'}, I.ty ℓ w A C → Coincides A A' → Coincides C C' → I.ty ℓ w A' C'
  el_form : ∀ {w A C v v' u u'}, I.el w A C v u → Coincides v v' → Coincides u u' →
    I.el w A C v' u'
  /-- Elements of related types depend on the two types only up to equality. -/
  conv : ∀ {w A A' C C' v u}, I.el w A C v u → TyEq .large A A' → TyEq .large C C' →
    I.ty .large w A' C' → I.el w A' C' v u

/-- Laws of types, by their form. -/
structure Formers : Prop where
  const : ∀ {ℓ : Size} {w} {c : Const}, ℓ.has c = true → I.ty ℓ w (.const c) (.const c)
  const_inv : ∀ {ℓ w A C} {c : Const}, I.ty ℓ w A C → Forces A (.const c) → Forces C (.const c)
  list : ∀ {ℓ w E E'}, I.ty ℓ w E E' → I.ty ℓ w (.list E) (.list E')
  list_inv : ∀ {ℓ w A C E}, I.ty ℓ w A C → Forces A (.list E) →
    ∃ E', Forces C (.list E') ∧ I.ty ℓ w E E'
  vec : ∀ {ℓ w E E' k k'}, I.ty ℓ w E E' → I.el w .nat .nat k k' →
    I.ty ℓ w (.vec E k) (.vec E' k')
  vec_inv : ∀ {ℓ w A C E k}, I.ty ℓ w A C → Forces A (.vec E k) →
    ∃ E' k', Forces C (.vec E' k') ∧ I.ty ℓ w E E' ∧ I.el w .nat .nat k k'
  either : ∀ {ℓ w l l' r r'}, I.ty ℓ w l l' → I.ty ℓ w r r' →
    I.ty ℓ w (.either l r) (.either l' r')
  either_inv : ∀ {ℓ w A C l r}, I.ty ℓ w A C → Forces A (.either l r) →
    ∃ l' r', Forces C (.either l' r') ∧ I.ty ℓ w l l' ∧ I.ty ℓ w r r'
  equal : ∀ {ℓ w K K' l l' r r'}, I.ty ℓ w K K' → I.el w K K' l l' → I.el w K K' r r' →
    I.ty ℓ w (.equal K l r) (.equal K' l' r')
  equal_inv : ∀ {ℓ w A C K l r}, I.ty ℓ w A C → Forces A (.equal K l r) →
    ∃ K' l' r', Forces C (.equal K' l' r') ∧ I.ty ℓ w K K' ∧ I.el w K K' l l' ∧ I.el w K K' r r'
  quant : ∀ {ℓ w A C q x x' d d' r r'}, TyEq ℓ A A → TyEq ℓ C C → Forces A (.quant q x d r) →
    Forces C (.quant q x' d' r') → I.ty ℓ w d d' →
    (∀ {w' a b B B'}, I.le w w' → I.el w' d d' a b → Applies r a B → Applies r' b B' →
      I.ty ℓ w' B B') → I.ty ℓ w A C
  quant_inv : ∀ {ℓ w A C q x d r}, I.ty ℓ w A C → Forces A (.quant q x d r) →
    ∃ x' d' r', Forces C (.quant q x' d' r') ∧ I.ty ℓ w d d' ∧
      ∀ {w' a b}, I.le w w' → I.el w' d d' a b →
        ∃ B B', Applies r a B ∧ Applies r' b B' ∧ I.ty ℓ w' B B'

/-- Laws of elements, by the form of their type. -/
structure Elements : Prop where
  univ : ∀ {w A C v u}, Forces A .univ → Forces C .univ → (I.el w A C v u ↔ I.ty .small w v u)
  nat : ∀ {w A C v u}, Forces A .nat → Forces C .nat →
    (I.el w A C v u ↔ NatForm (I.held w A C) v u)
  quote : ∀ {w} (a : String), I.el w .atom .atom (.quote a) (.quote a)
  sole : ∀ {w}, I.el w .trivial .trivial (.const .sole) (.const .sole)
  list : ∀ {w A C E E' v u}, I.ty .large w A C → Forces A (.list E) → Forces C (.list E') →
    (I.el w A C v u ↔ ListForm (I.held w A C) (I.el w E E') v u)
  vec : ∀ {w A C E E' k k' v u}, I.ty .large w A C → Forces A (.vec E k) →
    Forces C (.vec E' k') → (I.el w A C v u ↔
      VecForm (fun k k' => I.held w (.vec E k) (.vec E' k')) (I.el w E E') k k' v u)
  either : ∀ {w A C l l' r r' v u}, I.ty .large w A C → Forces A (.either l r) →
    Forces C (.either l' r') →
    (I.el w A C v u ↔ EitherForm (I.held w A C) (I.el w l l') (I.el w r r') v u)
  equal : ∀ {w A C K K' l l' r r' v u}, I.ty .large w A C → Forces A (.equal K l r) →
    Forces C (.equal K' l' r') → (I.el w A C v u ↔ EqualForm (I.held w A C)
      (fun a b => I.el w K K' a b ∧ (ElEq K l a ∧ ElEq K a r) ∧ ElEq K' l' b ∧ ElEq K' b r') v u)
  pi_intro : ∀ {w A C x x' d d' r r' f g}, I.ty .large w A C → Forces A (.pi x d r) →
    Forces C (.pi x' d' r') → ElEq A f f → ElEq C g g →
    (∀ {w' a b c c' B B'}, I.le w w' → I.el w' d d' a b → Calls f a c → Calls g b c' →
      Applies r a B → Applies r' b B' → I.el w' B B' c c') → I.el w A C f g
  pi_elim : ∀ {w A C x x' d d' r r' f g a b}, I.el w A C f g → Forces A (.pi x d r) →
    Forces C (.pi x' d' r') → I.el w d d' a b → ∃ c c' B B', Calls f a c ∧ Calls g b c' ∧
      Applies r a B ∧ Applies r' b B' ∧ I.el w B B' c c'
  sigma_intro : ∀ {w A C x x' d d' r r' p q a a' b b' B B'}, I.ty .large w A C →
    Forces A (.sigma x d r) → Forces C (.sigma x' d' r') → ElEq A p p → ElEq C q q →
    Cars p a → Cars q a' → Cdrs p b → Cdrs q b' → Applies r a B → Applies r' a' B' →
    I.el w d d' a a' → I.el w B B' b b' → I.el w A C p q
  sigma_elim : ∀ {w A C x x' d d' r r' p q}, I.el w A C p q → Forces A (.sigma x d r) →
    Forces C (.sigma x' d' r') → ∃ a a' b b' B B', Cars p a ∧ Cars q a' ∧ Cdrs p b ∧ Cdrs q b' ∧
      Applies r a B ∧ Applies r' a' B' ∧ I.el w d d' a a' ∧ I.el w B B' b b'
  reflect : ∀ {w A C T n u}, I.ty .large w A C → TyEq .large A T → I.stuck w C n u →
    I.el w A C (.neutral T n) u

/-- The laws that do not concern eliminators. -/
structure Lawful : Prop where
  general : I.General
  formers : I.Formers
  elements : I.Elements

/-- Laws of eliminators whose target is stuck. Where the neutral form records a part of the type of its
target, that part may differ from the one on the left by an equal one. -/
structure Neutrals : Prop where
  head : ∀ {w C n u E k m}, I.stuck w C n u → Forces C (.vec E k) → Forces k (.add1 m) →
    ∃ r, Heads u r ∧ I.stuck w E (.proj .head n) r
  tail : ∀ {w C n u E k m}, I.stuck w C n u → Forces C (.vec E k) → Forces k (.add1 m) →
    ∃ r, Tails u r ∧ I.stuck w (.vec E m) (.proj .tail n) r
  symm : ∀ {w C n u K a b}, I.stuck w C n u → Forces C (.equal K a b) →
    ∃ r, Symms u r ∧ I.stuck w (.equal K b a) (.proj .symm n) r
  natFold : ∀ {w C n u f S B B' b b' s s'}, NatFold f S → I.stuck w C n u → Forces C .nat →
    I.ty .large w B B' → I.el w B B' b b' → I.el w (S B) (S B') s s' →
    ∃ r, Folds f u (some B') b' s' r ∧ I.stuck w B' (.fold f n (.mk B b) (.mk (S B) s)) r
  recList : ∀ {w C n u E E₁ E' B B' b b' s s'}, I.stuck w C n u → Forces C (.list E') →
    TyEq .large E E₁ → I.ty .large w B B' → I.el w B B' b b' →
    I.el w (.recListStep E B) (.recListStep E' B') s s' → ∃ r, Folds .recList u (some B') b' s' r ∧
      I.stuck w B' (.fold .recList n (.mk B b) (.mk (.recListStep E₁ B) s)) r
  indNat : ∀ {w C n u m m' D Z Z' b b' s s'}, I.stuck w C n u → Forces C .nat →
    I.el w .natMotive .natMotive m m' → Calls m' u D → Calls m .zero Z → Calls m' .zero Z' →
    I.el w Z Z' b b' → I.el w (.indNatStep m) (.indNatStep m') s s' →
    ∃ r, Inducts .indNat u m' b' s' r ∧ I.stuck w D
      (.induct .indNat n (.mk .natMotive m) (.mk Z b) (.mk (.indNatStep m) s)) r
  indList : ∀ {w C n u E E₁ E' m m' D Z Z' b b' s s'}, I.stuck w C n u → Forces C (.list E') →
    TyEq .large E E₁ → I.el w (.listMotive E) (.listMotive E') m m' → Calls m' u D →
    Calls m .nil Z → Calls m' .nil Z' → I.el w Z Z' b b' →
    I.el w (.indListStep E m) (.indListStep E' m') s s' →
    ∃ r, Inducts .indList u m' b' s' r ∧ I.stuck w D
      (.induct .indList n (.mk (.listMotive E₁) m) (.mk Z b) (.mk (.indListStep E₁ m) s)) r
  indEither : ∀ {w C n u l l₁ l' r r₁ r' m m' D b b' s s'}, I.stuck w C n u →
    Forces C (.either l' r') → TyEq .large l l₁ → TyEq .large r r₁ →
    I.el w (.simpleMotive (.either l r)) (.simpleMotive (.either l' r')) m m' → Calls m' u D →
    I.el w (.eitherCase .left l m) (.eitherCase .left l' m') b b' →
    I.el w (.eitherCase .right r m) (.eitherCase .right r' m') s s' →
    ∃ v, Inducts .indEither u m' b' s' v ∧ I.stuck w D
      (.induct .indEither n (.mk (.simpleMotive (.either l₁ r₁)) m) (.mk (.eitherCase .left l₁ m) b)
        (.mk (.eitherCase .right r₁ m) s)) v
  indVec : ∀ {w C n u E E₁ E' k k' m m' D Z Z' b b' s s'}, I.stuck w C n u →
    Forces C (.vec E' k') → TyEq .large E E₁ → I.el w .nat .nat k k' →
    I.el w (.vecMotive E) (.vecMotive E') m m' → CallsBoth m' k' u D →
    CallsBoth m .zero .vecNil Z → CallsBoth m' .zero .vecNil Z' → I.el w Z Z' b b' →
    I.el w (.indVecStep E m) (.indVecStep E' m') s s' →
    ∃ r, IndVecs k' u m' b' s' r ∧ I.stuck w D
      (.indVec (.mk .nat k) n (.mk (.vecMotive E₁) m) (.mk Z b) (.mk (.indVecStep E₁ m) s)) r
  indAbsurd : ∀ {w A C T n v u m m'}, I.el w A C v u → Forces A .absurd → Forces C .absurd →
    Forces v (.neutral T n) → I.ty .small w m m' → ∃ r, IndAbsurds u m' r ∧ I.stuck w m' (.indAbsurd n (.mk .univ m)) r
  replace : ∀ {w C n u K K₁ K' a a' c' m m' D Z Z₁ Z' b b'}, I.stuck w C n u →
    Forces C (.equal K' a' c') → TyEq .large K K₁ →
    I.el w (.simpleMotive K) (.simpleMotive K') m m' → Calls m' c' D → Calls m a Z →
    Calls m' a' Z' → TyEq .large Z Z₁ → I.el w Z Z' b b' → ∃ r, Transports .replace u m' b' r ∧
      I.stuck w D (.transport .replace n (.mk (.simpleMotive K₁) m) (.mk Z₁ b)) r
  indEqual : ∀ {w C n u K K₁ K' a a₁ a' c' m m' D Z Z₁ Z' b b'}, I.stuck w C n u →
    Forces C (.equal K' a' c') → TyEq .large K K₁ → ElEq K a a₁ →
    I.el w (.equalMotive K a) (.equalMotive K' a') m m' → CallsBoth m' c' u D →
    CallsBoth m a (.same a) Z → CallsBoth m' a' (.same a') Z' → TyEq .large Z Z₁ →
    I.el w Z Z' b b' → ∃ r, Transports .indEqual u m' b' r ∧
      I.stuck w D (.transport .indEqual n (.mk (.equalMotive K₁ a₁) m) (.mk Z₁ b)) r
  trans : ∀ {w A C A₁ C₁ L R K K' a a' b b' K₁ K₁' b₁ b₁' c c' l l' r r'},
    Forces A (.equal K a b) → Forces C (.equal K' a' b') → Forces A₁ (.equal K₁ b₁ c) →
    Forces C₁ (.equal K₁' b₁' c') → TyEq .large K' K₁' → ElEq K' b' b₁' → I.el w A C l l' →
    I.el w A₁ C₁ r r' → TyEq .large A L → TyEq .large A₁ R →
    ((∃ T n, Forces l (.neutral T n)) ∨ ∃ T n, Forces r (.neutral T n)) →
    ∃ v, Transes l' r' v ∧ I.stuck w (.equal K' a' c') (.trans (.mk L l) (.mk R r)) v
  /-- The range of the function does not depend on the argument. -/
  cong : ∀ {w C n u K' a' c' F F' x x' d d' q q' D f f' v v'}, I.stuck w C n u →
    Forces C (.equal K' a' c') → I.el w F F' f f' → Forces F (.pi x d q) →
    Forces F' (.pi x' d' q') → TyEq .large d' K' → Applies q' a' D →
    (∀ {b B}, ElEq d' b b → Applies q' b B → TyEq .large B D) → Calls f' a' v → Calls f' c' v' →
    ∃ r, Congs u (some F') f' r ∧ I.stuck w (.equal D v v') (.cong n (.mk (.pi x d q) f)) r

end Frame

/-- An interpretation of types. -/
structure Interpretation extends Frame where
  lawful : toFrame.Lawful
  neutrals : toFrame.Neutrals

end TypeKernel
