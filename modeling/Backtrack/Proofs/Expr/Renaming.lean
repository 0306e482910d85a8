import Backtrack.Proofs.Expr.Occurrence
import Backtrack.Proofs.Expr.Substitution

/-!
# Renaming local definitions

The name of a local definition is of no account, as long as every name in its body still means what
it meant. So an expression with its definitions renamed is told by what its names refer to, and not
by how it was made: it has the same shape, the same names are free at the same places, and every
other name refers to the definition at the same place. This is `Renames`; no name is captured by a
definition that it did not refer to, and none that referred to a definition is free or captured by
another one. Whoever renames one definition after another, each to a name that is not free in its
body, ends at such an expression (`renames_of_steps`). The evaluation does not see a renaming, just
as it does not see the meanings of names that are not free: this is `eval_sees_free_names`.
-/

namespace Backtrack.Expr

/-! ### What names refer to -/

/-- `RefersTo e p q` says that at the place `p` of an expression there is a name that gets its
meaning from the local definition at the place `q`. -/
inductive RefersTo : Expr → Place → Place → Prop where
  /-- The defined name, where it is free in the body. -/
  | here {x : String} {e b : Expr} {p : Place} :
    FreeAt x b p → RefersTo (letIn x e b) (.body :: p) []
  /-- In a left operand. -/
  | left {a b : Expr} {p q : Place} :
    RefersTo a p q → RefersTo (add a b) (.left :: p) (.left :: q)
  /-- In a right operand. -/
  | right {a b : Expr} {p q : Place} :
    RefersTo b p q → RefersTo (add a b) (.right :: p) (.right :: q)
  /-- In what is bound. -/
  | bound {x : String} {e b : Expr} {p q : Place} :
    RefersTo e p q → RefersTo (letIn x e b) (.bound :: p) (.bound :: q)
  /-- In a body, to a definition inside it. -/
  | body {x : String} {e b : Expr} {p q : Place} :
    RefersTo b p q → RefersTo (letIn x e b) (.body :: p) (.body :: q)

/-- Expressions that are the same but for their names. -/
inductive SameShape : Expr → Expr → Prop where
  /-- Two names. -/
  | var (x x' : String) : SameShape (var x) (var x')
  /-- A constant is the same. -/
  | const (k : Int) : SameShape (const k) (const k)
  /-- The operands of sums. -/
  | add {a a' b b' : Expr} : SameShape a a' → SameShape b b' → SameShape (add a b) (add a' b')
  /-- The parts of local definitions. -/
  | letIn (x x' : String) {e e' b b' : Expr} :
    SameShape e e' → SameShape b b' → SameShape (letIn x e b) (letIn x' e' b')

/-- Expressions that are the same but for their names, where the names that are not free refer to
the same definitions. -/
structure SameBinding (e e' : Expr) : Prop where
  /-- The expressions differ in names only. -/
  shape : SameShape e e'
  /-- Names refer to the definition at the same place. -/
  refers : ∀ p q, e.RefersTo p q ↔ e'.RefersTo p q

/-- The second expression is the first one with its local definitions renamed. -/
structure Renames (e e' : Expr) : Prop extends SameBinding e e' where
  /-- The free names are the same at every place. -/
  free : ∀ x p, e.FreeAt x p ↔ e'.FreeAt x p

section Parts

variable {x y : String} {a b e : Expr} {p q : Place}

private theorem refersTo_left_iff :
    (add a b).RefersTo (.left :: p) (.left :: q) ↔ a.RefersTo p q :=
  ⟨fun | .left h => h, .left⟩

private theorem refersTo_right_iff :
    (add a b).RefersTo (.right :: p) (.right :: q) ↔ b.RefersTo p q :=
  ⟨fun | .right h => h, .right⟩

private theorem refersTo_bound_iff :
    (letIn x e b).RefersTo (.bound :: p) (.bound :: q) ↔ e.RefersTo p q :=
  ⟨fun | .bound h => h, .bound⟩

private theorem refersTo_body_iff :
    (letIn x e b).RefersTo (.body :: p) (.body :: q) ↔ b.RefersTo p q :=
  ⟨fun | .body h => h, .body⟩

private theorem refersTo_here_iff :
    (letIn x e b).RefersTo (.body :: p) [] ↔ b.FreeAt x p :=
  ⟨fun | .here h => h, .here⟩

end Parts

/-! ### Evaluation -/

/-- Expressions of the same shape come to the same if their bound names refer to the same
definitions, and their free names at each place have the same meaning or are the same name without
a meaning. -/
theorem SameShape.eval_eq {e e' : Expr} (h : SameShape e e')
    (hrefers : ∀ p q, e.RefersTo p q ↔ e'.RefersTo p q) {env env' : Env}
    (hfree : ∀ x x' p, e.FreeAt x p → e'.FreeAt x' p →
      env x = env' x' ∧ (env x = none → x = x')) :
    eval env e = eval env' e' := by
  induction h generalizing env env' with
  | var x x' =>
    obtain ⟨hmeaning, hname⟩ := hfree x x' [] .var .var
    rw [eval_var, eval_var, ← hmeaning]
    cases hx : env x with
    | some v => rfl
    | none => rw [hname hx]
  | const k => rw [eval_const, eval_const]
  | @add a a' b b' _ _ iha ihb =>
    have ha : eval env a = eval env' a' :=
      iha (fun p q ↦ refersTo_left_iff.symm.trans ((hrefers _ _).trans refersTo_left_iff))
        fun x x' p hx hx' ↦ hfree x x' _ (.left hx) (.left hx')
    have hb : eval env b = eval env' b' :=
      ihb (fun p q ↦ refersTo_right_iff.symm.trans ((hrefers _ _).trans refersTo_right_iff))
        fun x x' p hx hx' ↦ hfree x x' _ (.right hx) (.right hx')
    rw [eval_add, eval_add, ha, hb]
  | @letIn y y' e e' b b' _ _ ihe ihb =>
    have he : eval env e = eval env' e' :=
      ihe (fun p q ↦ refersTo_bound_iff.symm.trans ((hrefers _ _).trans refersTo_bound_iff))
        fun x x' p hx hx' ↦ hfree x x' _ (.bound hx) (.bound hx')
    -- At the same places in the bodies there are the names that are defined.
    have hdefined (p : Place) : b.FreeAt y p ↔ b'.FreeAt y' p :=
      refersTo_here_iff.symm.trans ((hrefers _ _).trans refersTo_here_iff)
    have hb (v : Int) : eval (env.define y v) b = eval (env'.define y' v) b' := by
      refine ihb (fun p q ↦ refersTo_body_iff.symm.trans
        ((hrefers _ _).trans refersTo_body_iff)) fun x x' p hx hx' ↦ ?_
      by_cases hxy : x = y
      · subst hxy
        obtain rfl : x' = y' := hx'.name_eq ((hdefined p).mp hx)
        rw [Env.define, Env.define, if_pos rfl, if_pos rfl]
        exact ⟨rfl, fun h ↦ absurd h (Option.some_ne_none v)⟩
      · have hxy' : x' ≠ y' := by
          rintro rfl
          exact hxy (hx.name_eq ((hdefined p).mpr hx'))
        rw [Env.define, Env.define, if_neg hxy, if_neg hxy']
        exact hfree x x' _ (.body hxy hx) (.body hxy' hx')
    rw [eval_letIn, eval_letIn, he]
    cases eval env' e' with
    | error u => rfl
    | ok v => exact hb v

/-- Renaming local definitions changes neither the value nor the name that is reported. -/
theorem Renames.eval_eq {e e' : Expr} (h : Renames e e') (env : Env) :
    eval env e' = eval env e := by
  refine (h.shape.eval_eq h.refers fun x x' p hx hx' ↦ ?_).symm
  obtain rfl : x = x' := ((h.free x p).mp hx).name_eq hx'
  exact ⟨rfl, fun _ ↦ rfl⟩

/-! ### The same binding -/

/-- Having the same shape is reflexive. -/
theorem SameShape.refl (e : Expr) : SameShape e e := by
  induction e with
  | var x => exact .var x x
  | const k => exact .const k
  | add a b iha ihb => exact .add iha ihb
  | letIn x e b ihe ihb => exact .letIn x x ihe ihb

/-- Having the same shape is transitive. -/
theorem SameShape.trans {e e' e'' : Expr} (h : SameShape e e') (h' : SameShape e' e'') :
    SameShape e e'' := by
  induction h generalizing e'' with
  | var x x' =>
    cases h' with
    | var _ x'' => exact .var x x''
  | const k => exact h'
  | add _ _ iha ihb =>
    cases h' with
    | add ha' hb' => exact .add (iha ha') (ihb hb')
  | letIn x x' _ _ ihe ihb =>
    cases h' with
    | letIn _ x'' he' hb' => exact .letIn x x'' (ihe he') (ihb hb')

namespace SameBinding

variable {x x' : String} {a a' b b' e e' e'' : Expr}

/-- Having the same binding is reflexive. -/
theorem refl (e : Expr) : SameBinding e e := ⟨.refl e, fun _ _ ↦ Iff.rfl⟩

/-- Having the same binding is transitive. -/
theorem trans (h : SameBinding e e') (h' : SameBinding e' e'') : SameBinding e e'' :=
  ⟨h.shape.trans h'.shape, fun p q ↦ (h.refers p q).trans (h'.refers p q)⟩

/-- Sums whose operands have the same binding have the same binding. -/
theorem add (ha : SameBinding a a') (hb : SameBinding b b') :
    SameBinding (.add a b) (.add a' b') := by
  refine ⟨.add ha.shape hb.shape, fun p q ↦ ⟨?_, ?_⟩⟩
  · rintro (_ | h | h)
    · exact .left ((ha.refers _ _).mp h)
    · exact .right ((hb.refers _ _).mp h)
  · rintro (_ | h | h)
    · exact .left ((ha.refers _ _).mpr h)
    · exact .right ((hb.refers _ _).mpr h)

/-- Local definitions whose parts have the same binding have the same binding, provided that the
defined names are free at the same places of the bodies. -/
theorem letIn (he : SameBinding e e') (hb : SameBinding b b')
    (hdefined : ∀ p, b.FreeAt x p ↔ b'.FreeAt x' p) :
    SameBinding (.letIn x e b) (.letIn x' e' b') := by
  refine ⟨.letIn x x' he.shape hb.shape, fun p q ↦ ⟨?_, ?_⟩⟩
  · rintro (h | _ | _ | h | h)
    · exact .here ((hdefined _).mp h)
    · exact .bound ((he.refers _ _).mp h)
    · exact .body ((hb.refers _ _).mp h)
  · rintro (h | _ | _ | h | h)
    · exact .here ((hdefined _).mpr h)
    · exact .bound ((he.refers _ _).mpr h)
    · exact .body ((hb.refers _ _).mpr h)

end SameBinding

/-! ### Places of free names -/

section Places

variable {x y : String} {a b e : Expr} {p : Place}

private theorem freeAt_var_iff : (var x).FreeAt y p ↔ y = x ∧ p = [] := by
  constructor
  · rintro ⟨⟩
    exact ⟨rfl, rfl⟩
  · rintro ⟨rfl, rfl⟩
    exact .var

private theorem freeAt_add_iff :
    (add a b).FreeAt y p ↔
      (∃ q, p = .left :: q ∧ a.FreeAt y q) ∨ ∃ q, p = .right :: q ∧ b.FreeAt y q := by
  constructor
  · rintro (_ | h | h)
    · exact .inl ⟨_, rfl, h⟩
    · exact .inr ⟨_, rfl, h⟩
  · rintro (⟨q, rfl, h⟩ | ⟨q, rfl, h⟩)
    · exact .left h
    · exact .right h

private theorem freeAt_letIn_iff :
    (letIn x e b).FreeAt y p ↔
      (∃ q, p = .bound :: q ∧ e.FreeAt y q) ∨ ∃ q, p = .body :: q ∧ y ≠ x ∧ b.FreeAt y q := by
  constructor
  · rintro (_ | _ | _ | h | ⟨hne, h⟩)
    · exact .inl ⟨_, rfl, h⟩
    · exact .inr ⟨_, rfl, hne, h⟩
  · rintro (⟨q, rfl, h⟩ | ⟨q, rfl, hne, h⟩)
    · exact .bound h
    · exact .body hne h

end Places

/-! ### One definition at a time -/

/-- The second expression is the first one with its free `x` called `y`. -/
structure RenamesFree (x y : String) (b b' : Expr) : Prop extends SameBinding b b' where
  /-- `y` is free where `x` or `y` was, and any other name where it was. -/
  free : ∀ z p, b'.FreeAt z p ↔ (z = y ∧ b.FreeAt x p) ∨ (z ≠ x ∧ b.FreeAt z p)

/-- Substituting a name for another one that is not free renames the free occurrences. -/
theorem Substitutes.renamesFree {x y : String} {a b c : Expr} (h : Substitutes x a b c)
    (ha : a = var y) (hy : ∀ p, ¬b.FreeAt y p) : RenamesFree x y b c := by
  induction h generalizing y with
  | self x a =>
    subst ha
    refine ⟨⟨.var x y, fun p q ↦ ⟨nofun, nofun⟩⟩, fun z p ↦ ?_⟩
    simp only [freeAt_var_iff]
    grind
  | @other x w a hwx =>
    have hwy := hy []
    refine ⟨.refl _, fun z p ↦ ?_⟩
    simp only [freeAt_var_iff] at hwy ⊢
    grind
  | const => exact ⟨.refl _, fun z p ↦ ⟨nofun, by rintro (⟨-, ⟨⟩⟩ | ⟨-, ⟨⟩⟩)⟩⟩
  | add _ _ ihb ihd =>
    have hb := ihb ha fun p h ↦ hy _ (.left h)
    have hd := ihd ha fun p h ↦ hy _ (.right h)
    refine ⟨hb.toSameBinding.add hd.toSameBinding, fun z p ↦ ?_⟩
    simp only [freeAt_add_iff, hb.free, hd.free]
    grind
  | hidden _ ih =>
    have he := ih ha fun p h ↦ hy _ (.bound h)
    refine ⟨he.toSameBinding.letIn (.refl _) fun p ↦ Iff.rfl, fun z p ↦ ?_⟩
    simp only [freeAt_letIn_iff, he.free]
    grind
  | @under x w a e e' b b' hwx hwa _ _ ihe ihb =>
    subst ha
    have hyw : y ≠ w := fun h ↦ hwa (h ▸ List.mem_singleton_self y)
    have he := ihe rfl fun p h ↦ hy _ (.bound h)
    have hb := ihb rfl fun p h ↦ hy _ (.body hyw h)
    refine ⟨he.toSameBinding.letIn hb.toSameBinding fun p ↦ ?_, fun z p ↦ ?_⟩
    · simp only [hb.free]
      grind
    · simp only [freeAt_letIn_iff, he.free, hb.free]
      grind
  | @renamed x w z a e e' b b₁ b' hwx hwa hzx hza hzb _ _ _ ihe ihb₁ ihb =>
    subst ha
    obtain rfl : w = y := List.mem_singleton.mp hwa
    have hzw : z ≠ w := fun h ↦ hza (h ▸ List.mem_singleton_self w)
    have hz (p : Place) : ¬b.FreeAt z p := fun h ↦ hzb (mem_free_iff.mpr ⟨p, h⟩)
    have he := ihe rfl fun p h ↦ hy _ (.bound h)
    -- The name that the definition had is free again once the definition is called `z`.
    have hb₁ := ihb₁ rfl hz
    have hw (p : Place) : ¬b₁.FreeAt w p := by
      rw [hb₁.free]
      grind
    have hb := ihb rfl hw
    refine ⟨he.toSameBinding.letIn (hb₁.toSameBinding.trans hb.toSameBinding) fun p ↦ ?_,
      fun u p ↦ ?_⟩
    · simp only [hb.free, hb₁.free]
      grind
    · simp only [freeAt_letIn_iff, he.free, hb.free, hb₁.free]
      grind

/-- At some depth one local definition is renamed, to a name that is not free in its body. -/
inductive RenamesOne : Expr → Expr → Prop where
  /-- The whole is the definition. -/
  | here {x y : String} (e : Expr) {b b' : Expr} : y ∉ b.free → Substitutes x (.var y) b b' →
    RenamesOne (.letIn x e b) (.letIn y e b')
  /-- It is in a left operand. -/
  | left {a a' : Expr} (b : Expr) : RenamesOne a a' → RenamesOne (.add a b) (.add a' b)
  /-- It is in a right operand. -/
  | right (a : Expr) {b b' : Expr} : RenamesOne b b' → RenamesOne (.add a b) (.add a b')
  /-- It is in what another one binds. -/
  | bound (x : String) {e e' : Expr} (b : Expr) :
    RenamesOne e e' → RenamesOne (.letIn x e b) (.letIn x e' b)
  /-- It is in the body of another one. -/
  | body (x : String) (e : Expr) {b b' : Expr} :
    RenamesOne b b' → RenamesOne (.letIn x e b) (.letIn x e b')

/-- Renaming a single local definition is a renaming. -/
theorem RenamesOne.renames {e e' : Expr} (h : RenamesOne e e') : Renames e e' := by
  induction h with
  | @here x y e b b' hy hb =>
    have hy (p : Place) : ¬b.FreeAt y p := fun h ↦ hy (mem_free_iff.mpr ⟨p, h⟩)
    have hb := hb.renamesFree rfl hy
    refine ⟨(SameBinding.refl e).letIn hb.toSameBinding fun p ↦ ?_, fun z p ↦ ?_⟩
    · simp only [hb.free]
      grind
    · simp only [freeAt_letIn_iff, hb.free]
      grind
  | left b _ ih =>
    refine ⟨ih.toSameBinding.add (.refl b), fun z p ↦ ?_⟩
    simp only [freeAt_add_iff, ih.free]
  | right a _ ih =>
    refine ⟨(SameBinding.refl a).add ih.toSameBinding, fun z p ↦ ?_⟩
    simp only [freeAt_add_iff, ih.free]
  | bound x b _ ih =>
    refine ⟨ih.toSameBinding.letIn (.refl b) fun p ↦ Iff.rfl, fun z p ↦ ?_⟩
    simp only [freeAt_letIn_iff, ih.free]
  | body x e _ ih =>
    refine ⟨(SameBinding.refl e).letIn ih.toSameBinding fun p ↦ ih.free x p, fun z p ↦ ?_⟩
    simp only [freeAt_letIn_iff, ih.free]

/-- Any sequence of single renamings is a renaming. -/
theorem renames_of_steps {e e' : Expr} (h : Relation.ReflTransGen RenamesOne e e') :
    Renames e e' := by
  induction h with
  | refl => exact ⟨.refl e, fun _ _ ↦ Iff.rfl⟩
  | tail _ hstep ih =>
    have hlast := hstep.renames
    exact ⟨ih.toSameBinding.trans hlast.toSameBinding, fun x p ↦
      (ih.free x p).trans (hlast.free x p)⟩

/-! ### What the evaluation sees -/

/-- An expression comes to the same, be it a value or a name without a meaning, wherever its free
names mean the same, whatever other names mean; and so does every expression that has only its
local definitions renamed. -/
theorem eval_sees_free_names (e : Expr) :
    (∀ env env' : Env, (∀ x ∈ e.free, env x = env' x) → eval env e = eval env' e) ∧
      ∀ e', Renames e e' → ∀ env, eval env e' = eval env e :=
  ⟨fun _ _ h ↦ eval_congr h, fun _ h env ↦ h.eval_eq env⟩

/-- In `let x = a in (let x = x + 1 in x + y) + x` both definitions are renamed, the inner one to
the name that is free outside of it. With 3 for `a` and 10 for `y` both expressions come to 17, and
without a meaning for `y` it is `y` that is reported. -/
theorem eval_sees_free_names_shadowed :
    let e := letIn "x" (var "a") (add (letIn "x" (add (var "x") (const 1))
      (add (var "x") (var "y"))) (var "x"))
    let e' := letIn "u" (var "a") (add (letIn "a" (add (var "u") (const 1))
      (add (var "a") (var "y"))) (var "u"))
    let env := Env.ofList [("a", 3), ("y", 10)]
    let env' := env.define "x" 5
    (∀ x ∈ e.free, env x = env' x) ∧ Renames e e' ∧ eval env' e = .ok 17 ∧
      eval env e' = .ok 17 ∧ eval (Env.ofList [("a", 3)]) e' = .error ⟨"y"⟩ := by
  intro e e' env env'
  have hagree : ∀ x ∈ e.free, env x = env' x := by decide
  let inner : Expr := letIn "a" (add (var "x") (const 1)) (add (var "a") (var "y"))
  have hinner : RenamesOne e (letIn "x" (var "a") (add inner (var "x"))) :=
    .body _ _ (.left _ (.here _ (by decide) (.add (.self _ _) (.other (by decide)))))
  have hunder : Substitutes "x" (var "u") inner
      (letIn "a" (add (var "u") (const 1)) (add (var "a") (var "y"))) :=
    .under (by decide) (by decide) (.add (.self _ _) (.const _ _ _))
      (.add (.other (by decide)) (.other (by decide)))
  have houter : RenamesOne (letIn "x" (var "a") (add inner (var "x"))) e' :=
    .here _ (by decide) (.add hunder (.self _ _))
  have hrenames : Renames e e' := renames_of_steps (.tail (.single hinner) houter)
  have hval : eval env e = .ok 17 := by decide
  obtain ⟨hsame, hnames⟩ := eval_sees_free_names e
  exact ⟨hagree, hrenames, (hsame env env' hagree).symm.trans hval,
    (hnames e' hrenames env).trans hval, (hnames e' hrenames _).trans (by decide)⟩

end Backtrack.Expr
