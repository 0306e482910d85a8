import Backtrack.Proofs.Expr.Evaluation
import Mathlib.Data.Fintype.EquivFin

/-!
# Substitution

To substitute an expression for a name puts the expression in the place of the name wherever the
name is free, and keeps the free names of the expression free: a local definition that would give
one of them a meaning is renamed first. A local definition stands for the substitution of what it
binds into its body, once what it binds has a value: `letIn_substitution`.
-/

namespace Backtrack

namespace Env

variable (env : Env) (v w : Int)

/-- A later meaning of a name replaces the earlier one. -/
theorem define_define_self (x : String) : (env.define x v).define x w = env.define x w := by
  funext y
  rw [define, define, define]
  split <;> rfl

/-- Definitions of different names commute. -/
theorem define_comm {x y : String} (h : x ≠ y) :
    (env.define x v).define y w = (env.define y w).define x v := by
  funext z
  rw [define, define, define, define]
  by_cases hy : z = y
  · rw [if_pos hy, if_neg (hy ▸ h.symm), if_pos hy]
  · rw [if_neg hy, if_neg hy]

end Env

namespace Expr

/-- `Substitutes x a b c` says that `c` is `b` with `a` in place of the free occurrences of `x`,
where definitions are renamed to fresh names only to keep the free names of `a` free. -/
inductive Substitutes : String → Expr → Expr → Expr → Prop where
  /-- The name itself. -/
  | self (x : String) (a : Expr) : Substitutes x a (var x) a
  /-- Another name. -/
  | other {x y : String} {a : Expr} : y ≠ x → Substitutes x a (var y) (var y)
  /-- A constant. -/
  | const (x : String) (a : Expr) (k : Int) : Substitutes x a (const k) (const k)
  /-- Both operands of a sum. -/
  | add {x : String} {a b b' d d' : Expr} :
    Substitutes x a b b' → Substitutes x a d d' → Substitutes x a (add b d) (add b' d')
  /-- A definition of the same name hides it in the body. -/
  | hidden {x : String} {a e e' b : Expr} :
    Substitutes x a e e' → Substitutes x a (letIn x e b) (letIn x e' b)
  /-- A definition of another name that is not free in `a`. -/
  | under {x y : String} {a e e' b b' : Expr} : y ≠ x → y ∉ a.free →
    Substitutes x a e e' → Substitutes x a b b' → Substitutes x a (letIn y e b) (letIn y e' b')
  /-- A definition of another name that is free in `a` gets a fresh name `z`. -/
  | renamed {x y z : String} {a e e' b b₁ b' : Expr} : y ≠ x → y ∈ a.free →
    z ≠ x → z ∉ a.free → z ∉ b.free →
    Substitutes x a e e' → Substitutes y (var z) b b₁ → Substitutes x a b₁ b' →
    Substitutes x a (letIn y e b) (letIn z e' b')

/-! ### Every substitution can be made -/

/-- The number of nodes of an expression. -/
def size : Expr → Nat
  | var _ => 1
  | const _ => 1
  | add a b => a.size + b.size + 1
  | letIn _ e b => e.size + b.size + 1

/-- Substituting an expression of size one preserves the size. -/
theorem Substitutes.size_eq {x : String} {a b c : Expr} (h : Substitutes x a b c)
    (ha : a.size = 1) : c.size = b.size := by
  induction h with
  | self => exact ha
  | other => rfl
  | const => rfl
  | add _ _ ihb ihd => rw [size, size, ihb ha, ihd ha]
  | hidden _ ih => rw [size, size, ih ha]
  | under _ _ _ _ ihe ihb => rw [size, size, ihe ha, ihb ha]
  | renamed _ _ _ _ _ _ _ _ ihe ihb₁ ihb => rw [size, size, ihe ha, ihb ha, ihb₁ rfl]

/-- Every expression can be substituted for every name in every expression. -/
theorem exists_substitutes (x : String) (a b : Expr) : ∃ c, Substitutes x a b c := by
  -- On the size, as a body is renamed before the substitution into it.
  induction hn : b.size using Nat.strongRecOn generalizing x a b with
  | ind n ih =>
    subst hn
    cases b with
    | var y =>
      by_cases hyx : y = x
      · subst hyx
        exact ⟨a, .self y a⟩
      · exact ⟨var y, .other hyx⟩
    | const k => exact ⟨const k, .const x a k⟩
    | add b d =>
      obtain ⟨b', hb⟩ := ih b.size (by rw [size]; omega) x a b rfl
      obtain ⟨d', hd⟩ := ih d.size (by rw [size]; omega) x a d rfl
      exact ⟨add b' d', .add hb hd⟩
    | letIn y e b =>
      have hlt : b.size < (letIn y e b).size := by rw [size]; omega
      obtain ⟨e', he⟩ := ih e.size (by rw [size]; omega) x a e rfl
      by_cases hyx : y = x
      · subst hyx
        exact ⟨letIn y e' b, .hidden he⟩
      by_cases hfree : y ∈ a.free
      · obtain ⟨z, hz⟩ := Infinite.exists_notMem_finset (x :: (a.free ++ b.free)).toFinset
        rw [List.mem_toFinset, List.mem_cons, List.mem_append, not_or, not_or] at hz
        obtain ⟨hzx, hza, hzb⟩ := hz
        obtain ⟨b₁, hb₁⟩ := ih b.size hlt y (var z) b rfl
        have hlt₁ : b₁.size < (letIn y e b).size := hb₁.size_eq rfl ▸ hlt
        obtain ⟨b', hb⟩ := ih b₁.size hlt₁ x a b₁ rfl
        exact ⟨letIn z e' b', .renamed hyx hfree hzx hza hzb he hb₁ hb⟩
      · obtain ⟨b', hb⟩ := ih b.size hlt x a b rfl
        exact ⟨letIn y e' b', .under hyx hfree he hb⟩

/-! ### The value of a substitution -/

/-- Defining a name that is not free does not change the value. -/
theorem eval_define_of_not_mem {env : Env} {x : String} {e : Expr} (h : x ∉ e.free) (v : Int) :
    eval (env.define x v) e = eval env e := by
  apply eval_congr
  intro y hy
  have hyx : y ≠ x := fun hyx ↦ h (hyx ▸ hy)
  rw [Env.define, if_neg hyx]

/-- A substitution result evaluates like the original expression with the name defined as the value
of the substituted one. -/
theorem Substitutes.eval_eq {x : String} {a b c : Expr} (h : Substitutes x a b c) {env : Env}
    {v : Int} (ha : eval env a = .ok v) : eval env c = eval (env.define x v) b := by
  induction h generalizing env v with
  | self x a =>
    rw [ha, eval_var, Env.define, if_pos rfl]
  | other hyx => rw [eval_var, eval_var, Env.define, if_neg hyx]
  | const => rw [eval_const, eval_const]
  | add _ _ ihb ihd => rw [eval_add, eval_add, ihb ha, ihd ha]
  | @hidden x a e e' b _ ih =>
    rw [eval_letIn, eval_letIn, ih ha]
    cases eval (env.define x v) e with
    | error u => rfl
    | ok w => exact congrArg (eval · b) (env.define_define_self v w x).symm
  | @under x y a e e' b b' hyx hfree _ _ ihe ihb =>
    rw [eval_letIn, eval_letIn, ihe ha]
    cases eval (env.define x v) e with
    | error u => rfl
    | ok w =>
      have ha' : eval (env.define y w) a = .ok v := (eval_define_of_not_mem hfree w).trans ha
      exact (ihb ha').trans (congrArg (eval · b) (env.define_comm w v hyx))
  | @renamed x y z a e e' b b₁ b' hyx hfree hzx hza hzb _ _ _ ihe ihb₁ ihb =>
    rw [eval_letIn, eval_letIn, ihe ha]
    cases eval (env.define x v) e with
    | error u => rfl
    | ok w =>
      have hzy : z ≠ y := fun hzy ↦ hza (hzy ▸ hfree)
      have ha' : eval (env.define z w) a = .ok v := (eval_define_of_not_mem hza w).trans ha
      have hz : eval ((env.define z w).define x v) (var z) = .ok w := by
        rw [eval_var, Env.define, if_neg hzx, Env.define, if_pos rfl]
      calc eval (env.define z w) b'
          = eval ((env.define z w).define x v) b₁ := ihb ha'
        _ = eval (((env.define z w).define x v).define y w) b := ihb₁ hz
        _ = eval (((env.define x v).define y w).define z w) b := by
          rw [env.define_comm w v hzx, (env.define x v).define_comm w w hzy]
        _ = eval ((env.define x v).define y w) b := eval_define_of_not_mem hzb w

/-- A local definition reports what is reported of the expression that it binds. If that one has a
value, the definition comes to the same as its body with the expression in place of the name: to the
same value, or to the same name without a meaning. -/
theorem letIn_substitution (x : String) (a b : Expr) (env : Env) :
    (∀ u, eval env a = .error u → eval env (letIn x a b) = .error u) ∧
      (∃ c, Substitutes x a b c) ∧
      ∀ v, eval env a = .ok v → ∀ c, Substitutes x a b c →
        eval env (letIn x a b) = eval env c := by
  refine ⟨fun u ha ↦ ?_, exists_substitutes x a b, fun v ha c hc ↦ ?_⟩
  · rw [eval_letIn, ha]
  · rw [eval_letIn, ha, hc.eval_eq ha]

/-- `let y = x in x + y` with `y + 1` for `x` is `let z = y + 1 in y + 1 + z`: the `y` that is
defined gets another name, as it is not the one that is substituted. -/
theorem letIn_substitution_renamed :
    let a : Expr := add (var "y") (.const 1)
    let b : Expr := letIn "y" (var "x") (add (var "x") (var "y"))
    let c : Expr := letIn "z" a (add a (var "z"))
    let env : Env := Env.ofList [("y", 5)]
    Substitutes "x" a b c ∧ eval env a = .ok 6 ∧ eval env (letIn "x" a b) = eval env c ∧
      eval env c = .ok 12 ∧ eval Env.empty a = .error ⟨"y"⟩ ∧
      eval Env.empty (letIn "x" a b) = .error ⟨"y"⟩ := by
  intro a b c env
  have hrenamed : Substitutes "y" (var "z") (add (var "x") (var "y")) (add (var "x") (var "z")) :=
    .add (.other (by decide)) (.self _ _)
  have hbody : Substitutes "x" a (add (var "x") (var "z")) (add a (var "z")) :=
    .add (.self _ _) (.other (by decide))
  have hc : Substitutes "x" a b c :=
    .renamed (by decide) (by decide) (by decide) (by decide) (by decide) (.self _ _) hrenamed hbody
  exact ⟨hc, rfl, (letIn_substitution "x" a b env).2.2 6 rfl c hc, rfl, rfl,
    (letIn_substitution "x" a b Env.empty).1 ⟨"y"⟩ rfl⟩

end Expr
end Backtrack
