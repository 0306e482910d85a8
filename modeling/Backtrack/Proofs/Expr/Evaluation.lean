import Backtrack.Expr.Eval
import Mathlib.Data.List.Find

/-!
# Values and free names

An expression stands for a number as soon as its free names do: this is its `value`. The free
names are listed in the order in which the evaluation comes across them, and so the first of them
without a meaning is the one that is reported; without such a name, the evaluation comes to the
value. This is `eval_eq`. An expression without free names has the same value wherever it stands.
-/

namespace Backtrack.Expr

/-- The free names of an expression in the order of evaluation; a local definition binds its name in
its body only. -/
def free : Expr → List String
  | var x => [x]
  | const _ => []
  | add a b => b.free ++ a.free
  | letIn x e b => e.free ++ b.free.filter (· ≠ x)

/-- An expression without free names. -/
def Closed (e : Expr) : Prop := e.free = []

instance : DecidablePred Closed := fun e ↦ inferInstanceAs (Decidable (e.free = []))

/-- The number denoted by an expression under a total assignment of numbers to names. -/
def value (meaning : String → Int) : Expr → Int
  | var x => meaning x
  | const k => k
  | add a b => a.value meaning + b.value meaning
  | letIn x e b => b.value fun y ↦ if y = x then e.value meaning else meaning y

/-! ### Evaluation step by step -/

/-- A constant evaluates to itself. -/
theorem eval_const (env : Env) (k : Int) : eval env (const k) = .ok k :=
  congrArg Except.ok (Int.zero_add k)

/-- A name evaluates to its meaning, and without one it is reported. -/
theorem eval_var (env : Env) (x : String) :
    eval env (var x) = match env x with
      | some v => .ok v
      | none => .error ⟨x⟩ := by
  rw [eval, evalOnto]
  cases env x with
  | none => rfl
  | some v => exact congrArg Except.ok (Int.zero_add v)

/-- A sum evaluates its right operand before the left one. -/
theorem eval_add (env : Env) (a b : Expr) :
    eval env (add a b) = match eval env b with
      | .error u => .error u
      | .ok v => (eval env a).map (· + v) := by
  rw [eval, evalOnto, ← eval]
  cases eval env b with
  | error u => rfl
  | ok v =>
    simp only [evalOnto_eq env (0 + v) a]
    cases eval env a with
    | error u => rfl
    | ok w =>
      have hsum : 0 + v + w = w + v := by omega
      exact congrArg Except.ok hsum

/-- A local definition evaluates the bound expression before its body. -/
theorem eval_letIn (env : Env) (x : String) (e b : Expr) :
    eval env (letIn x e b) = match eval env e with
      | .error u => .error u
      | .ok v => eval (env.define x v) b := rfl

/-! ### The value and the names without a meaning -/

/-- Evaluation reports the first free name without a meaning, and without such a name it gives the
denoted number. -/
theorem eval_eq (env : Env) (e : Expr) :
    eval env e = match e.free.find? fun x ↦ (env x).isNone with
      | some x => .error ⟨x⟩
      | none => .ok (e.value fun x ↦ (env x).getD 0) := by
  induction e generalizing env with
  | var x =>
    rw [eval_var, free]
    cases hx : env x with
    | none => simp [hx]
    | some v => simp [hx, value]
  | const k => exact eval_const env k
  | add a b iha ihb =>
    rw [eval_add, iha, ihb, free, List.find?_append]
    cases b.free.find? fun x ↦ (env x).isNone with
    | some x => rfl
    | none =>
      rw [Option.none_or]
      cases a.free.find? fun x ↦ (env x).isNone with
      | some x => rfl
      | none => rfl
  | letIn x e b ihe ihb =>
    rw [eval_letIn, ihe, free, List.find?_append]
    cases e.free.find? fun y ↦ (env y).isNone with
    | some y => rfl
    | none =>
      -- In the body a name has no meaning if it has none outside and is not the defined one.
      have hfind (v : Int) : (b.free.filter (· ≠ x)).find? (fun y ↦ (env y).isNone) =
          b.free.find? fun y ↦ (env.define x v y).isNone := by
        rw [List.find?_filter]
        congr 1
        funext y
        by_cases hy : y = x
        · simp [Env.define, hy]
        · simp only [Env.define, if_neg hy, decide_eq_true hy, true_and, Bool.decide_eq_true]
      have hvalue (v : Int) : (b.value fun y ↦ (env.define x v y).getD 0) =
          b.value fun y ↦ if y = x then v else (env y).getD 0 := by
        congr 1
        funext y
        rw [Env.define]
        split <;> rfl
      simp only [ihb, Option.none_or, hfind (e.value fun y ↦ (env y).getD 0), hvalue, value]

/-- The denoted number depends on the free names only. -/
theorem value_congr {m m' : String → Int} {e : Expr} (h : ∀ x ∈ e.free, m x = m' x) :
    e.value m = e.value m' := by
  induction e generalizing m m' with
  | var x => exact h x List.mem_cons_self
  | const k => rfl
  | add a b iha ihb =>
    rw [value, value, iha fun x hx ↦ h x (List.mem_append_right _ hx),
      ihb fun x hx ↦ h x (List.mem_append_left _ hx)]
  | letIn x e b ihe ihb =>
    have he : e.value m = e.value m' := ihe fun y hy ↦ h y (List.mem_append_left _ hy)
    rw [value, value]
    apply ihb
    intro y hy
    by_cases hyx : y = x
    · rw [if_pos hyx, if_pos hyx, he]
    · rw [if_neg hyx, if_neg hyx]
      exact h y (List.mem_append_right _ (List.mem_filter.mpr ⟨hy, decide_eq_true hyx⟩))

/-- Environments that agree on the free names of an expression evaluate it alike, reported names
included. -/
theorem eval_congr {env env' : Env} {e : Expr} (h : ∀ x ∈ e.free, env x = env' x) :
    eval env e = eval env' e := by
  have hfind : (e.free.find? fun x ↦ (env x).isNone) = e.free.find? fun x ↦ (env' x).isNone :=
    List.find?_congr fun x hx ↦ by rw [h x hx]
  have hvalue : (e.value fun x ↦ (env x).getD 0) = e.value fun x ↦ (env' x).getD 0 :=
    value_congr fun x hx ↦ by rw [h x hx]
  rw [eval_eq, eval_eq, hfind, hvalue]

/-- An expression whose free names all have meanings evaluates to the number that it denotes. -/
theorem eval_eq_ok {env : Env} {e : Expr} {meaning : String → Int}
    (h : ∀ x ∈ e.free, env x = some (meaning x)) : eval env e = .ok (e.value meaning) := by
  have hfind : (e.free.find? fun x ↦ (env x).isNone) = none :=
    List.find?_eq_none.mpr fun x hx ↦ by simp [h x hx]
  have hvalue : (e.value fun x ↦ (env x).getD 0) = e.value meaning :=
    value_congr fun x hx ↦ by rw [h x hx, Option.getD_some]
  rw [eval_eq, hfind, hvalue]

/-- An expression without free names evaluates to the number that it denotes in every
environment. -/
theorem Closed.eval_eq_ok {e : Expr} (h : e.Closed) (env : Env) (meaning : String → Int) :
    eval env e = .ok (e.value meaning) := by
  apply Expr.eval_eq_ok
  rw [h]
  exact fun x hx ↦ absurd hx List.not_mem_nil

/-- Evaluation reports a name exactly if it is the first free name without a meaning. -/
theorem eval_eq_error_iff {env : Env} {e : Expr} {x : String} :
    eval env e = .error ⟨x⟩ ↔ (e.free.find? fun y ↦ (env y).isNone) = some x := by
  rw [eval_eq]
  cases e.free.find? fun y ↦ (env y).isNone with
  | none => exact ⟨nofun, nofun⟩
  | some y => simp only [Except.error.injEq, Unbound.mk.injEq, Option.some.injEq]

/-- The empty environment reports the first free name of an expression that has one. -/
theorem eval_empty_of_free {e : Expr} {x : String} {xs : List String} (h : e.free = x :: xs) :
    eval Env.empty e = .error ⟨x⟩ := by
  rw [eval_eq_error_iff, h]
  rfl

end Backtrack.Expr
