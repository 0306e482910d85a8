import Backtrack.Expr.Basic

/-!
# The value of an expression

The right operand of a sum is evaluated before the left one, and what a local definition binds
before its body; so the first name without a meaning, in that order, is the one reported. A
sum is evaluated in one pass down its left-hand sides, with the total so far carried along;
`evalOnto_eq` says that the total is added to the value.
-/

namespace Backtrack

/-- What the names mean. -/
abbrev Env := String → Option Int

namespace Env

/-- No name has a meaning. -/
def empty : Env := fun _ ↦ none

/-- One name with a new meaning, in place of the one it had. -/
def define (env : Env) (name : String) (value : Int) : Env :=
  fun x ↦ if x = name then some value else env x

/-- The meanings in a list; an earlier entry for a name hides a later one. -/
def ofList (meanings : List (String × Int)) : Env := fun x ↦ meanings.lookup x

end Env

/-- A name without a meaning. -/
structure Unbound where
  /-- The name. -/
  name : String
  deriving DecidableEq, Repr

namespace Expr

/-- The value of an expression on top of a total. -/
def evalOnto (env : Env) (total : Int) : Expr → Except Unbound Int
  | const k => .ok (total + k)
  | var x =>
    match env x with
    | some v => .ok (total + v)
    | none => .error ⟨x⟩
  | add a b =>
    match evalOnto env 0 b with
    | .error e => .error e
    | .ok v => evalOnto env (total + v) a
  | letIn x e b =>
    match evalOnto env 0 e with
    | .error e => .error e
    | .ok v => evalOnto (env.define x v) total b

/-- The value of an expression. -/
def eval (env : Env) (e : Expr) : Except Unbound Int := evalOnto env 0 e

/-- The total that an expression is evaluated on top of is added to its value. -/
theorem evalOnto_eq (env : Env) (total : Int) (e : Expr) :
    evalOnto env total e = (eval env e).map (total + ·) := by
  unfold eval
  induction e generalizing env total with
  | var x =>
    rw [evalOnto, evalOnto]
    cases env x with
    | none => rfl
    | some v => simp [Except.map]
  | const k => simp [evalOnto, Except.map]
  | add a b iha _ =>
    rw [evalOnto, evalOnto]
    cases evalOnto env 0 b with
    | error e => rfl
    | ok v =>
      simp only [iha env (total + v), iha env (0 + v)]
      cases evalOnto env 0 a with
      | error e => rfl
      | ok w => simp [Except.map, Int.add_assoc]
  | letIn x e b _ ihb =>
    rw [evalOnto, evalOnto]
    cases evalOnto env 0 e with
    | error e => rfl
    | ok v => exact ihb (env.define x v) total

end Expr
end Backtrack
