import Backtrack.Proofs.Expr.Evaluation
import Backtrack.Proofs.Expr.Inspection
import Backtrack.Proofs.Expr.Printing
import Mathlib.Data.List.Induction

/-!
# Loops along the left-hand sides of a sum

A long sum leans to the left, and what is made of it is made by a loop along its left-hand sides:
only its right operands are gone into. Such a loop takes a sum apart into operands that build the
same sum again, and a sum that was built from operands into just these: `unsum_inverts_sum`.

`Loop` has the operands, the structure, the source and the value of an expression by a loop, and
`Recursive` has the last three by plain recursion on the expression. Both are the same as the
functions `inspect`, `source` and `eval`, whatever stands at the ends of the loops and in the right
operands, and both fail where `inspect?` and `source?` do, on a constant that is too long to be
written: `loops_recursive`.
-/

namespace Backtrack.Expr

/-! ### Taking a sum apart and building it -/

/-- The leftmost operand, and the operands behind it, last first, appended to `found`. -/
def Loop.unsumBehind (found : List Expr) : Expr → Expr × List Expr
  | add a b => unsumBehind (found ++ [b]) a
  | e => (e, found)

/-- The operands of a sum by a loop that finds the last one first and reverses them at the end. -/
def Loop.unsum (e : Expr) : Expr × List Expr :=
  ((unsumBehind [] e).1, (unsumBehind [] e).2.reverse)

/-- The loop appends the operands it finds, last first, to those found before. -/
private theorem Loop.unsumBehind_eq (found : List Expr) (e : Expr) :
    unsumBehind found e = (e.unsum.1, found ++ e.unsum.2.reverse) := by
  induction e generalizing found with
  | var x => exact congrArg (Prod.mk _) (List.append_nil found).symm
  | const k => exact congrArg (Prod.mk _) (List.append_nil found).symm
  | letIn x e b => exact congrArg (Prod.mk _) (List.append_nil found).symm
  | add a b iha _ =>
    rw [unsumBehind, iha, unsum_add, List.reverse_append, List.append_assoc,
      List.reverse_singleton]

/-- The loop finds the operands that `unsum` gives. -/
theorem Loop.unsum_eq (e : Expr) : Loop.unsum e = e.unsum := by
  rw [Loop.unsum, unsumBehind_eq, List.nil_append, List.reverse_reverse]

/-- A function of expressions determined by the left operand and an operation on the right one is a
fold over the operands. -/
theorem foldl_unsum {α : Type} (f : Expr → α) (g : α → Expr → α)
    (h : ∀ a b, f (add a b) = g (f a) b) (e : Expr) :
    e.unsum.2.foldl g (f e.unsum.1) = f e := by
  induction e with
  | var x => rfl
  | const k => rfl
  | letIn x e b => rfl
  | add a b iha _ =>
    rw [unsum_add, List.foldl_append, iha, h]
    rfl

/-- A partial function of expressions determined in this way is a monadic fold, which fails at the
first operand that fails. -/
theorem foldlM_unsum {α : Type} (f : Expr → Option α) (g : α → Expr → Option α)
    (h : ∀ a b, f (add a b) = f a >>= (g · b)) (e : Expr) :
    (f e.unsum.1 >>= e.unsum.2.foldlM g) = f e := by
  induction e with
  | var x => exact bind_pure _
  | const k => exact bind_pure _
  | letIn x e b => exact bind_pure _
  | add a b iha _ =>
    have hlast : (e : α) → (a.unsum.2 ++ [b]).foldlM g e = a.unsum.2.foldlM g e >>= (g · b) := by
      intro e
      rw [List.foldlM_append]
      congr 1
      funext e'
      exact bind_pure _
    rw [unsum_add, h, ← iha, bind_assoc]
    exact congrArg _ (funext hlast)

/-- The operands of an expression sum to the expression. -/
theorem sum_unsum (e : Expr) : sum e.unsum.1 e.unsum.2 = e := foldl_unsum id add (fun _ _ ↦ rfl) e

/-- The leftmost operand of an expression is no sum. -/
theorem isSum_unsum (e : Expr) : e.unsum.1.isSum = false := by
  induction e with
  | var x => rfl
  | const k => rfl
  | letIn x e b => rfl
  | add a b iha _ =>
    rw [unsum_add]
    exact iha

/-- An expression that is no sum is its own only operand. -/
theorem unsum_of_isSum_eq_false {e : Expr} (h : e.isSum = false) : e.unsum = (e, []) := by
  cases e with
  | add a b => cases h
  | _ => rfl

/-- The operands of a sum are those of its first operand followed by the added ones. -/
theorem unsum_sum (first : Expr) (rest : List Expr) :
    (sum first rest).unsum = (first.unsum.1, first.unsum.2 ++ rest) := by
  induction rest using List.reverseRecOn with
  | nil =>
    rw [List.append_nil]
    rfl
  | append_singleton rest b ih => rw [sum_concat, unsum_add, ih, List.append_assoc]

/-- Taking a sum apart and building it undo each other. The operands of an expression, the leftmost
of which is no sum, build that expression, and they are those that a loop along the left-hand sides
finds from the last one to the first. A sum of operands of which the first is no sum has just these
operands; and if the first one is a sum, its own operands come in front of the others. -/
theorem unsum_inverts_sum :
    (∀ e : Expr, e.unsum = Loop.unsum e ∧ e.unsum.1.isSum = false ∧
      sum e.unsum.1 e.unsum.2 = e) ∧
      (∀ (first : Expr) (rest : List Expr), first.isSum = false →
        (sum first rest).unsum = (first, rest)) ∧
      ∀ (first : Expr) (rest : List Expr),
        (sum first rest).unsum = (first.unsum.1, first.unsum.2 ++ rest) := by
  refine ⟨fun e ↦ ⟨(Loop.unsum_eq e).symm, isSum_unsum e, sum_unsum e⟩, fun first rest h ↦ ?_,
    unsum_sum⟩
  rw [unsum_sum, unsum_of_isSum_eq_false h, List.nil_append]

/-- A local definition whose body is a sum, and behind it a sum in parentheses and a name. -/
theorem unsum_inverts_sum_nested :
    let first := letIn "x" (const 1) (add (var "x") (const 2))
    let rest := [add (add (const 3) (var "y")) (const 4), var "z"]
    first.isSum = false ∧ (sum first rest).unsum = (first, rest) := by
  intro first rest
  have hfirst : first.isSum = false := rfl
  exact ⟨hfirst, unsum_inverts_sum.2.1 first rest hfirst⟩

/-! ### Plain recursion -/

namespace Recursive

/-- The structure of an expression, by plain recursion. -/
def inspect : Expr → String
  | var x => "Var(" ++ Text.quoted x ++ ")"
  | const k => "Const(" ++ String.ofList (Text.Numeral.ofInt k) ++ ")"
  | add a b => "Add(" ++ inspect a ++ ", " ++ inspect b ++ ")"
  | letIn x e b => "Let(" ++ Text.quoted x ++ ", " ++ inspect e ++ ", " ++ inspect b ++ ")"

/-- The source of an expression, by plain recursion. -/
def source : Expr → String
  | var x => x
  | const k => String.ofList (Text.Numeral.ofInt k)
  | add a b => "(" ++ source a ++ " + " ++ source b ++ ")"
  | letIn x e b => "(let " ++ x ++ " = " ++ source e ++ " in " ++ source b ++ ")"

/-- The structure of an expression whose constants can be written, by plain recursion. -/
def inspect? : Expr → Option String
  | var x => some ("Var(" ++ Text.quoted x ++ ")")
  | const k => do return "Const(" ++ String.ofList (← Text.Numeral.ofInt? k) ++ ")"
  | add a b => do return "Add(" ++ (← inspect? a) ++ ", " ++ (← inspect? b) ++ ")"
  | letIn x e b => do
    return "Let(" ++ Text.quoted x ++ ", " ++ (← inspect? e) ++ ", " ++ (← inspect? b) ++ ")"

/-- The source of an expression whose constants can be written, by plain recursion. -/
def source? : Expr → Option String
  | var x => some x
  | const k => do return String.ofList (← Text.Numeral.ofInt? k)
  | add a b => do return "(" ++ (← source? a) ++ " + " ++ (← source? b) ++ ")"
  | letIn x e b => do
    return "(let " ++ x ++ " = " ++ (← source? e) ++ " in " ++ (← source? b) ++ ")"

/-- The value of an expression, by plain recursion; the right operand of a sum comes first. -/
def eval (env : Env) : Expr → Except Unbound Int
  | var x =>
    match env x with
    | some v => .ok v
    | none => .error ⟨x⟩
  | const k => .ok k
  | add a b => do
    let w ← eval env b
    let v ← eval env a
    return v + w
  | letIn x e b => do
    let v ← eval env e
    eval (env.define x v) b

end Recursive

/-! ### Loops over the operands -/

namespace Loop

/-- The structure, written around the leftmost operand with the next operand each time. -/
def inspect (e : Expr) : String :=
  e.unsum.2.foldl (fun text b ↦ "Add(" ++ text ++ ", " ++ b.inspect ++ ")") e.unsum.1.inspect

/-- The source, written around the leftmost operand with the next operand each time. -/
def source (e : Expr) : String :=
  e.unsum.2.foldl (fun text b ↦ "(" ++ text ++ " + " ++ b.source ++ ")") e.unsum.1.source

/-- The structure, if the constants of all operands can be written. -/
def inspect? (e : Expr) : Option String := do
  e.unsum.2.foldlM (fun text b ↦ do return "Add(" ++ text ++ ", " ++ (← b.inspect?) ++ ")")
    (← e.unsum.1.inspect?)

/-- The source, if the constants of all operands can be written. -/
def source? (e : Expr) : Option String := do
  e.unsum.2.foldlM (fun text b ↦ do return "(" ++ text ++ " + " ++ (← b.source?) ++ ")")
    (← e.unsum.1.source?)

/-- The value, with a running total from the rightmost operand to the leftmost one. -/
def eval (env : Env) (e : Expr) : Except Unbound Int := do
  let total ← e.unsum.2.reverse.foldlM (fun total b ↦ return total + (← b.eval env)) 0
  return total + (← e.unsum.1.eval env)

end Loop

/-- The loop computes the structure of every expression. -/
theorem Loop.inspect_eq (e : Expr) : Loop.inspect e = e.inspect :=
  foldl_unsum Expr.inspect _ inspect_add e

/-- The loop computes the source of every expression. -/
theorem Loop.source_eq (e : Expr) : Loop.source e = e.source :=
  foldl_unsum Expr.source _ source_add e

/-- The structure of a sum can be written exactly if those of both operands can. -/
theorem inspect?_add (a b : Expr) : inspect? (add a b) = do
    return "Add(" ++ (← inspect? a) ++ ", " ++ (← inspect? b) ++ ")" := by
  rw [inspect?, isWritable, inspect_add, inspect?, inspect?]
  cases a.isWritable <;> cases b.isWritable <;> rfl

/-- The source of a sum can be written exactly if those of both operands can. -/
theorem source?_add (a b : Expr) : source? (add a b) = do
    return "(" ++ (← source? a) ++ " + " ++ (← source? b) ++ ")" := by
  rw [source?, isWritable, source_add, source?, source?]
  cases a.isWritable <;> cases b.isWritable <;> rfl

/-- The loop computes the structure, or fails where it cannot be written. -/
theorem Loop.inspect?_eq (e : Expr) : Loop.inspect? e = e.inspect? :=
  foldlM_unsum Expr.inspect? _ inspect?_add e

/-- The loop computes the source, or fails where it cannot be written. -/
theorem Loop.source?_eq (e : Expr) : Loop.source? e = e.source? :=
  foldlM_unsum Expr.source? _ source?_add e

/-- A sum evaluates its right operand, then its left one, and adds the values. -/
theorem eval_add_eq_bind (env : Env) (a b : Expr) :
    eval env (add a b) = do
      let w ← eval env b
      let v ← eval env a
      return v + w := by
  rw [eval_add]
  cases eval env b with
  | error u => rfl
  | ok w => cases eval env a <;> rfl

/-- Evaluating the operands from a total adds the value of the expression to the total. -/
theorem Loop.foldlM_unsum (env : Env) (total : Int) (e : Expr) :
    (do
      let total ← e.unsum.2.reverse.foldlM (fun total b ↦ return total + (← b.eval env)) total
      return total + (← e.unsum.1.eval env)) = (do return total + (← e.eval env)) := by
  induction e generalizing total with
  | var x => rfl
  | const k => rfl
  | letIn x e b => rfl
  | add a b iha _ =>
    rw [unsum_add, List.reverse_append, List.reverse_singleton, List.singleton_append,
      List.foldlM_cons, eval_add_eq_bind]
    cases b.eval env with
    | error u => rfl
    | ok w =>
      refine (iha (total + w)).trans ?_
      cases a.eval env with
      | error u => rfl
      | ok v =>
        have hsum : total + w + v = total + (v + w) := by omega
        exact congrArg Except.ok hsum

/-- The loop computes the value of every expression, or reports the same name. -/
theorem Loop.eval_eq (env : Env) (e : Expr) : Loop.eval env e = e.eval env := by
  refine (Loop.foldlM_unsum env 0 e).trans ?_
  cases e.eval env with
  | error u => rfl
  | ok v => exact congrArg Except.ok (Int.zero_add v)

/-! ### The same by recursion -/

/-- Plain recursion computes the structure of every expression. -/
theorem Recursive.inspect_eq (e : Expr) : Recursive.inspect e = e.inspect := by
  induction e with
  | var x => rw [Recursive.inspect, inspect_var]
  | const k => rw [Recursive.inspect, inspect_const]
  | add a b iha ihb => rw [Recursive.inspect, iha, ihb, inspect_add]
  | letIn x e b ihe ihb => rw [Recursive.inspect, ihe, ihb, inspect_letIn]

/-- Plain recursion computes the source of every expression. -/
theorem Recursive.source_eq (e : Expr) : Recursive.source e = e.source := by
  induction e with
  | var x => rw [Recursive.source, source_var]
  | const k => rw [Recursive.source, source_const]
  | add a b iha ihb => rw [Recursive.source, iha, ihb, source_add]
  | letIn x e b ihe ihb => rw [Recursive.source, ihe, ihb, source_letIn]

/-- Plain recursion computes the structure, or fails where it cannot be written. -/
theorem Recursive.inspect?_eq (e : Expr) : Recursive.inspect? e = e.inspect? := by
  induction e with
  | var x => rw [Recursive.inspect?, Expr.inspect?, inspect_var]; rfl
  | const k =>
    simp only [Recursive.inspect?, Expr.inspect?, inspect_const, isWritable, Text.Numeral.ofInt?]
    cases Text.Numeral.isWritable k <;> rfl
  | add a b iha ihb => rw [Recursive.inspect?, iha, ihb, inspect?_add]
  | letIn x e b ihe ihb =>
    simp only [Recursive.inspect?, ihe, ihb, Expr.inspect?, isWritable, inspect_letIn]
    cases e.isWritable <;> cases b.isWritable <;> rfl

/-- Plain recursion computes the source, or fails where it cannot be written. -/
theorem Recursive.source?_eq (e : Expr) : Recursive.source? e = e.source? := by
  induction e with
  | var x => rw [Recursive.source?, Expr.source?, source_var]; rfl
  | const k =>
    simp only [Recursive.source?, Expr.source?, source_const, isWritable, Text.Numeral.ofInt?]
    cases Text.Numeral.isWritable k <;> rfl
  | add a b iha ihb => rw [Recursive.source?, iha, ihb, source?_add]
  | letIn x e b ihe ihb =>
    simp only [Recursive.source?, ihe, ihb, Expr.source?, isWritable, source_letIn]
    cases e.isWritable <;> cases b.isWritable <;> rfl

/-- Plain recursion computes the value of every expression, or reports the same name. -/
theorem Recursive.eval_eq (env : Env) (e : Expr) : Recursive.eval env e = e.eval env := by
  induction e generalizing env with
  | var x =>
    rw [Recursive.eval]
    refine Eq.trans ?_ (eval_var env x).symm
    cases env x <;> rfl
  | const k => rw [Recursive.eval, eval_const]
  | add a b iha ihb => rw [Recursive.eval, iha, ihb, eval_add_eq_bind]
  | letIn x e b ihe ihb =>
    rw [Recursive.eval, ihe, eval_letIn]
    cases e.eval env with
    | error u => rfl
    | ok v => exact ihb (env.define x v)

/-- The structure, the source and the value of a sum come from those of its two operands; the right
operand is evaluated first, and what is wrong with it is reported before what is wrong with the left
one. The structure and the source of an expression with a constant that is too long cannot be
written, and those of a sum can be written if those of both operands can. So the loops along the
left-hand sides have the same outcome for every expression as the plain recursion has. -/
theorem loops_recursive :
    (∀ a b : Expr, inspect (add a b) = "Add(" ++ inspect a ++ ", " ++ inspect b ++ ")") ∧
      (∀ a b : Expr, source (add a b) = "(" ++ source a ++ " + " ++ source b ++ ")") ∧
      (∀ a b : Expr, inspect? (add a b) = do
        return "Add(" ++ (← inspect? a) ++ ", " ++ (← inspect? b) ++ ")") ∧
      (∀ a b : Expr, source? (add a b) = do
        return "(" ++ (← source? a) ++ " + " ++ (← source? b) ++ ")") ∧
      (∀ (env : Env) (a b : Expr), eval env (add a b) = do
        let w ← eval env b
        let v ← eval env a
        return v + w) ∧
      ∀ e : Expr,
        (inspect e = Loop.inspect e ∧ inspect e = Recursive.inspect e) ∧
        (source e = Loop.source e ∧ source e = Recursive.source e) ∧
        (inspect? e = Loop.inspect? e ∧ inspect? e = Recursive.inspect? e) ∧
        (source? e = Loop.source? e ∧ source? e = Recursive.source? e) ∧
        ∀ env, eval env e = Loop.eval env e ∧ eval env e = Recursive.eval env e :=
  ⟨inspect_add, source_add, inspect?_add, source?_add, eval_add_eq_bind, fun e ↦
    ⟨⟨(Loop.inspect_eq e).symm, (Recursive.inspect_eq e).symm⟩,
      ⟨(Loop.source_eq e).symm, (Recursive.source_eq e).symm⟩,
      ⟨(Loop.inspect?_eq e).symm, (Recursive.inspect?_eq e).symm⟩,
      ⟨(Loop.source?_eq e).symm, (Recursive.source?_eq e).symm⟩,
      fun env ↦ ⟨(Loop.eval_eq env e).symm, (Recursive.eval_eq env e).symm⟩⟩⟩

end Backtrack.Expr
