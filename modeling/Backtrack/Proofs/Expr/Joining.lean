import Backtrack.Proofs.Expr.Evaluation
import Backtrack.Proofs.Expr.LeftRecursion
import Mathlib.Data.List.Induction

/-!
# Two expressions with a plus between them

Two rows of tokens that are expressions are one expression with `+` between them. It is not the sum
of the two: the operands of the second one follow those of the first one in the same chain, or they
go into the body where the first one ends with a local definition. In a chain the values are added
all the same, and the name that is reported is that of the second expression first, since the
operands are evaluated from right to left. The main statement is `joining_with_plus`.
-/

namespace Backtrack.Expr

open Backtrack.Parser

/-! ### Operands in a row -/

/-- The sum of two values. An error of the second operand takes precedence over one of the first. -/
def added : Except Unbound Int → Except Unbound Int → Except Unbound Int
  | _, .error u => .error u
  | .error u, .ok _ => .error u
  | .ok v, .ok w => .ok (v + w)

/-- Adding values is associative, errors included. -/
theorem added_assoc (r s t : Except Unbound Int) : added (added r s) t = added r (added s t) := by
  cases t with
  | error u => cases r <;> rfl
  | ok w =>
    cases s with
    | error u => cases r <;> rfl
    | ok v =>
      cases r with
      | error u => rfl
      | ok k => exact congrArg Except.ok (Int.add_assoc k v w)

/-- A sum evaluates to the added values of its operands. -/
theorem eval_add_eq_added (env : Env) (a b : Expr) :
    eval env (add a b) = added (eval env a) (eval env b) := by
  rw [eval_add]
  cases eval env b with
  | error u => cases eval env a <;> rfl
  | ok v => cases eval env a <;> rfl

/-- Adding to the first operand of a row adds to the value of the row. -/
theorem eval_sum_add (env : Env) (a b : Expr) (bs : List Expr) :
    eval env (sum (add a b) bs) = added (eval env a) (eval env (sum b bs)) := by
  induction bs using List.reverseRecOn with
  | nil => exact eval_add_eq_added env a b
  | append_singleton bs c ih =>
    rw [sum_concat, eval_add_eq_added, ih, added_assoc, sum_concat, eval_add_eq_added]

/-- Appending operands to a row adds the value of the appended ones. -/
theorem eval_sum_append (env : Env) (a b : Expr) (as bs : List Expr) :
    eval env (sum a (as ++ b :: bs)) = added (eval env (sum a as)) (eval env (sum b bs)) := by
  have hsum : sum a (as ++ b :: bs) = sum (add (sum a as) b) bs := by
    rw [sum, List.foldl_append, List.foldl_cons, sum, sum]
  rw [hsum, eval_sum_add]

/-! ### The last term -/

/-- The local definition that ends a continuation, if there is one. -/
def RestDerivation.lastLet? : RestDerivation → Option LetDerivation
  | .nil => none
  | .atom _ rest => rest.lastLet?
  | .letIn d => some d

/-- The local definition that is the last operand of an expression, if there is one. -/
def ExprDerivation.lastLet? : ExprDerivation → Option LetDerivation
  | .letIn d => some d
  | .sum _ rest => rest.lastLet?

/-- A local definition with its body replaced. -/
def LetDerivation.withBody (b : Expr) : LetDerivation → Expr
  | .letIn x bound _ => Expr.letIn x.text bound.value b

/-- The operands of a continuation, with the body of a local definition at its end replaced. -/
def RestDerivation.withLastBody (b : Expr) : RestDerivation → List Expr
  | .nil => []
  | .atom d rest => d.value :: rest.withLastBody b
  | .letIn d => [d.withBody b]

/-- The value of an expression, with the body of a local definition at its end replaced. -/
def ExprDerivation.withLastBody (b : Expr) : ExprDerivation → Expr
  | .letIn d => d.withBody b
  | .sum first rest => Expr.sum first.value (rest.withLastBody b)

/-- The operands of an expression as a continuation sum to its value. -/
theorem ExprDerivation.exists_value_rest (d : ExprDerivation) :
    ∃ a as, d.rest.value = a :: as ∧ Expr.sum a as = d.value := by
  cases d with
  | letIn d => exact ⟨d.value, [], rfl, rfl⟩
  | sum a c => exact ⟨a.value, c.value, rfl, rfl⟩

/-- Joining to a continuation without a local definition at its end appends the operands. -/
theorem RestDerivation.value_join_of_none : ∀ (c : RestDerivation) (e : ExprDerivation),
    c.lastLet? = none → (c.join e).value = c.value ++ e.rest.value
  | .nil, _, _ => rfl
  | .atom a c, e, h => by
    rw [RestDerivation.join, RestDerivation.value, c.value_join_of_none e h, RestDerivation.value,
      List.cons_append]

/-- Joining to an expression without a local definition at its end adds both values. -/
theorem ExprDerivation.eval_value_join {d : ExprDerivation} (h : d.lastLet? = none)
    (e : ExprDerivation) (env : Env) :
    eval env (d.join e).value = added (eval env d.value) (eval env e.value) := by
  cases d with
  | letIn d => cases h
  | sum a c =>
    obtain ⟨b, bs, hrest, hvalue⟩ := e.exists_value_rest
    rw [ExprDerivation.join, ExprDerivation.value, c.value_join_of_none e h, hrest,
      eval_sum_append, hvalue, ExprDerivation.value]

/-- Joining to a continuation that ends with a local definition joins to the body of that
definition. -/
theorem RestDerivation.value_join_of_some {x : Name} {bound body : ExprDerivation} :
    ∀ (c : RestDerivation) (e : ExprDerivation), c.lastLet? = some (.letIn x bound body) →
      (c.join e).value = c.withLastBody (body.join e).value
  | .atom a c, e, h => by
    rw [RestDerivation.join, RestDerivation.value, c.value_join_of_some e h,
      RestDerivation.withLastBody]
  | .letIn d, e, h => by
    obtain rfl := Option.some.inj h
    rfl

/-- Joining to an expression that ends with a local definition joins to the body of that
definition. -/
theorem ExprDerivation.value_join_of_some {d : ExprDerivation} {x : Name}
    {bound body : ExprDerivation} (h : d.lastLet? = some (.letIn x bound body))
    (e : ExprDerivation) : (d.join e).value = d.withLastBody (body.join e).value := by
  cases d with
  | letIn d =>
    obtain rfl := Option.some.inj h
    rfl
  | sum a c =>
    rw [ExprDerivation.join, ExprDerivation.value, c.value_join_of_some e h,
      ExprDerivation.withLastBody]

/-! ### Joining -/

/-- The tokens are read as a whole as this expression and no other. The only fault of a run is an
overflow, and only where the room does not exceed the openings of the tokens. -/
def OnlyReading (ts : List Token) (e : Expr) : Prop :=
  ∀ room, (parser room).complete ts = .ok [e] ∨
    (parser room).complete ts = .error .overflow ∧ room ≤ openings ts

/-- The value of a derivation is the only reading of its tokens. -/
theorem onlyReading_tokens (d : ExprDerivation) : OnlyReading d.tokens d.value :=
  fun room ↦ complete_tokens room d

/-- With more room than openings, the only reading is the one complete value. -/
theorem OnlyReading.complete_eq {ts : List Token} {e : Expr} (h : OnlyReading ts e) {room : Nat}
    (hroom : openings ts < room) : (parser room).complete ts = .ok [e] := by
  rcases h room with h | ⟨-, hle⟩
  · exact h
  · omega

/-- Tokens have at most one expression as their only reading. -/
theorem OnlyReading.unique {ts : List Token} {e e' : Expr} (h : OnlyReading ts e)
    (h' : OnlyReading ts e') : e = e' := by
  have hroom : openings ts < openings ts + 1 := Nat.lt_succ_self _
  have heq := (h.complete_eq hroom).symm.trans (h'.complete_eq hroom)
  exact (List.cons.inj (Except.ok.inj heq)).1

/-- A complete value of the parser has exactly one derivation. -/
theorem exists_derivation_of_complete {room : Nat} {ts : List Token} {e : Expr}
    (h : (parser room).complete ts = .ok [e]) :
    ∃ d : ExprDerivation, d.tokens = ts ∧ d.value = e ∧
      ∀ d' : ExprDerivation, d'.tokens = ts → d' = d := by
  obtain ⟨d, htokens, hvalue⟩ :=
    ((parser_reads room).mem_complete_iff h).mp (List.mem_singleton_self e)
  refine ⟨d, htokens, hvalue, fun d' htokens' ↦ ?_⟩
  have hnil : Stops [] := by simp [Stops]
  have heq : d'.tokens ++ [] = d.tokens ++ [] := by rw [htokens, htokens']
  exact (d'.unique d hnil hnil heq).1

/-- Two rows of tokens that are expressions are one expression with `+` between them, in exactly one
way. If the first one ends with an atom, the value is the sum of the two values, and a name without
a meaning is reported of the second one first. If it ends with a local definition, the expression is
the first one with another body there, namely that of the tokens of the body, `+` and the second
row. -/
theorem joining_with_plus {room room' : Nat} {u v : List Token} {e₁ e₂ : Expr}
    (hu : (parser room).complete u = .ok [e₁]) (hv : (parser room').complete v = .ok [e₂]) :
    ∃ (e : Expr) (d : ExprDerivation), OnlyReading (u ++ .symbol '+' :: v) e ∧
      (d.tokens = u ∧ d.value = e₁ ∧ ∀ d' : ExprDerivation, d'.tokens = u → d' = d) ∧
      (d.lastLet? = none → ∀ env, eval env e = added (eval env e₁) (eval env e₂)) ∧
      ∀ x bound body, d.lastLet? = some (.letIn x bound body) →
        ∃ b, OnlyReading (body.tokens ++ .symbol '+' :: v) b ∧ e = d.withLastBody b := by
  obtain ⟨d, rfl, rfl, hunique⟩ := exists_derivation_of_complete hu
  obtain ⟨d', rfl, rfl, -⟩ := exists_derivation_of_complete hv
  have hjoin (d₀ : ExprDerivation) :
      OnlyReading (d₀.tokens ++ .symbol '+' :: d'.tokens) (d₀.join d').value := by
    rw [← d₀.tokens_join]
    exact onlyReading_tokens (d₀.join d')
  refine ⟨(d.join d').value, d, hjoin d, ⟨rfl, rfl, hunique⟩, ?_, ?_⟩
  · intro h env
    exact ExprDerivation.eval_value_join h d' env
  · intro x bound body h
    exact ⟨_, hjoin body, ExprDerivation.value_join_of_some h d'⟩

/-- Behind `a + b` the operands of `x + 3` are two more of the same chain, where it is `x` that is
reported as long as no name has a meaning. Behind `1 + let x = 2 in x` they belong to the body. -/
theorem joining_with_plus_chain_body :
    let chain : List Token := [.identifier "a", .symbol '+', .identifier "b"]
    let definition : List Token := [.number 1, .symbol '+', .identifier "let", .identifier "x",
      .symbol '=', .number 2, .identifier "in", .identifier "x"]
    let v : List Token := [.identifier "x", .symbol '+', .number 3]
    ((parser 1).complete chain = .ok [add (var "a") (var "b")] ∧
      (parser 2).complete definition = .ok [add (const 1) (letIn "x" (const 2) (var "x"))] ∧
      (parser 1).complete v = .ok [add (var "x") (const 3)]) ∧
      (∃ e, OnlyReading (chain ++ .symbol '+' :: v) e ∧ eval Env.empty e = .error ⟨"x"⟩) ∧
      OnlyReading (definition ++ .symbol '+' :: v)
        (add (const 1) (letIn "x" (const 2) (add (add (var "x") (var "x")) (const 3)))) := by
  intro chain definition v
  let a : Name := ⟨"a", by decide⟩
  let b : Name := ⟨"b", by decide⟩
  let x : Name := ⟨"x", by decide⟩
  let inner : ExprDerivation := .sum (.name x) .nil
  let dchain : ExprDerivation := .sum (.name a) (.atom (.name b) .nil)
  let ddefinition : ExprDerivation :=
    .sum (.number 1) (.letIn (.letIn x (.sum (.number 2) .nil) inner))
  let dv : ExprDerivation := .sum (.name x) (.atom (.number 3) .nil)
  have hchain : (parser 1).complete chain = .ok [add (var "a") (var "b")] :=
    (onlyReading_tokens dchain).complete_eq (by decide)
  have hdefinition : (parser 2).complete definition =
      .ok [add (const 1) (letIn "x" (const 2) (var "x"))] :=
    (onlyReading_tokens ddefinition).complete_eq (by decide)
  have hv : (parser 1).complete v = .ok [add (var "x") (const 3)] :=
    (onlyReading_tokens dv).complete_eq (by decide)
  refine ⟨⟨hchain, hdefinition, hv⟩, ?_, ?_⟩
  · obtain ⟨e, d, he, ⟨-, -, hunique⟩, hatoms, -⟩ := joining_with_plus hchain hv
    obtain rfl := hunique dchain rfl
    exact ⟨e, he, (hatoms rfl Env.empty).trans rfl⟩
  · obtain ⟨e, d, he, ⟨-, -, hunique⟩, -, hlet⟩ := joining_with_plus hdefinition hv
    obtain rfl := hunique ddefinition rfl
    obtain ⟨e', he', rfl⟩ := hlet x (.sum (.number 2) .nil) inner rfl
    have hbody : e' = add (add (var "x") (var "x")) (const 3) :=
      he'.unique (onlyReading_tokens (inner.join dv))
    rw [hbody] at he
    exact he

end Backtrack.Expr
