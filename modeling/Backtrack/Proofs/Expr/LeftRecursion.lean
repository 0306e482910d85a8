import Backtrack.Proofs.Expr.Order

/-!
# The grammar with left recursion

The grammar of expressions as one would write it down first:

* an expression is an expression, `+` and a term, or a term;
* a term is `let`, a name, `=`, an expression, `in` and an expression, or a name, or a number, or
  an expression in parentheses.

No parser can follow it, and it derives a sum behind a local definition in two ways, as the end
of the body and as an operand. It has the same language as the grammar that is read. Each
derivation there is one here in which no local definition has a `+` behind it: `toLeft` and
`exists_toLeft`. Any other derivation is rebuilt by moving what comes behind a local definition
into its body: `join` and `toRight`.
-/

namespace Backtrack.Expr

open Backtrack.Parser

mutual

/-- A derivation of an expression. -/
inductive LeftExprDerivation where
  /-- A term. -/
  | term (t : LeftTermDerivation)
  /-- An expression, `+` and a term. -/
  | plus (lhs : LeftExprDerivation) (rhs : LeftTermDerivation)

/-- A derivation of a term. -/
inductive LeftTermDerivation where
  /-- `let`, a name, `=`, an expression, `in` and an expression. -/
  | letIn (x : Name) (bound body : LeftExprDerivation)
  /-- A name. -/
  | name (x : Name)
  /-- A number. -/
  | number (n : Nat)
  /-- An expression in parentheses. -/
  | parens (d : LeftExprDerivation)

end

mutual

/-- The tokens of an expression. -/
def LeftExprDerivation.tokens : LeftExprDerivation → List Token
  | .term t => t.tokens
  | .plus lhs rhs => lhs.tokens ++ .symbol '+' :: rhs.tokens

/-- The tokens of a term. -/
def LeftTermDerivation.tokens : LeftTermDerivation → List Token
  | .letIn x bound body =>
    .identifier "let" :: .identifier x.text :: .symbol '=' ::
      (bound.tokens ++ .identifier "in" :: body.tokens)
  | .name x => [.identifier x.text]
  | .number n => [.number n]
  | .parens d => .symbol '(' :: (d.tokens ++ [.symbol ')'])

end

mutual

/-- The expression that is derived. -/
def LeftExprDerivation.value : LeftExprDerivation → Expr
  | .term t => t.value
  | .plus lhs rhs => Expr.add lhs.value rhs.value

/-- The expression that a term stands for. -/
def LeftTermDerivation.value : LeftTermDerivation → Expr
  | .letIn x bound body => Expr.letIn x.text bound.value body.value
  | .name x => Expr.var x.text
  | .number n => Expr.const n
  | .parens d => d.value

end

/-- Whether a term is a local definition. -/
def LeftTermDerivation.isLet : LeftTermDerivation → Bool
  | .letIn _ _ _ => true
  | _ => false

/-- The last operand of an expression. -/
def LeftExprDerivation.last : LeftExprDerivation → LeftTermDerivation
  | .term t => t
  | .plus _ rhs => rhs

mutual

/-- No local definition outside parentheses is followed by a `+` at its own level: in each chain of
operands, inside the parts as well, only the last one may be a local definition. -/
def LeftExprDerivation.LetLast : LeftExprDerivation → Prop
  | .term t => t.LetLast
  | .plus lhs rhs => lhs.last.isLet = false ∧ lhs.LetLast ∧ rhs.LetLast

/-- The parts of a term satisfy the condition on local definitions. -/
def LeftTermDerivation.LetLast : LeftTermDerivation → Prop
  | .letIn _ bound body => bound.LetLast ∧ body.LetLast
  | .name _ => True
  | .number _ => True
  | .parens d => d.LetLast

end

/-! ### From the grammar that is read -/

mutual

/-- The left recursive derivation of the same expression, with operands grouped to the left. -/
def ExprDerivation.toLeft : ExprDerivation → LeftExprDerivation
  | .letIn d => .term d.toLeft
  | .sum first rest => rest.toLeft (.term first.toLeft)

/-- The left recursive derivation of a local definition as a term. -/
def LetDerivation.toLeft : LetDerivation → LeftTermDerivation
  | .letIn x bound body => .letIn x bound.toLeft body.toLeft

/-- The left recursive derivation of an atom as a term. -/
def AtomDerivation.toLeft : AtomDerivation → LeftTermDerivation
  | .name x => .name x
  | .number n => .number n
  | .parens d => .parens d.toLeft

/-- The left recursive derivation of the operands `d` followed by a continuation. -/
def RestDerivation.toLeft :
    RestDerivation → LeftExprDerivation → LeftExprDerivation
  | .nil, lhs => lhs
  | .atom d rest, lhs => rest.toLeft (.plus lhs d.toLeft)
  | .letIn d, lhs => .plus lhs d.toLeft

end

mutual

/-- Regrouping to the left preserves the tokens of an expression. -/
theorem ExprDerivation.tokens_toLeft : ∀ d : ExprDerivation, d.toLeft.tokens = d.tokens
  | .letIn d => d.tokens_toLeft
  | .sum a c => by
    rw [ExprDerivation.toLeft, c.tokens_toLeft, LeftExprDerivation.tokens,
      a.tokens_toLeft, ExprDerivation.tokens]

/-- Regrouping to the left preserves the tokens of a local definition. -/
theorem LetDerivation.tokens_toLeft : ∀ d : LetDerivation, d.toLeft.tokens = d.tokens
  | .letIn x e b => by
    rw [LetDerivation.toLeft, LeftTermDerivation.tokens, e.tokens_toLeft,
      b.tokens_toLeft, LetDerivation.tokens]

/-- Regrouping to the left preserves the tokens of an atom. -/
theorem AtomDerivation.tokens_toLeft : ∀ d : AtomDerivation, d.toLeft.tokens = d.tokens
  | .name _ => rfl
  | .number _ => rfl
  | .parens d => by
    rw [AtomDerivation.toLeft, LeftTermDerivation.tokens, d.tokens_toLeft,
      AtomDerivation.tokens]

/-- Regrouping a continuation appends its tokens to those of the operands in front. -/
theorem RestDerivation.tokens_toLeft : ∀ (d : RestDerivation)
    (lhs : LeftExprDerivation), (d.toLeft lhs).tokens = lhs.tokens ++ d.tokens
  | .nil, lhs => (List.append_nil lhs.tokens).symm
  | .atom a c, lhs => by
    rw [RestDerivation.toLeft, c.tokens_toLeft, LeftExprDerivation.tokens,
      a.tokens_toLeft, List.append_assoc, RestDerivation.tokens, List.cons_append]
  | .letIn d, lhs => by
    rw [RestDerivation.toLeft, LeftExprDerivation.tokens, d.tokens_toLeft,
      RestDerivation.tokens]

end

mutual

/-- Regrouping to the left preserves the value of an expression. -/
theorem ExprDerivation.value_toLeft : ∀ d : ExprDerivation, d.toLeft.value = d.value
  | .letIn d => d.value_toLeft
  | .sum a c => by
    rw [ExprDerivation.toLeft, c.value_toLeft, LeftExprDerivation.value,
      a.value_toLeft, ExprDerivation.value]

/-- Regrouping to the left preserves the value of a local definition. -/
theorem LetDerivation.value_toLeft : ∀ d : LetDerivation, d.toLeft.value = d.value
  | .letIn x e b => by
    rw [LetDerivation.toLeft, LeftTermDerivation.value, e.value_toLeft,
      b.value_toLeft, LetDerivation.value]

/-- Regrouping to the left preserves the value of an atom. -/
theorem AtomDerivation.value_toLeft : ∀ d : AtomDerivation, d.toLeft.value = d.value
  | .name _ => rfl
  | .number _ => rfl
  | .parens d => d.value_toLeft

/-- Regrouping a continuation adds its operands to the value in front. -/
theorem RestDerivation.value_toLeft : ∀ (d : RestDerivation)
    (lhs : LeftExprDerivation), (d.toLeft lhs).value = Expr.sum lhs.value d.value
  | .nil, _ => rfl
  | .atom a c, lhs => by
    rw [RestDerivation.toLeft, c.value_toLeft, LeftExprDerivation.value,
      a.value_toLeft, RestDerivation.value]
    rfl
  | .letIn d, lhs => by
    rw [RestDerivation.toLeft, LeftExprDerivation.value, d.value_toLeft,
      RestDerivation.value]
    rfl

end

/-- The term of an atom is no local definition. -/
theorem AtomDerivation.isLet_toLeft (d : AtomDerivation) : d.toLeft.isLet = false := by
  cases d <;> rfl

mutual

/-- Regrouped expressions have local definitions in the last place only. -/
theorem ExprDerivation.letLast_toLeft : ∀ d : ExprDerivation, d.toLeft.LetLast
  | .letIn d => d.letLast_toLeft
  | .sum a c => c.letLast_toLeft a.isLet_toLeft a.letLast_toLeft

/-- The parts of regrouped local definitions have local definitions in the last place only. -/
theorem LetDerivation.letLast_toLeft : ∀ d : LetDerivation, d.toLeft.LetLast
  | .letIn _ e b => ⟨e.letLast_toLeft, b.letLast_toLeft⟩

/-- The parts of regrouped atoms have local definitions in the last place only. -/
theorem AtomDerivation.letLast_toLeft : ∀ d : AtomDerivation, d.toLeft.LetLast
  | .name _ => trivial
  | .number _ => trivial
  | .parens d => d.letLast_toLeft

/-- Regrouping a continuation behind operands without a local definition at their end keeps local
definitions in the last place. -/
theorem RestDerivation.letLast_toLeft : ∀ (d : RestDerivation)
    {lhs : LeftExprDerivation}, lhs.last.isLet = false → lhs.LetLast →
    (d.toLeft lhs).LetLast
  | .nil, _, _, hlhs => hlhs
  | .atom a c, _, hlast, hlhs => c.letLast_toLeft a.isLet_toLeft ⟨hlast, hlhs, a.letLast_toLeft⟩
  | .letIn d, _, hlast, hlhs => ⟨hlast, hlhs, d.letLast_toLeft⟩

end

/-! ### Back to the grammar that is read -/

mutual

/-- Operands without a local definition at their end, followed by a regrouped continuation, are a
regrouped expression. -/
theorem exists_toLeft_of_rest : ∀ (d : LeftExprDerivation), d.LetLast →
    d.last.isLet = false → ∀ c : RestDerivation, ∃ d₀ : ExprDerivation, d₀.toLeft = c.toLeft d
  | .term t, h, hlast, c => by
    obtain ⟨a, rfl⟩ := exists_toLeft_atom t h hlast
    exact ⟨.sum a c, rfl⟩
  | .plus lhs rhs, ⟨hlhs, h, hrhs⟩, hlast, c => by
    obtain ⟨a, rfl⟩ := exists_toLeft_atom rhs hrhs hlast
    obtain ⟨d₀, hd₀⟩ := exists_toLeft_of_rest lhs h hlhs (.atom a c)
    exact ⟨d₀, hd₀⟩

/-- Every left recursive expression with local definitions in the last place only is a regrouped
one. -/
theorem exists_toLeft : ∀ (d : LeftExprDerivation), d.LetLast →
    ∃ d₀ : ExprDerivation, d₀.toLeft = d
  | .term t, h => by
    cases hlast : t.isLet with
    | false =>
      obtain ⟨a, rfl⟩ := exists_toLeft_atom t h hlast
      exact ⟨.sum a .nil, rfl⟩
    | true =>
      obtain ⟨d, rfl⟩ := exists_toLeft_let t h hlast
      exact ⟨.letIn d, rfl⟩
  | .plus lhs rhs, ⟨hlhs, h, hrhs⟩ => by
    cases hlast : rhs.isLet with
    | false =>
      obtain ⟨a, rfl⟩ := exists_toLeft_atom rhs hrhs hlast
      obtain ⟨d₀, hd₀⟩ := exists_toLeft_of_rest lhs h hlhs (.atom a .nil)
      exact ⟨d₀, hd₀⟩
    | true =>
      obtain ⟨d, rfl⟩ := exists_toLeft_let rhs hrhs hlast
      obtain ⟨d₀, hd₀⟩ := exists_toLeft_of_rest lhs h hlhs (.letIn d)
      exact ⟨d₀, hd₀⟩

/-- Every local definition whose parts have local definitions in the last place only is a regrouped
one. -/
theorem exists_toLeft_let : ∀ (t : LeftTermDerivation), t.LetLast → t.isLet = true →
    ∃ d : LetDerivation, d.toLeft = t
  | .letIn x e b, ⟨he, hb⟩, _ => by
    obtain ⟨e₀, rfl⟩ := exists_toLeft e he
    obtain ⟨b₀, rfl⟩ := exists_toLeft b hb
    exact ⟨.letIn x e₀ b₀, rfl⟩

/-- Every other term whose parts have local definitions in the last place only is a regrouped
atom. -/
theorem exists_toLeft_atom : ∀ (t : LeftTermDerivation), t.LetLast →
    t.isLet = false → ∃ a : AtomDerivation, a.toLeft = t
  | .name x, _, _ => ⟨.name x, rfl⟩
  | .number n, _, _ => ⟨.number n, rfl⟩
  | .parens d, h, _ => by
    obtain ⟨d₀, rfl⟩ := exists_toLeft d h
    exact ⟨.parens d₀, rfl⟩

end

/-- The tokens determine the left recursive derivation that has local definitions in the last place
only. -/
theorem LeftExprDerivation.LetLast.unique {d d' : LeftExprDerivation}
    (h : d.LetLast) (h' : d'.LetLast) (htokens : d.tokens = d'.tokens) : d = d' := by
  obtain ⟨d₀, rfl⟩ := exists_toLeft d h
  obtain ⟨d₀', rfl⟩ := exists_toLeft d' h'
  rw [d₀.tokens_toLeft, d₀'.tokens_toLeft] at htokens
  have hnil : Stops [] := by simp [Stops]
  rw [(d₀.unique d₀' hnil hnil (congrArg (· ++ []) htokens)).1]

/-! ### Rebuilding any derivation -/

/-- The continuation with the operands of an expression. -/
def ExprDerivation.rest : ExprDerivation → RestDerivation
  | .letIn d => .letIn d
  | .sum first rest => .atom first rest

mutual

/-- Two expressions with `+` between them; the second one enters the body of a local definition that
ends the first one. -/
def ExprDerivation.join : ExprDerivation → ExprDerivation → ExprDerivation
  | .letIn d, e => .letIn (d.join e)
  | .sum first rest, e => .sum first (rest.join e)

/-- A local definition with `+` and an expression joined to its body. -/
def LetDerivation.join : LetDerivation → ExprDerivation → LetDerivation
  | .letIn x bound body, e => .letIn x bound (body.join e)

/-- A continuation with `+` and an expression joined to its end. -/
def RestDerivation.join : RestDerivation → ExprDerivation → RestDerivation
  | .nil, e => e.rest
  | .atom d rest, e => .atom d (rest.join e)
  | .letIn d, e => .letIn (d.join e)

end

/-- The tokens of an expression as a continuation are `+` and its own tokens. -/
theorem ExprDerivation.tokens_rest (d : ExprDerivation) :
    d.rest.tokens = .symbol '+' :: d.tokens := by
  cases d with
  | letIn d => rw [ExprDerivation.rest, RestDerivation.tokens, ExprDerivation.tokens]
  | sum a c => rw [ExprDerivation.rest, RestDerivation.tokens, ExprDerivation.tokens]

mutual

/-- Joining two expressions puts `+` between their tokens. -/
theorem ExprDerivation.tokens_join : ∀ d e : ExprDerivation,
    (d.join e).tokens = d.tokens ++ .symbol '+' :: e.tokens
  | .letIn d, e => d.tokens_join e
  | .sum a c, e => by
    rw [ExprDerivation.join, ExprDerivation.tokens, c.tokens_join, ExprDerivation.tokens,
      List.append_assoc]

/-- Joining to a local definition appends `+` and the tokens of the expression. -/
theorem LetDerivation.tokens_join : ∀ (d : LetDerivation) (e : ExprDerivation),
    (d.join e).tokens = d.tokens ++ .symbol '+' :: e.tokens
  | .letIn x bound body, e => by
    rw [LetDerivation.join, LetDerivation.tokens, body.tokens_join, LetDerivation.tokens]
    simp only [List.cons_append, List.append_assoc]

/-- Joining to a continuation appends `+` and the tokens of the expression. -/
theorem RestDerivation.tokens_join : ∀ (d : RestDerivation) (e : ExprDerivation),
    (d.join e).tokens = d.tokens ++ .symbol '+' :: e.tokens
  | .nil, e => e.tokens_rest
  | .atom a c, e => by
    rw [RestDerivation.join, RestDerivation.tokens, c.tokens_join, RestDerivation.tokens,
      List.cons_append, List.append_assoc]
  | .letIn d, e => by
    rw [RestDerivation.join, RestDerivation.tokens, d.tokens_join, RestDerivation.tokens,
      List.cons_append]

end

mutual

/-- A derivation of the parsed grammar for the tokens of a left recursive expression. -/
def LeftExprDerivation.toRight : LeftExprDerivation → ExprDerivation
  | .term t => t.toRight
  | .plus lhs rhs => lhs.toRight.join rhs.toRight

/-- A derivation of the parsed grammar for the tokens of a left recursive term. -/
def LeftTermDerivation.toRight : LeftTermDerivation → ExprDerivation
  | .letIn x bound body => .letIn (.letIn x bound.toRight body.toRight)
  | .name x => .sum (.name x) .nil
  | .number n => .sum (.number n) .nil
  | .parens d => .sum (.parens d.toRight) .nil

end

mutual

/-- Rebuilding an expression for the parsed grammar preserves its tokens. -/
theorem LeftExprDerivation.tokens_toRight :
    ∀ d : LeftExprDerivation, d.toRight.tokens = d.tokens
  | .term t => t.tokens_toRight
  | .plus lhs rhs => by
    rw [LeftExprDerivation.toRight, ExprDerivation.tokens_join, lhs.tokens_toRight,
      rhs.tokens_toRight, LeftExprDerivation.tokens]

/-- Rebuilding a term for the parsed grammar preserves its tokens. -/
theorem LeftTermDerivation.tokens_toRight :
    ∀ t : LeftTermDerivation, t.toRight.tokens = t.tokens
  | .letIn x e b => by
    rw [LeftTermDerivation.toRight, ExprDerivation.tokens, LetDerivation.tokens,
      e.tokens_toRight, b.tokens_toRight, LeftTermDerivation.tokens]
  | .name _ => rfl
  | .number _ => rfl
  | .parens d => by
    rw [LeftTermDerivation.toRight, ExprDerivation.tokens, AtomDerivation.tokens,
      d.tokens_toRight, RestDerivation.tokens, List.append_nil,
      LeftTermDerivation.tokens]

end

/-! ### The language -/

/-- The grammar with left recursion and the parser have the same language, and the parser gives
the value of the one derivation in which no local definition has a `+` behind it at its own level.
Only an overflow keeps a run from deciding, and only if there are as many openings among the tokens
as there is room. -/
theorem disambiguation_keeps_language (room : Nat) (ts : List Token) :
    (∀ es, (parser room).complete ts = .ok es →
      (es ≠ [] ↔ ∃ d : LeftExprDerivation, d.tokens = ts) ∧
      ∀ e ∈ es, ∃ d : LeftExprDerivation, d.tokens = ts ∧ d.LetLast ∧ d.value = e ∧
        ∀ d' : LeftExprDerivation, d'.tokens = ts → d'.LetLast → d' = d) ∧
    ∀ f, (parser room).complete ts = .error f → f = .overflow ∧ room ≤ openings ts := by
  have hreads := parser_reads room
  constructor
  · intro es hes
    constructor
    · constructor
      · intro hne
        obtain ⟨e, he⟩ := List.exists_mem_of_ne_nil es hne
        obtain ⟨d, hd, -⟩ := (hreads.mem_complete_iff hes).mp he
        exact ⟨d.toLeft, d.tokens_toLeft.trans hd⟩
      · rintro ⟨d, hd⟩
        have hmem : d.toRight.value ∈ es :=
          (hreads.mem_complete_iff hes).mpr ⟨d.toRight, d.tokens_toRight.trans hd, rfl⟩
        exact List.ne_nil_of_mem hmem
    · intro e he
      obtain ⟨d, rfl, hvalue⟩ := (hreads.mem_complete_iff hes).mp he
      refine ⟨d.toLeft, d.tokens_toLeft, d.letLast_toLeft, d.value_toLeft.trans hvalue, ?_⟩
      intro d' htokens hlast
      exact hlast.unique d.letLast_toLeft (htokens.trans d.tokens_toLeft.symm)
  · intro f hf
    have hresults := complete_eq_error_iff.mp hf
    exact fault_of_onlyOverflows (parser_onlyOverflows room) parser_endsOn hresults

end Backtrack.Expr
