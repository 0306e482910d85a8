import Backtrack.Expr.Parser
import Backtrack.Proofs.Parser.Language

/-!
# Derivations of expressions

The grammar of expressions with its derivations as data:

* an expression is a local definition, or an atom and a continuation;
* a continuation is `+`, an atom and a continuation, or `+` and a local definition, or nothing;
* a local definition is `let`, a name, `=`, an expression, `in` and an expression;
* an atom is a name, a number, or an expression in parentheses;
* a term is a local definition or an atom.

A derivation has the tokens that it derives, and an expression as its value. Sums are grouped to
the left, and parentheses leave no trace in the value. The main statement is that the tokens
determine the derivation: `ExprDerivation.unique` says so even of derivations from beginnings of
the same tokens, as long as no `+` comes behind them.
-/

namespace Backtrack.Expr

/-- An identifier that is not reserved. -/
structure Name where
  /-- The identifier. -/
  text : String
  /-- Reserved words are excluded. -/
  isReserved_text : isReserved text = false

mutual

/-- A derivation of an expression. -/
inductive ExprDerivation where
  /-- A local definition. -/
  | letIn (d : LetDerivation)
  /-- An atom and a continuation. -/
  | sum (first : AtomDerivation) (rest : RestDerivation)

/-- A derivation of a local definition. -/
inductive LetDerivation where
  /-- `let`, a name, `=`, an expression, `in` and an expression. -/
  | letIn (x : Name) (bound body : ExprDerivation)

/-- A derivation of an atom. -/
inductive AtomDerivation where
  /-- A name. -/
  | name (x : Name)
  /-- A number. -/
  | number (n : Nat)
  /-- An expression in parentheses. -/
  | parens (d : ExprDerivation)

/-- A derivation of a continuation. -/
inductive RestDerivation where
  /-- Nothing. -/
  | nil
  /-- `+`, an atom and a continuation. -/
  | atom (d : AtomDerivation) (rest : RestDerivation)
  /-- `+` and a local definition. -/
  | letIn (d : LetDerivation)

end

/-- A derivation of a term. -/
inductive TermDerivation where
  /-- A local definition. -/
  | letIn (d : LetDerivation)
  /-- An atom. -/
  | atom (d : AtomDerivation)

/-! ### The tokens that are derived -/

mutual

/-- The tokens of an expression. -/
def ExprDerivation.tokens : ExprDerivation → List Token
  | .letIn d => d.tokens
  | .sum first rest => first.tokens ++ rest.tokens

/-- The tokens of a local definition. -/
def LetDerivation.tokens : LetDerivation → List Token
  | .letIn x bound body =>
    .identifier "let" :: .identifier x.text :: .symbol '=' ::
      (bound.tokens ++ .identifier "in" :: body.tokens)

/-- The tokens of an atom. -/
def AtomDerivation.tokens : AtomDerivation → List Token
  | .name x => [.identifier x.text]
  | .number n => [.number n]
  | .parens d => .symbol '(' :: (d.tokens ++ [.symbol ')'])

/-- The tokens of a continuation. -/
def RestDerivation.tokens : RestDerivation → List Token
  | .nil => []
  | .atom d rest => .symbol '+' :: (d.tokens ++ rest.tokens)
  | .letIn d => .symbol '+' :: d.tokens

end

/-- The tokens of a term. -/
def TermDerivation.tokens : TermDerivation → List Token
  | .letIn d => d.tokens
  | .atom d => d.tokens

/-! ### The expressions that are derived -/

mutual

/-- The expression that is derived. -/
def ExprDerivation.value : ExprDerivation → Expr
  | .letIn d => d.value
  | .sum first rest => Expr.sum first.value rest.value

/-- The local definition that is derived. -/
def LetDerivation.value : LetDerivation → Expr
  | .letIn x bound body => Expr.letIn x.text bound.value body.value

/-- The expression that an atom stands for. -/
def AtomDerivation.value : AtomDerivation → Expr
  | .name x => Expr.var x.text
  | .number n => Expr.const n
  | .parens d => d.value

/-- The operands of a continuation. -/
def RestDerivation.value : RestDerivation → List Expr
  | .nil => []
  | .atom d rest => d.value :: rest.value
  | .letIn d => [d.value]

end

/-- The expression that a term stands for. -/
def TermDerivation.value : TermDerivation → Expr
  | .letIn d => d.value
  | .atom d => d.value

/-! ### The languages of the grammar -/

/-- The language of a kind of derivation: the tokens of a derivation, with its value. -/
def Derived {δ α : Type} (tokens : δ → List Token) (value : δ → α) : Language Token α :=
  fun u a ↦ ∃ d, tokens d = u ∧ value d = a

/-- The language of expressions. -/
abbrev exprLanguage : Language Token Expr := Derived ExprDerivation.tokens ExprDerivation.value

/-- The language of local definitions. -/
abbrev letLanguage : Language Token Expr := Derived LetDerivation.tokens LetDerivation.value

/-- The language of atoms. -/
abbrev atomLanguage : Language Token Expr := Derived AtomDerivation.tokens AtomDerivation.value

/-- The language of terms. -/
abbrev termLanguage : Language Token Expr := Derived TermDerivation.tokens TermDerivation.value

/-- The language of continuations, with their operands as values. -/
abbrev restLanguage : Language Token (List Expr) :=
  Derived RestDerivation.tokens RestDerivation.value

/-! ### The tokens determine the derivation -/

/-- No name is the word that begins a local definition. -/
theorem Name.text_ne_let (x : Name) : x.text ≠ "let" := by
  intro h
  have hx := x.isReserved_text
  rw [h] at hx
  exact absurd hx (by decide)

/-- The tokens of an atom never begin with the word of a local definition. -/
theorem AtomDerivation.tokens_append_ne (a : AtomDerivation) (d : LetDerivation)
    (r r' : List Token) : a.tokens ++ r ≠ d.tokens ++ r' := by
  obtain ⟨y, bound, body⟩ := d
  cases a with
  | name x =>
    intro h
    simp only [AtomDerivation.tokens, LetDerivation.tokens, List.cons_append, List.nil_append,
      List.cons.injEq, Token.identifier.injEq] at h
    exact x.text_ne_let h.1
  | number n => simp [AtomDerivation.tokens, LetDerivation.tokens]
  | parens e => simp [AtomDerivation.tokens, LetDerivation.tokens]

/-- The tokens do not begin with `+`. -/
def Stops (r : List Token) : Prop := r.head? ≠ some (.symbol '+')

/-- Tokens that do not begin with `+` differ from all that do. -/
private theorem Stops.ne_cons {r : List Token} (h : Stops r) (ts : List Token) :
    r ≠ .symbol '+' :: ts := by
  rintro rfl
  exact h rfl

mutual

/-- Two derivations of expressions whose tokens begin the same list, neither followed by `+`, are
equal. -/
theorem ExprDerivation.unique : ∀ (d d' : ExprDerivation) {r r' : List Token},
    Stops r → Stops r' → d.tokens ++ r = d'.tokens ++ r' → d = d' ∧ r = r'
  | .letIn d, .letIn d', r, r', hr, hr', h => by
    obtain ⟨rfl, rfl⟩ := d.unique d' hr hr' h
    exact ⟨rfl, rfl⟩
  | .letIn d, .sum a c, r, r', _, _, h => by
    rw [ExprDerivation.tokens, ExprDerivation.tokens, List.append_assoc] at h
    exact absurd h.symm (a.tokens_append_ne d _ _)
  | .sum a c, .letIn d, r, r', _, _, h => by
    rw [ExprDerivation.tokens, ExprDerivation.tokens, List.append_assoc] at h
    exact absurd h (a.tokens_append_ne d _ _)
  | .sum a c, .sum a' c', r, r', hr, hr', h => by
    rw [ExprDerivation.tokens, ExprDerivation.tokens, List.append_assoc, List.append_assoc] at h
    obtain ⟨rfl, hc⟩ := a.unique a' h
    obtain ⟨rfl, rfl⟩ := c.unique c' hr hr' hc
    exact ⟨rfl, rfl⟩

/-- Two derivations of local definitions whose tokens begin the same list, neither followed by `+`,
are equal. -/
theorem LetDerivation.unique : ∀ (d d' : LetDerivation) {r r' : List Token},
    Stops r → Stops r' → d.tokens ++ r = d'.tokens ++ r' → d = d' ∧ r = r'
  | .letIn x e b, .letIn x' e' b', r, r', hr, hr', h => by
    simp only [LetDerivation.tokens, List.cons_append, List.append_assoc, List.cons.injEq,
      Token.identifier.injEq, true_and] at h
    obtain ⟨hx, h⟩ := h
    obtain ⟨rfl, hb⟩ := e.unique e' (by simp [Stops]) (by simp [Stops]) h
    obtain ⟨rfl, rfl⟩ := b.unique b' hr hr' (List.cons.inj hb).2
    cases x
    cases x'
    cases hx
    exact ⟨rfl, rfl⟩

/-- Two derivations of atoms whose tokens begin the same list are equal. -/
theorem AtomDerivation.unique : ∀ (d d' : AtomDerivation) {r r' : List Token},
    d.tokens ++ r = d'.tokens ++ r' → d = d' ∧ r = r'
  | .name x, .name x', r, r', h => by
    simp only [AtomDerivation.tokens, List.cons_append, List.nil_append, List.cons.injEq,
      Token.identifier.injEq] at h
    obtain ⟨hx, rfl⟩ := h
    cases x
    cases x'
    cases hx
    exact ⟨rfl, rfl⟩
  | .number n, .number n', r, r', h => by
    simp only [AtomDerivation.tokens, List.cons_append, List.nil_append, List.cons.injEq,
      Token.number.injEq] at h
    obtain ⟨rfl, rfl⟩ := h
    exact ⟨rfl, rfl⟩
  | .parens e, .parens e', r, r', h => by
    simp only [AtomDerivation.tokens, List.cons_append, List.append_assoc, List.cons.injEq,
      true_and] at h
    obtain ⟨rfl, hp⟩ := e.unique e' (by simp [Stops]) (by simp [Stops]) h
    exact ⟨rfl, (List.cons.inj hp).2⟩
  | .name _, .number _, r, r', h | .name _, .parens _, r, r', h
  | .number _, .name _, r, r', h | .number _, .parens _, r, r', h
  | .parens _, .name _, r, r', h | .parens _, .number _, r, r', h => by
    simp [AtomDerivation.tokens] at h

/-- Two derivations of continuations whose tokens begin the same list, neither followed by `+`, are
equal. -/
theorem RestDerivation.unique : ∀ (d d' : RestDerivation) {r r' : List Token},
    Stops r → Stops r' → d.tokens ++ r = d'.tokens ++ r' → d = d' ∧ r = r'
  | .nil, .nil, r, r', _, _, h => ⟨rfl, h⟩
  | .nil, .atom _ _, r, r', hr, _, h => absurd h (hr.ne_cons _)
  | .nil, .letIn _, r, r', hr, _, h => absurd h (hr.ne_cons _)
  | .atom _ _, .nil, r, r', _, hr', h => absurd h.symm (hr'.ne_cons _)
  | .letIn _, .nil, r, r', _, hr', h => absurd h.symm (hr'.ne_cons _)
  | .atom a c, .atom a' c', r, r', hr, hr', h => by
    simp only [RestDerivation.tokens, List.cons_append, List.append_assoc, List.cons.injEq,
      true_and] at h
    obtain ⟨rfl, hc⟩ := a.unique a' h
    obtain ⟨rfl, rfl⟩ := c.unique c' hr hr' hc
    exact ⟨rfl, rfl⟩
  | .letIn d, .letIn d', r, r', hr, hr', h => by
    obtain ⟨rfl, rfl⟩ := d.unique d' hr hr' (List.cons.inj h).2
    exact ⟨rfl, rfl⟩
  | .atom a c, .letIn d, r, r', _, _, h => by
    simp only [RestDerivation.tokens, List.cons_append, List.append_assoc, List.cons.injEq,
      true_and] at h
    exact absurd h (a.tokens_append_ne d _ _)
  | .letIn d, .atom a c, r, r', _, _, h => by
    simp only [RestDerivation.tokens, List.cons_append, List.append_assoc, List.cons.injEq,
      true_and] at h
    exact absurd h.symm (a.tokens_append_ne d _ _)

end

end Backtrack.Expr
