import Backtrack.Expr.Basic
import Backtrack.Parser.Repeat
import Backtrack.Token.Basic

/-!
# Reading expressions

The grammar of expressions, without left recursion:

* an expression is a local definition, or an atom and a continuation;
* a continuation is any number of `+` and an atom, and then perhaps `+` and a local definition;
* a local definition is `let`, a name, `=`, an expression, `in` and an expression;
* an atom is a name, a number, or an expression in parentheses.

A local definition takes in as much as it can, so it comes last in a sum; were it allowed
before a `+`, every text with one would read in two ways. Parts are nested to a limited depth:
`parser room` opens at most `room` expressions inside one another and overflows where it would
need one more.
-/

namespace Backtrack.Expr

/-- The words that are no names. -/
def isReserved (word : String) : Bool := word == "let" || word == "in"

/-- The name that a token is, if it is one. -/
def nameOf? : Token → Option String
  | .identifier x => if isReserved x then none else some x
  | _ => none

/-- The number that a token is, if it is one. -/
def numberOf? : Token → Option Int
  | .number n => some n
  | _ => none

/-- A name. -/
def name : Parser Token String := .token nameOf?

/-- A number. -/
def number : Parser Token Int := .token numberOf?

/-- A symbol. -/
def symbol (c : Char) : Parser Token Token := .single (.symbol c)

/-- A reserved word. -/
def keyword (word : String) : Parser Token Token := .single (.identifier word)

/-- The sign of a sum. -/
def plus : Parser Token Token := symbol '+'

/-- A local definition with parts that `expr` reads. -/
def letOf (expr : Parser Token Expr) : Parser Token Expr :=
  .map (fun (x, e, b) ↦ letIn x e b)
    (.pair (.seqRight (keyword "let") name)
      (.pair (.seqRight (symbol '=') expr) (.seqRight (keyword "in") expr)))

/-- An atom; `expr` reads what stands in parentheses. -/
def atomOf (expr : Parser Token Expr) : Parser Token Expr :=
  .choice [.map var name, .map const number,
    .seqLeft (.seqRight (symbol '(') expr) (symbol ')')]

/-- A local definition or an atom. -/
def termOf (expr : Parser Token Expr) : Parser Token Expr := .orElse (letOf expr) (atomOf expr)

/-- The operands that follow the first one. -/
def restOf (expr : Parser Token Expr) : Parser Token (List Expr) :=
  .map₂ (· ++ ·) (.many (.seqRight plus (atomOf expr)))
    (.orElse (.map ([·]) (.seqRight plus (letOf expr))) (.pure []))

/-- An expression with parts that `expr` reads. -/
def exprOf (expr : Parser Token Expr) : Parser Token Expr :=
  .orElse (letOf expr) (.map₂ sum (atomOf expr) (restOf expr))

/-- An expression with at most `room` expressions open inside one another. -/
def parser : (room : Nat) → Parser Token Expr
  | 0 => .failing .overflow
  | room + 1 => .defer fun _ ↦ exprOf (parser room)

/-- How many expressions may be open inside one another where nothing else is said. -/
def room : Nat := 100

end Backtrack.Expr
