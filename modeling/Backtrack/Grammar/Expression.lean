import Backtrack.Expr.Parser
import Backtrack.Grammar.Derived

/-!
# The expression grammar among grammars of values

The grammar of expressions, put together from described parts: it reads tokens among values, and
gives expressions among values. Expressions are nested in one another, so they stand under a name,
and `Definitions.withExpressions` says what the name stands for. A value that is no token ends what
can be read.
-/

namespace Backtrack

namespace Value

/-- The name that a value is, if it is a token for one. -/
def nameOf? : Value → Option Value
  | token t => (Expr.nameOf? t).map str
  | _ => none

/-- The number that a value is, if it is a token for one. -/
def numberOf? : Value → Option Value
  | token t => (Expr.numberOf? t).map int
  | _ => none

end Value

namespace Grammar

/-- One token like this one. -/
def exactToken (t : Token) : Grammar := single (.token t) t.inspect

/-- The name that expressions stand under. -/
def exprName : String := "<expression>"

/-- Expressions. -/
def expr : Grammar := ref exprName (.some "Expr")

/-- Names. -/
def name : Grammar := partialToken Value.nameOf? none (.some "name")

/-- Numbers. -/
def number : Grammar := partialToken Value.numberOf? none (.some "number")

/-- The sign of a sum. -/
def plus : Grammar := exactToken (.symbol '+')

/-- Local definitions. -/
def letExpr : Grammar :=
  sequenceWith Value.letArguments
    [seqRight (exactToken (.identifier "let")) name,
      seqRight (exactToken (.symbol '=')) expr,
      seqRight (exactToken (.identifier "in")) expr]

/-- Atoms. -/
def atom : Grammar :=
  choice [map Value.toName name, map Value.toConst number,
    seqLeft (seqRight (exactToken (.symbol '(')) expr) (exactToken (.symbol ')'))]

/-- Local definitions and atoms. -/
def term : Grammar := orElse letExpr atom

/-- The operands that follow the first one. -/
def rest : Grammar :=
  sequenceWith Value.joinArguments
    [many (seqRight plus atom),
      orElse (map (fun v ↦ .ok (.tuple [v])) (seqRight plus letExpr))
        (pure (.tuple []) "pure(())")]

/-- What the name of expressions stands for. -/
def exprBody : Grammar := orElse letExpr (sequenceWith Value.sumArguments [atom, rest])

end Grammar

/-- Definitions with that of expressions besides. -/
def Definitions.withExpressions (defs : Definitions) : Definitions := fun name ↦
  if name = Grammar.exprName then .ok Grammar.exprBody else defs name

/-- A parser of values, run on tokens. -/
def Parser.onTokens (p : Parser Value Value) : Parser Token Value :=
  ⟨fun ts ↦ (p.run (ts.map .token)).map fun (v, rest) ↦ (v, ts.drop (ts.length - rest.length))⟩

end Backtrack
