import Backtrack.Value.Construct

/-!
# Members of values

What is reached in a value by name. Tokens have a text, and no other value has one. The attributes
of an expression cannot be changed. All tokens are compared by a key, and so are all expressions,
but only the particular kinds of them have one.
-/

namespace Backtrack

namespace Value

/-- The text that a token is written as, which no other value has. -/
def tokenText : Value → Except Fault String
  | token t => Fault.orUnwritable t.text?
  | v => .error (.noAttribute v.kind "text")

/-- The texts of tokens with a space between neighbours. -/
def spell (vs : List Value) : Except Fault String :=
  (vs.mapM tokenText).map fun texts ↦ " ".intercalate texts

/-- An attribute of the value with something else assigned to it. This is always a fault: an
expression cannot be changed, and other values do not have the attribute. -/
def assign (v : Value) (name : String) (_ : Value) : Except Fault Value :=
  match v with
  | tree _ => .error (.immutable v.kind)
  | _ => .error (.noAttribute v.kind name)

end Value

/-- The classes that the kinds of token and the kinds of expression belong to. -/
inductive BaseClass where
  /-- The class of tokens. -/
  | token
  /-- The class of expressions. -/
  | expression
  deriving DecidableEq, Repr

namespace BaseClass

/-- The full name of a class. -/
def name : BaseClass → String
  | token => "parsnip.lexer.Token"
  | expression => "parsnip.syntax.Expr"

/-- What the members of a class are compared and hashed by, which is for each kind to say. -/
def key (c : BaseClass) : Except Fault Value := .error (.notImplemented c.name)

end BaseClass
end Backtrack
