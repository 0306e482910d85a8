import Backtrack.Text.Numeral
import Backtrack.Text.Quoted

/-!
# Tokens

The three kinds of token and the text of each. A reserved word is an identifier like any
other here; it is for a grammar to treat it as special. The text of a number with too many digits
cannot be written.
-/

namespace Backtrack

/-- A unit of source text. -/
inductive Token where
  /-- A single character. -/
  | symbol (char : Char)
  /-- A word. -/
  | identifier (name : String)
  /-- A number. -/
  | number (value : Nat)
  deriving DecidableEq, Repr

namespace Token

/-- The text that a token is written as. -/
def chars : Token → List Char
  | symbol c => [c]
  | identifier name => name.toList
  | number n => Text.Numeral.digits n

/-- The text that a token is written as. -/
def text (t : Token) : String := String.ofList t.chars

/-- A token with its kind, for a person to look at. -/
def inspect : Token → String
  | symbol c => "<Symbol " ++ Text.quoted (String.singleton c) ++ ">"
  | identifier name => "<Identifier " ++ name ++ ">"
  | number n => "<Number " ++ String.ofList (Text.Numeral.digits n) ++ ">"

/-- Tokens written one after another with a space between neighbours. -/
def spelling (ts : List Token) : List Char := List.intercalate [' '] (ts.map chars)

/-- Tokens written one after another with a space between neighbours. -/
def spell (ts : List Token) : String := String.ofList (spelling ts)

/-- Whether the text of a token can be written: a number must not have too many digits. -/
def isWritable : Token → Bool
  | number n => Text.Numeral.isWritable n
  | _ => true

/-- The text of a token, if it can be written. -/
def text? (t : Token) : Option String := if t.isWritable then some t.text else none

/-- A token with its kind, if its text can be written. -/
def inspect? (t : Token) : Option String := if t.isWritable then some t.inspect else none

/-- The spelling of tokens, if the text of each can be written. -/
def spell? (ts : List Token) : Option String :=
  if ts.all isWritable then some (spell ts) else none

end Token
end Backtrack
