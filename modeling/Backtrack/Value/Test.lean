import Backtrack.Value.Basic

/-!
# Tests and images of values

The conditions under which a grammar reads one token, and the partial functions that give the
value of a token read.
-/

namespace Backtrack.Value

/-- The three kinds of token. -/
inductive Kind where
  /-- A single character. -/
  | symbol
  /-- A word. -/
  | identifier
  /-- A number. -/
  | number
  deriving DecidableEq, Repr

/-- Whether the value is a token of a kind. -/
def isKind : Kind → Value → Bool
  | .symbol, token (.symbol _) => true
  | .identifier, token (.identifier _) => true
  | .number, token (.number _) => true
  | _, _ => false

/-- Whether the value is an integer below `n`. -/
def isBelow (n : Int) : Value → Bool
  | int i => i < n
  | _ => false

/-- Whether the value is an even integer. -/
def isEven : Value → Bool
  | int i => i % 2 == 0
  | _ => false

/-- A value that is there; nothing is no value. -/
def present? : Value → Option Value
  | nothing => none
  | v => some v

/-- The multiple of an integer below `n`. -/
def timesBelow? (n k : Int) : Value → Option Value
  | int i => if i < n then some (int (i * k)) else none
  | _ => none

/-- What a table gives for the value: the image of the first equal key. -/
def lookup? (table : List (Value × Value)) (v : Value) : Option Value :=
  (table.lookup v).bind present?

end Backtrack.Value
