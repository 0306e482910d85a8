import Backtrack.Fault
import Backtrack.Value.Text

/-!
# Making tokens and expressions from values

A token or an expression is made from values that fit: a name is a text, a constant an
integer, an operand an expression. A value that does not fit is refused with its text.
-/

namespace Backtrack.Value

/-- The token of a single character. -/
def toSymbol : Value → Except Fault Token
  | str s =>
    match s.toList with
    | [c] => .ok (.symbol c)
    | _ => .error (.refused s)
  | v => .error (.refused v.text)

/-- The token of a word that is not empty. -/
def toIdentifier : Value → Except Fault Token
  | str s => if s.isEmpty then .error (.refused s) else .ok (.identifier s)
  | v => .error (.refused v.text)

/-- The token of a number that is not negative. -/
def toNumber : Value → Except Fault Token
  | int (.ofNat n) => .ok (.number n)
  | v => .error (.refused v.text)

/-- The expression that is a name. -/
def toName : Value → Except Fault Value
  | str s => .ok (tree (.var s))
  | v => .error (.refused v.text)

/-- The expression that is an integer. -/
def toConst : Value → Except Fault Value
  | int i => .ok (tree (.const i))
  | v => .error (.refused v.text)

/-- The expression that adds two expressions. -/
def toSum : Value → Value → Except Fault Value
  | tree a, tree b => .ok (tree (.add a b))
  | v, w => .error (.refused (tuple [v, w]).text)

/-- The local definition of a name, which is looked at before the two parts. -/
def toLet : Value → Value → Value → Except Fault Value
  | str x, tree e, tree b => .ok (tree (.letIn x e b))
  | str _, v, w => .error (.refused (tuple [v, w]).text)
  | v, _, _ => .error (.refused v.text)

/-- The sum of `first` and the others, grouped to the left; `first` alone may be any value. -/
def toSums (first : Value) (rest : List Value) : Except Fault Value := rest.foldlM toSum first

end Backtrack.Value
