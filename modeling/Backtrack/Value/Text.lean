import Backtrack.Value.Basic

/-!
# The texts of a value

`inspect` shows what a value is, `text` is the text of a value for a reader. They differ for
texts, which `inspect` puts between quotation marks, and for expressions, of which `inspect`
shows the structure and `text` the source. Neither can be written if an integer in the value has
too many digits.
-/

namespace Backtrack.Value

/-- Shown items as one tuple; a comma tells a single item from a value in parentheses. -/
def tupleText : List String → String
  | [item] => "(" ++ item ++ ",)"
  | items => "(" ++ ", ".intercalate items ++ ")"

mutual

/-- What a value is. -/
def inspect : Value → String
  | nothing => "None"
  | int i => String.ofList (Text.Numeral.ofInt i)
  | str s => Text.quoted s
  | tuple vs => tupleText (inspectItems vs)
  | token t => t.inspect
  | tree e => e.inspect
  | unary _ => "<function>"
  | binary _ => "<function>"

/-- What each value of a row is. -/
def inspectItems : List Value → List String
  | [] => []
  | v :: vs => inspect v :: inspectItems vs

end

/-- The word for the kind of a value. -/
def kind : Value → String
  | nothing => "NoneType"
  | int _ => "int"
  | str _ => "str"
  | tuple _ => "tuple"
  | token (.symbol _) => "Symbol"
  | token (.identifier _) => "Identifier"
  | token (.number _) => "Number"
  | tree (.var _) => "Var"
  | tree (.const _) => "Const"
  | tree (.add _ _) => "Add"
  | tree (.letIn _ _ _) => "Let"
  | unary _ => "function"
  | binary _ => "function"

/-- The text of a value. -/
def text : Value → String
  | str s => s
  | tree e => e.source
  | v => v.inspect

mutual

/-- Whether the texts of a value can be written: no integer in it has too many digits. A function
is shown without what it is made of. -/
def isWritable : Value → Bool
  | int i => Text.Numeral.isWritable i
  | tuple vs => areWritable vs
  | token t => t.isWritable
  | tree e => e.isWritable
  | _ => true

/-- Whether the texts of each value of a row can be written. -/
def areWritable : List Value → Bool
  | [] => true
  | v :: vs => v.isWritable && areWritable vs

end

/-- What a value is, if this can be written. -/
def inspect? (v : Value) : Option String := if v.isWritable then some v.inspect else none

/-- The text of a value, if it can be written. -/
def text? (v : Value) : Option String := if v.isWritable then some v.text else none

end Backtrack.Value
