import Backtrack.Text.Hex
import Backtrack.Text.Printable

/-!
# Quoted text

Text between quotation marks, in which characters that cannot be shown are written as escapes.
Single marks are used unless the text has a single mark and no double one.
-/

namespace Backtrack.Text.Quoted

/-- The mark that a text is put between. -/
def mark (cs : List Char) : Char := if '\'' ∈ cs ∧ '"' ∉ cs then '"' else '\''

/-- One character of a text that stands between two of the marks `q`. -/
def escape (q c : Char) : List Char :=
  if c = q ∨ c = '\\' then ['\\', c]
  else if c = '\n' then ['\\', 'n']
  else if c = '\r' then ['\\', 'r']
  else if c = '\t' then ['\\', 't']
  else if isPrintable c then [c]
  else if c.toNat < 0x100 then '\\' :: 'x' :: hex 2 c.toNat
  else if c.toNat < 0x10000 then '\\' :: 'u' :: hex 4 c.toNat
  else '\\' :: 'U' :: hex 8 c.toNat

/-- The text between its marks. -/
def encode (cs : List Char) : List Char :=
  mark cs :: (cs.flatMap (escape (mark cs)) ++ [mark cs])

end Backtrack.Text.Quoted

/-- A text between quotation marks. -/
def Backtrack.Text.quoted (s : String) : String :=
  String.ofList (Quoted.encode s.toList)
