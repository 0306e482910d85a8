import Backtrack.Token.Basic
import Backtrack.Token.Lexeme

/-!
# From text to tokens

Source text becomes tokens lexeme by lexeme. The one thing that can go wrong is a numeral of
more digits than the limit; the leftmost such numeral is the one that is reported.
-/

namespace Backtrack

namespace Lexeme

/-- The token of a lexeme. -/
def token : Lexeme → Except LongNumeral Token
  | word cs => .ok (.identifier (String.ofList cs))
  | numeral cs =>
    if cs.length ≤ Text.Numeral.limit then .ok (.number (Text.Numeral.value cs))
    else .error ⟨cs.length⟩
  | mark c => .ok (.symbol c)

end Lexeme

namespace Token

/-- The tokens of a text given as its characters. -/
def scanChars (cs : List Char) : Except LongNumeral (List Token) :=
  (Lexeme.split cs).mapM Lexeme.token

/-- The tokens of a text. -/
def scan (text : String) : Except LongNumeral (List Token) := scanChars text.toList

end Token
end Backtrack
