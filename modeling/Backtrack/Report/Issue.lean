import Backtrack.File.Trouble
import Backtrack.Report.Underline
import Backtrack.Token.Basic

/-!
# Issues

What can be wrong with an input, and how each issue is told to a person: an introduction, then
a body and a footer of any number of lines.
-/

namespace Backtrack

/-- One thing that is wrong. -/
inductive Issue where
  /-- No beginning of the text is an expression. -/
  | noBeginning (text : String)
  /-- At best the first `consumed` of the tokens are an expression. -/
  | stopsShort (tokens : List Token) (consumed : Nat)
  /-- The text is an expression in several ways. -/
  | ambiguous (text : String) (count : Nat)
  /-- The parts of an expression of so many tokens are nested too deeply. -/
  | tooNested (size : Nat)
  /-- There is no such file. -/
  | missingFile (path : Path)
  /-- A file cannot be read. -/
  | unreadableFile (path : Path) (trouble : Trouble)
  /-- A name has no meaning. -/
  | unbound (name : String)
  /-- An issue in words of its own. -/
  | other (intro : String) (body footer : List String)
  deriving DecidableEq, Repr

namespace Issue

/-- How the issue begins. -/
def intro : Issue → String
  | noBeginning _ => "Nothing in this makes sense as an expression:"
  | stopsShort ts consumed =>
    "The best I can do reads " ++ toString consumed ++ " of " ++ toString ts.length ++ " tokens."
  | ambiguous _ count =>
    "This reads " ++ toString count ++ " different ways. I took the first."
  | tooNested size =>
    "This expression of " ++ toString size ++ " tokens nests too deeply for me to follow."
  | missingFile path => "I see no file called " ++ path.toString
  | unreadableFile path _ => "Something went pear-shaped while trying to read " ++ path.toString
  | unbound x => "I don't see what this refers to: " ++ x
  | other i _ _ => i

/-- The column of the token after the first `consumed` ones, in the line of all the tokens. -/
def column (ts : List Token) (consumed : Nat) : Nat :=
  (Token.spelling (ts.take consumed)).length + if consumed = 0 then 0 else 1

/-- The margin that an underlined line stands behind. -/
def margin : List Char := [' ', ' ', ' ', ' ', ' ', '1', ' ', '|']

/-- The tokens in a line, with the token after the first `consumed` ones marked. -/
def pointer (ts : List Token) (consumed : Nat) (t : Token) : String :=
  String.ofList (Underline.draw margin (Token.spelling ts) (column ts consumed)
    t.chars.length "Got confused here".toList)

/-- The lines in the middle of the issue. -/
def body : Issue → List String
  | noBeginning text => [text]
  | stopsShort ts consumed =>
    match ts[consumed]? with
    | some t => [pointer ts consumed t]
    | none => []
  | ambiguous text _ => [text]
  | tooNested _ => []
  | missingFile _ => []
  | unreadableFile _ trouble => [trouble.message]
  | unbound _ => []
  | other _ b _ => b

/-- The lines at the end of the issue. -/
def footer : Issue → List String
  | noBeginning _ => ["An expression starts with a name, a number, '(' or 'let'."]
  | stopsShort _ _ =>
    ["Perhaps a '+', a ')' or an 'in' is missing or out of place nearby."]
  | tooNested _ => ["Try fewer levels of parentheses or 'let'."]
  | other _ _ f => f
  | _ => []

/-- The issue as it is told: the introduction, an empty line, the body and the footer. -/
def text (i : Issue) : String := "\n".intercalate (i.intro :: "" :: i.body ++ i.footer)

/-- A short form of the issue. -/
def inspect (i : Issue) : String := "<Pic " ++ Text.quoted i.intro ++ ">"

end Issue
end Backtrack
