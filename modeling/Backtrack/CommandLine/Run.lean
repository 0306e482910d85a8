import Backtrack.CommandLine.Arguments
import Backtrack.Expr.Eval
import Backtrack.Expr.Inspect
import Backtrack.Expr.Source
import Backtrack.File.Tree
import Backtrack.Report.Reading
import Backtrack.Text.Newline

/-!
# The command line program

What is printed for given arguments, and with what status the program ends. Without arguments it
introduces itself. Otherwise it reads an expression from its argument or from a file, prints
what the options ask for and then the structure of the expression, or explains on the side why
there is none.
-/

namespace Backtrack.CommandLine

/-- How the program reads and shows: the parser of the source, what is done with its values, and
the parser whose results are listed. -/
structure Language (α β : Type) where
  /-- The parser of the source. -/
  entry : Parser Token α
  /-- Whether a value is the absence of one. -/
  isNothing : α → Bool
  /-- The structure of a value, if it can be written. -/
  inspect? : α → Option String
  /-- The number that a value comes to; a value that is no expression has only its kind. -/
  eval : α → Except String (Except Unbound Int)
  /-- The parser whose results are listed. -/
  listed : Parser Token β
  /-- The text of a listed value, if it can be written. -/
  text? : β → Option String

/-- The language of expressions. -/
def expressions : Language Expr Expr where
  entry := Expr.parser Expr.room
  isNothing _ := false
  inspect? := Expr.inspect?
  eval e := .ok (e.eval Env.empty)
  listed := Expr.parser Expr.room
  text? := Expr.source?

/-- How the program ended and what it printed. -/
structure Outcome where
  /-- The status; there is none if the program only introduced itself, and an interruption may
  take its place. -/
  status : Except Interruption (Option Nat)
  /-- What was printed as output. -/
  out : String
  /-- What was printed on the side. -/
  err : String

variable {α β : Type}

/-- Record an issue, print the issues, and end with status 1. -/
def giveUp (i : Issue) : Working Nat := do
  Console.record i
  Console.printIssues
  return 1

/-- Print the number that a value comes to. -/
def showNumber (lang : Language α β) (a : α) : Working Nat :=
  match lang.eval a with
  | .error kind => throw (.notExpression kind)
  | .ok (.error e) => giveUp (.unbound e.name)
  | .ok (.ok i) => do
    Console.printWritten ((Text.Numeral.ofInt? i).map String.ofList)
    return 0

/-- Print what is asked for about the value of the source. -/
def showValue (lang : Language α β) (o : Options) (a : α) : Working Nat := do
  Console.printIssues
  Console.printWritten (lang.inspect? a)
  if o.evaluate then showNumber lang a else return 0

/-- Read the source and show its value. -/
def readAndShow (lang : Language α β) (o : Options) (source : String) : Working Nat := do
  let value? ← Console.read lang.entry source
  match value?.filter (!lang.isNothing ·) with
  | some a => showValue lang o a
  | none => do
    Console.printIssues
    return 1

/-- The line of a listed result, if it can be written. -/
def resultLine? (lang : Language α β) (r : β × List Token) : Option String := do
  return (← lang.text? r.1) ++ "\t[" ++ (← Token.spell? r.2) ++ "]"

/-- Do with the source what is asked for. -/
def process (lang : Language α β) (o : Options) (source : String) : Working Nat := do
  let ts ← Console.scan source
  if o.tokens then ts.forM fun t ↦ Console.printWritten t.inspect?
  if o.all then
    match lang.listed.results ts with
    | .ok rs => do
      rs.forM fun r ↦ Console.printWritten (resultLine? lang r)
      readAndShow lang o source
    | .error .overflow => giveUp (.tooNested ts.length)
    | .error f => throw (.fault f)
  else readAndShow lang o source

/-- What is printed on the side for wrong arguments. -/
def complaint (e : ArgumentError) : String := usage ++ "parsnip: error: " ++ e.message ++ "\n"

/-- Find the source and do with it what is asked for. -/
def run (lang : Language α β) (files : Path → ReadResult) (o : Options) : Working Nat :=
  match o.file?, o.source? with
  | some .dashes, _ => throw .unnamedFile
  | some (.path path), _ =>
    match files path with
    | .missing => giveUp (.missingFile path)
    | .misnamed => throw .misnamedFile
    | .broken trouble => giveUp (.unreadableFile path trouble)
    | .content bytes =>
      match Utf8.decode bytes with
      | .error e => throw (.undecodable e)
      | .ok cs => process lang o (String.ofList (Text.unifyNewlines cs))
  | none, some source => process lang o source
  | none, none => do
    modify fun c ↦ { c with err := c.err ++ complaint .nothingToRead }
    return 2

/-- The program. -/
def program (lang : Language α β) (files : Path → ReadResult) (dice : Dice)
    (arguments : List String) : Outcome :=
  if arguments.isEmpty then ⟨.ok none, introduction ++ "\n", ""⟩
  else
    match asked arguments with
    | .error e => ⟨.ok (some 2), "", complaint e⟩
    | .ok .help => ⟨.ok (some 0), help, ""⟩
    | .ok (.options o) =>
      let console := Console.fresh (.empty (o.verbosity != 0) Report.defaultLimit) dice
      let (status, console) := (run lang files o).run.run console
      ⟨status.map some, console.out, console.err⟩

end Backtrack.CommandLine
