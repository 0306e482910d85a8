import Backtrack.Fault
import Backtrack.File.Utf8
import Backtrack.Report.Basic
import Backtrack.Report.Exclamation
import Backtrack.Token.Scan

/-!
# The console

A report together with what has been printed and the dice for exclamations. Work on a console can
be interrupted; what was recorded and printed before stays.
-/

namespace Backtrack

/-- What stops the work on a console. -/
inductive Interruption where
  /-- A parser stopped with a fault. -/
  | fault (f : Fault)
  /-- The source text has a numeral that is too long. -/
  | longNumeral (e : LongNumeral)
  /-- A line of output cannot be written because an integer in it has too many digits. -/
  | longResult
  /-- A file is asked for without a name. -/
  | unnamedFile
  /-- No file can have the name that is asked for. -/
  | misnamedFile
  /-- A file is not UTF-8. -/
  | undecodable (e : Utf8.DecodeError)
  /-- A value of this kind was evaluated, but it is no expression. -/
  | notExpression (kind : String)
  /-- The number of issues has reached the limit. -/
  | reportFull
  /-- There are issues where there should be none. -/
  | unresolved (message : String)
  deriving DecidableEq, Repr

/-- The words for an interruption, if there are any. -/
def Interruption.message : Interruption → String
  | .fault f => f.message
  | .longNumeral e => e.message
  | .longResult => Text.Numeral.unwritable
  | .unnamedFile => "'list' object has no attribute 'read_text'"
  | .misnamedFile => "embedded null byte"
  | .undecodable e => e.message
  | .notExpression kind => "'Evaluator' object has no attribute 'visit_" ++ kind ++ "'"
  | .reportFull => ""
  | .unresolved text => text

/-- The state of a console. -/
structure Console where
  /-- The issues met so far. -/
  report : Report
  /-- What has been printed as output. -/
  out : String
  /-- What has been printed besides the output. -/
  err : String
  /-- The dice for exclamations. -/
  dice : Dice
  deriving DecidableEq, Repr

/-- Work on a console, which keeps its state when it is interrupted. -/
abbrev Working := ExceptT Interruption (StateM Console)

namespace Console

/-- A console on which nothing has happened. -/
def fresh (report : Report) (dice : Dice) : Console := ⟨report, "", "", dice⟩

/-- Print a line of output. -/
def print (line : String) : Working Unit :=
  modify fun c ↦ { c with out := c.out ++ line ++ "\n" }

/-- Print a line of output, if it can be written; if not, this interrupts the work. -/
def printWritten : Option String → Working Unit
  | none => throw .longResult
  | some line => print line

/-- Print a line besides the output. -/
def printAside (line : String) : Working Unit :=
  modify fun c ↦ { c with err := c.err ++ line ++ "\n" }

/-- Say what is going on, if more should be said. -/
def note (line : String) : Working Unit := do
  if (← get).report.verbose then printAside line

/-- Record an issue; the one too many interrupts the work. -/
def record (i : Issue) : Working Unit := do
  modify fun c ↦ { c with report := c.report.add i }
  if (← get).report.isFull then throw .reportFull

/-- Draw an exclamation. -/
def exclamation : Working String :=
  modifyGet fun c ↦
    let (words, dice) := Exclamation.draw c.dice
    (words, { c with dice := dice })

/-- The line above all issues. -/
def ruler : String := String.ofList (List.replicate 60 '*')

/-- The line above each issue. -/
def divider : String := String.ofList (List.replicate 20 [' ', ' ', '-']).flatten

/-- Print all the issues, behind an exclamation; without issues, print nothing. -/
def printIssues : Working Unit := do
  let issues := (← get).report.issues
  if issues.isEmpty then return ()
  else
    printAside ruler
    printAside (← exclamation)
    issues.forM fun i ↦ do
      printAside divider
      printAside i.text

/-- Print the issues and interrupt the work, if there are any. -/
def requireClean (message : String) : Working Unit := do
  if (← get).report.hasIssues then
    printIssues
    throw (.unresolved ((← exclamation) ++ " " ++ message))

end Console
end Backtrack
