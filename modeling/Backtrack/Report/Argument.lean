import Backtrack.Report.Console
import Backtrack.Value.Text

/-!
# Values told to a report

A report can be told values instead of words: what is worth saying, and the arguments of an error
that was met with a file. Their texts are written when they are needed, and one that cannot be
written is a fault.
-/

namespace Backtrack

namespace Trouble

/-- The numbers of the errors that mean that an operation would have to wait. Such an error counts
characters where others name a file. -/
def waiting : List Value := [.int 11, .int 114, .int 115]

/-- Whether the third argument of an error with number `n` names a file. -/
def namesFile (n : Value) : Value → Bool
  | .nothing => false
  | .int _ => !waiting.contains n
  | _ => true

/-- The trouble with these arguments, of which the first two are an error number and what it stands
for, and the third and the fifth name files. A single argument is a remark, and so is the whole row
if there are more than five. -/
def ofArguments : List Value → Option Trouble
  | [] => some .silent
  | [v] => v.text?.map .remark
  | [n, v] => words n v .nothing .nothing
  | [n, v, f] | [n, v, f, _] => words n v f .nothing
  | [n, v, f, _, g] => words n v f g
  | vs => (Value.tuple vs).text?.map .remark
where
  /-- The texts of the arguments that count. -/
  words (n v f g : Value) : Option Trouble := do
    let number ← n.text?
    let text ← v.text?
    if namesFile n f then
      let shown ← f.inspect?
      match g with
      | .nothing => return .located number text shown
      | g => return .between number text shown (← g.inspect?)
    else return .numbered number text

end Trouble

namespace Console

/-- Say what is going on in the texts of values, if more should be said. -/
def noteValues (vs : List Value) : Working Unit := do
  if (← get).report.verbose then
    match vs.mapM Value.text? with
    | none => throw (.fault .unwritable)
    | some texts => printAside (" ".intercalate texts)

/-- Record that a file cannot be read because of an error with these arguments. -/
def recordBroken (path : Path) (arguments : List Value) : Working Unit :=
  match Trouble.ofArguments arguments with
  | none => throw (.fault .unwritable)
  | some trouble => record (.unreadableFile path trouble)

end Console
end Backtrack
