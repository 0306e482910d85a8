import Backtrack.Report.Console

/-!
# Calls on a report

What a report can be asked to do, one thing at a time.
-/

namespace Backtrack

/-- Something that is asked of a report. -/
inductive Call where
  /-- An issue is met. -/
  | record (i : Issue)
  /-- It may be worth saying what is going on. -/
  | note (line : String)
  /-- All the issues are to be told. -/
  | printIssues
  /-- There should be no issues. -/
  | requireClean (message : String)
  deriving DecidableEq, Repr

/-- The work on the console. -/
def Call.work : Call → Working Unit
  | record i => Console.record i
  | note line => Console.note line
  | printIssues => Console.printIssues
  | requireClean message => Console.requireClean message

end Backtrack
