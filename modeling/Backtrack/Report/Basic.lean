import Backtrack.Report.Issue

/-!
# Reports

The issues met so far, in order, and how many of them are too many. The issue that brings the
number to the limit stops the work; it is recorded all the same, and the issues after it are
recorded without stopping anything.
-/

namespace Backtrack

/-- The issues met so far. -/
structure Report where
  /-- Whether to say more about what is going on. -/
  verbose : Bool
  /-- How many issues are too many; no number of them is if this is below one. -/
  limit : Int
  /-- The issues in the order in which they were met. -/
  issues : List Issue
  deriving DecidableEq, Repr

namespace Report

/-- A report of nothing. -/
def empty (verbose : Bool) (limit : Int) : Report := ⟨verbose, limit, []⟩

/-- How many issues are too many where nothing else is said. -/
def defaultLimit : Int := 3

/-- One more issue. -/
def add (r : Report) (i : Issue) : Report := { r with issues := r.issues ++ [i] }

/-- Whether the last issue was the one too many. -/
def isFull (r : Report) : Bool := r.issues.length == r.limit

/-- Whether there are any issues. -/
def hasIssues (r : Report) : Bool := !r.issues.isEmpty

/-- Adding keeps the earlier issues and puts the new one last. -/
theorem issues_add (r : Report) (i : Issue) : (r.add i).issues = r.issues ++ [i] := rfl

/-- Adding changes neither the limit nor the verbosity. -/
theorem limit_add (r : Report) (i : Issue) :
    (r.add i).limit = r.limit ∧ (r.add i).verbose = r.verbose := ⟨rfl, rfl⟩

/-- A report has issues exactly when the list of them is not empty. -/
theorem hasIssues_iff (r : Report) : r.hasIssues = true ↔ r.issues ≠ [] := by
  simp [hasIssues]

/-- A report is full behind the issue that makes them as many as the limit. -/
theorem isFull_add_iff (r : Report) (i : Issue) :
    (r.add i).isFull = true ↔ (r.issues.length : Int) + 1 = r.limit := by
  simp [isFull, add]

end Report
end Backtrack
