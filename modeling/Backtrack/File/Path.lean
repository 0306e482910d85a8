/-!
# Paths

The names of files. A path is a root, if it has one, and the parts between its slashes; parts
that are empty or a single dot say nothing and are dropped, while two dots are kept.
-/

namespace Backtrack

/-- The name of a file. -/
structure Path where
  /-- The slashes that a path begins with: none, one, or exactly two. -/
  root : String
  /-- The parts between slashes. -/
  parts : List String
  deriving DecidableEq, Repr

namespace Path

/-- The parts of a path text that say something. -/
def partsOf (cs : List Char) : List String :=
  ((cs.splitOn '/').map String.ofList).filter fun part ↦ part != "" && part != "."

/-- The root that a path text begins with: two slashes are a root of their own, but three or
more are one. -/
def rootOf : List Char → String
  | '/' :: '/' :: '/' :: _ => "/"
  | '/' :: '/' :: _ => "//"
  | '/' :: _ => "/"
  | _ => ""

/-- The path that a text names. -/
def ofString (s : String) : Path := ⟨rootOf s.toList, partsOf s.toList⟩

/-- The text of a path; the place where one already is has the text of a single dot. -/
def toString (p : Path) : String :=
  let s := p.root ++ "/".intercalate p.parts
  if s.isEmpty then "." else s

end Path
end Backtrack
