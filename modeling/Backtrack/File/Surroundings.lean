import Backtrack.File.Tree

/-!
# What every system has

The directories of the filesystem hierarchy standard that are found on every system, and the
device that is always empty. A program runs in a directory of its own among the temporary ones;
that directory has no name, so no path leads into it from outside.
-/

namespace Backtrack.FileTree

/-- The directories that every system has. -/
def standardDirs : List (List String) :=
  [["bin"], ["boot"], ["dev"], ["etc"], ["home"], ["lib"], ["media"], ["mnt"], ["opt"], ["proc"],
    ["root"], ["run"], ["sbin"], ["srv"], ["sys"], ["tmp"], ["usr", "bin"], ["usr", "include"],
    ["usr", "lib"], ["usr", "local"], ["usr", "sbin"], ["usr", "share"], ["var", "cache"],
    ["var", "lib"], ["var", "local"], ["var", "log"], ["var", "opt"], ["var", "spool"],
    ["var", "tmp"]]

/-- A system with nothing in the directory where the program runs. -/
def surroundings : FileTree := ⟨standardDirs, [(["dev", "null"], [])], ["tmp", ""]⟩

end Backtrack.FileTree
