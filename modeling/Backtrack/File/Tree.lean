import Backtrack.File.Trouble

/-!
# Trees of files

The files and directories that a program finds. A path is followed part by part: through a
directory it goes on, through a file it cannot, and two dots lead one directory outwards; the
root is around itself. A path that is too long as a whole is not followed at all.
-/

namespace Backtrack

/-- What comes of reading a file. -/
inductive ReadResult where
  /-- The bytes of the file. -/
  | content (bytes : List UInt8)
  /-- There is no such file. -/
  | missing
  /-- No file can have such a name. -/
  | misnamed
  /-- The file cannot be read. -/
  | broken (trouble : Trouble)
  deriving DecidableEq, Repr

/-- Files and directories, each by the parts that lead to it from the root. -/
structure FileTree where
  /-- The directories; those around them and around the files need not be listed. -/
  dirs : List (List String)
  /-- The files with their bytes. -/
  files : List (List String × List UInt8)
  /-- The directory where a path without a root begins. -/
  here : List String
  deriving DecidableEq, Repr

namespace FileTree

/-- The most bytes that one part of a path may have. -/
def longestPart : Nat := 255

/-- The most bytes that a path may have. -/
def longestPath : Nat := 4095

/-- Whether there is a directory at a place, as such or because something lies in it. -/
def hasDir (t : FileTree) (place : List String) : Bool :=
  place.isPrefixOf t.here || t.dirs.any place.isPrefixOf ||
    t.files.any fun f ↦ place.isPrefixOf f.1 && place.length < f.1.length

/-- The place one part further on, from the inside out. -/
def step (place : List String) (part : String) : List String :=
  if part == ".." then place.tail else part :: place

/-- Follow the parts of the path `whole` from the directory at a place, which is given from the
inside out. -/
def follow (t : FileTree) (whole : Path) (place : List String) : List String → ReadResult
  | [] => .broken (.isDirectory whole)
  | part :: parts =>
    let next := step place part
    if part.utf8ByteSize > longestPart then .broken (.nameTooLong whole)
    else if t.hasDir next.reverse then t.follow whole next parts
    else match t.files.lookup next.reverse with
      | none => .missing
      | some bytes =>
        if parts.isEmpty then .content bytes else .broken (.notDirectory whole)

/-- The place where a path begins, from the inside out. -/
def start (t : FileTree) (path : Path) : List String :=
  if path.root.isEmpty then t.here.reverse else []

/-- Read the file that a path names. -/
def read (t : FileTree) (path : Path) : ReadResult :=
  if '\x00' ∈ path.toString.toList then .misnamed
  else if path.toString.utf8ByteSize > longestPath then .broken (.nameTooLong path)
  else t.follow path (t.start path) path.parts

/-- The places that parts lead through, from the inside out. -/
def through (place : List String) : List String → List (List String)
  | [] => []
  | part :: parts => step place part :: through (step place part) parts

/-- The tree with a directory and what is needed to get there. -/
def addDir (t : FileTree) (path : Path) : FileTree :=
  { t with dirs := (through (t.start path) path.parts).map List.reverse ++ t.dirs }

/-- The tree with a file in place of the one that was there. -/
def addFile (t : FileTree) (path : Path) (bytes : List UInt8) : FileTree :=
  { t with files := ((path.parts.foldl step (t.start path)).reverse, bytes) :: t.files }

end FileTree
end Backtrack
