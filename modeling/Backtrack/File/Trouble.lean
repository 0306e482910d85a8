import Backtrack.File.Path
import Backtrack.Text.Quoted

/-!
# Trouble with files

Why a file cannot be read.
-/

namespace Backtrack

/-- What is known about a failed attempt to read a file. -/
inductive Trouble where
  /-- Nothing. -/
  | silent
  /-- A remark. -/
  | remark (text : String)
  /-- An error number and what it stands for. -/
  | numbered (number text : String)
  /-- An error number, what it stands for, and the file as it is shown. -/
  | located (number text shown : String)
  /-- An error number, what it stands for, and two files as they are shown. -/
  | between (number text shown other : String)
  deriving DecidableEq, Repr

namespace Trouble

/-- The words for the trouble. -/
def message : Trouble → String
  | silent => ""
  | remark text => text
  | numbered number text => "[Errno " ++ number ++ "] " ++ text
  | located number text shown => "[Errno " ++ number ++ "] " ++ text ++ ": " ++ shown
  | between number text shown other =>
    "[Errno " ++ number ++ "] " ++ text ++ ": " ++ shown ++ " -> " ++ other

/-- The path names a directory. -/
def isDirectory (path : Path) : Trouble :=
  located "21" "Is a directory" (Text.quoted path.toString)

/-- The path goes through something that is no directory. -/
def notDirectory (path : Path) : Trouble :=
  located "20" "Not a directory" (Text.quoted path.toString)

/-- A part of the path is too long. -/
def nameTooLong (path : Path) : Trouble :=
  located "36" "File name too long" (Text.quoted path.toString)

end Trouble
end Backtrack
