import Backtrack.Text.Blank

/-!
# Underlined lines

A line of source with a row of carets below the part that is meant. The blanks in front of the
carets keep the tabs of the line, so the carets stand below that part whatever a tab is worth.
-/

namespace Backtrack.Underline

/-- Blanks as wide as a text. -/
def blanks (cs : List Char) : List Char := cs.map fun c ↦ if c = '\t' then c else ' '

/-- How many carets are drawn: `width`, but not beyond the end of the line, and at least one. -/
def caretCount (line : List Char) (start width : Nat) : Nat :=
  max 1 (min width (line.length - start))

/-- The line behind a margin, without the blanks at its end, and below it the carets with a
caption. -/
def draw (margin line : List Char) (start width : Nat) (caption : List Char) : List Char :=
  margin ++ Text.trimEnd line ++ '\n' :: blanks (margin ++ line.take start) ++
    List.replicate (caretCount line start width) '^' ++ ' ' :: caption

end Backtrack.Underline
