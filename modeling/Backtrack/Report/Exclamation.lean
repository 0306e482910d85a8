/-!
# Exclamations

What is exclaimed in front of a list of issues: a word to begin with, an oath and a sigh to end
with, each drawn from a list. The draws come from dice whose throws are given, so what is said
can be told beforehand.
-/

namespace Backtrack

/-- Dice that show given numbers in turn, over and over. -/
structure Dice where
  /-- What the dice show. -/
  faces : List Int
  /-- How often they have been thrown. -/
  thrown : Nat
  deriving DecidableEq, Repr

namespace Dice

/-- What the next throw shows. -/
def shows (d : Dice) : Int := (d.faces[d.thrown % d.faces.length]?).getD 0

/-- Throw to draw one of some texts. -/
def draw (d : Dice) (texts : List String) : String × Dice :=
  ((texts[(d.shows % texts.length).toNat]?).getD "", { d with thrown := d.thrown + 1 })

end Dice

namespace Exclamation

/-- How an exclamation begins. -/
def openings : List String := ["Oh, ", "Well, ", "Aw, ", "", ""]

/-- What is exclaimed. -/
def oaths : List String :=
  ["Ack", "ARGH", "Blargh", "Confound it", "Crud", "Curses", "Crikey", "Drat", "Fiddlesticks",
    "Good Grief", "Great Scott", "Jeepers", "Nuts", "Rats"]

/-- How an exclamation ends. -/
def closings : List String :=
  ["I am undone.", "I cannot continue.", "I have no idea what the right answer is.",
    "I need to ask for help."]

/-- An exclamation, drawn with three throws. -/
def draw (d : Dice) : String × Dice :=
  let (opening, d) := d.draw openings
  let (oath, d) := d.draw oaths
  let (closing, d) := d.draw closings
  (opening ++ oath ++ "! " ++ closing, d)

end Exclamation
end Backtrack
