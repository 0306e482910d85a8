import Backtrack.Text.Blank

/-!
# Lexemes

Source text cut into words, runs of digits and single marks, with the blanks between them left
out. Words and runs of digits are as long as they can be. Every text can be cut: a character
that is no blank, letter or digit is a mark.
-/

namespace Backtrack

/-- A piece of source text. -/
inductive Lexeme where
  /-- A letter and the letters and digits after it. -/
  | word (cs : List Char)
  /-- A run of digits. -/
  | numeral (cs : List Char)
  /-- Any other character that is not blank. -/
  | mark (c : Char)
  deriving DecidableEq, Repr

namespace Lexeme

/-- The characters of a lexeme. -/
def chars : Lexeme → List Char
  | word cs => cs
  | numeral cs => cs
  | mark c => [c]

/-- The lexeme that begins with `c`, which is not blank, and what comes after it. -/
def first (c : Char) (cs : List Char) : Lexeme × List Char :=
  if c.isAlpha then (word (c :: cs.takeWhile Char.isAlphanum), cs.dropWhile Char.isAlphanum)
  else if c.isDigit then (numeral (c :: cs.takeWhile Char.isDigit), cs.dropWhile Char.isDigit)
  else (mark c, cs)

/-- The first lexeme and what comes after it are the text. -/
theorem chars_first (c : Char) (cs : List Char) :
    (first c cs).1.chars ++ (first c cs).2 = c :: cs := by
  unfold first
  split
  · simp [chars]
  · split <;> simp [chars]

/-- What comes after the first lexeme is shorter than the text. -/
theorem length_first (c : Char) (cs : List Char) : (first c cs).2.length < (c :: cs).length := by
  have h : (first c cs).1.chars ≠ [] := by
    unfold first
    split
    · simp [chars]
    · split <;> simp [chars]
  have hl := congrArg List.length (chars_first c cs)
  have hp := List.length_pos_iff.mpr h
  rw [List.length_append] at hl
  omega

/-- The lexemes of a text, after those that are `found` already, latest first. -/
def splitOnto (found : List Lexeme) : List Char → List Lexeme
  | [] => found.reverse
  | c :: cs =>
    if Text.isBlank c then splitOnto found cs
    else splitOnto ((first c cs).1 :: found) (first c cs).2
termination_by cs => cs.length
decreasing_by
  · exact Nat.lt_succ_self _
  · exact length_first c cs

/-- The lexemes of a text in order. -/
def split (cs : List Char) : List Lexeme := splitOnto [] cs

/-- At the end of the text the found lexemes are turned round. -/
private theorem splitOnto_nil (found : List Lexeme) : splitOnto found [] = found.reverse := by
  rw [splitOnto]

/-- A blank is skipped, and at any other character the first lexeme is cut off. -/
private theorem splitOnto_cons (found : List Lexeme) (c : Char) (cs : List Char) :
    splitOnto found (c :: cs) =
      if Text.isBlank c then splitOnto found cs
      else splitOnto ((first c cs).1 :: found) (first c cs).2 := by
  rw [splitOnto]

/-- What is found already comes in front of the lexemes of the text. -/
theorem splitOnto_eq (found : List Lexeme) (cs : List Char) :
    splitOnto found cs = found.reverse ++ split cs := by
  unfold split
  induction hn : cs.length using Nat.strongRecOn generalizing found cs with
  | ind n ih =>
    cases cs with
    | nil => rw [splitOnto_nil, splitOnto_nil, List.reverse_nil, List.append_nil]
    | cons c cs =>
      subst hn
      rw [splitOnto_cons, splitOnto_cons]
      split
      · exact ih _ (Nat.lt_succ_self _) _ _ rfl
      · have hl := ih _ (length_first c cs)
        rw [hl _ _ rfl, hl [(first c cs).1] _ rfl, List.reverse_cons, List.append_assoc]
        rfl

/-- The empty text has no lexeme. -/
theorem split_nil : split [] = [] := splitOnto_nil []

/-- A leading blank does not change the lexemes. -/
theorem split_blank {c : Char} (h : Text.isBlank c = true) (cs : List Char) :
    split (c :: cs) = split cs := by
  rw [split, splitOnto_cons, if_pos h, split]

/-- A text that begins with no blank begins with its first lexeme. -/
theorem split_cons {c : Char} (h : Text.isBlank c = false) (cs : List Char) :
    split (c :: cs) = (first c cs).1 :: split (first c cs).2 := by
  rw [split, splitOnto_cons, if_neg (by simp [h]), splitOnto_eq]
  rfl

end Lexeme
end Backtrack
