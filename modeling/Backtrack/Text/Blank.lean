/-!
# Blanks

The characters that separate words without being part of one, and the removal of blanks from
the end of a line. The removal also takes the four separators U+001C to U+001F, which do not
count as blanks between words.
-/

namespace Backtrack.Text

/-- Whether the character only separates: the ASCII blanks and those of the rest of Unicode. -/
@[irreducible] def isBlank (c : Char) : Bool :=
  let n := c.toNat
  (0x09 ≤ n && n ≤ 0x0D) || n == 0x20 || n == 0x85 || n == 0xA0 || n == 0x1680 ||
    (0x2000 ≤ n && n ≤ 0x200A) || n == 0x2028 || n == 0x2029 || n == 0x202F || n == 0x205F ||
    n == 0x3000

/-- The information separators of ASCII. -/
def isSeparator (c : Char) : Bool := 0x1C ≤ c.toNat && c.toNat ≤ 0x1F

/-- A line without the blanks and separators at its end. -/
def trimEnd (line : List Char) : List Char :=
  (line.reverse.dropWhile fun c ↦ isBlank c || isSeparator c).reverse

end Backtrack.Text
