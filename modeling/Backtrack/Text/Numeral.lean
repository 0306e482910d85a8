/-!
# Decimal numerals

Numbers as runs of decimal digits. `value_digits` says that the numeral of a number has that
number as its value. Numerals of more than `limit` digits are neither read nor written: reading one
fails with a `LongNumeral`, and a text that would contain one cannot be written at all. A function
whose name ends in a question mark gives such a text only if it can be written.
-/

namespace Backtrack

/-- A numeral has more digits than the limit. -/
structure LongNumeral where
  /-- How many digits it has. -/
  digits : Nat
  deriving DecidableEq, Repr

namespace LongNumeral

/-- What is said about a numeral that is too long. -/
def message (e : LongNumeral) : String :=
  "Exceeds the limit (4300 digits) for integer string conversion: value has " ++
    toString e.digits ++ " digits; use sys.set_int_max_str_digits() to increase the limit"

end LongNumeral

namespace Text.Numeral

/-- The most digits that a numeral may have where text is turned into a number or back. -/
def limit : Nat := 4300

/-- The character of a digit below ten. -/
def digitChar (n : Nat) : Char := Char.ofNat (48 + n)

/-- The number that a digit character stands for. -/
def digitValue (c : Char) : Nat := c.toNat - 48

/-- A number's numeral in front of a text. -/
def onto (n : Nat) (after : List Char) : List Char :=
  if n < 10 then digitChar n :: after else onto (n / 10) (digitChar (n % 10) :: after)
termination_by n

/-- The shortest numeral of a number. -/
def digits (n : Nat) : List Char := onto n []

/-- The value of a run of digits; zeros in front count for nothing. -/
def value (cs : List Char) : Nat := cs.foldl (fun n c ↦ 10 * n + digitValue c) 0

/-- The numeral of an integer, with a minus sign in front if it is negative. -/
def ofInt : Int → List Char
  | .ofNat n => digits n
  | .negSucc n => '-' :: digits (n + 1)

/-- Whether the numeral of an integer has no more digits than the limit. -/
def isWritable (z : Int) : Bool := (digits z.natAbs).length ≤ limit

/-- The numeral of an integer, unless it has more digits than the limit. -/
def ofInt? (z : Int) : Option (List Char) := if isWritable z then some (ofInt z) else none

/-- The message for an integer whose numeral has more digits than the limit. -/
def unwritable : String :=
  "Exceeds the limit (4300 digits) for integer string conversion; " ++
    "use sys.set_int_max_str_digits() to increase the limit"

/-- The integer that a numeral stands for, with a minus sign in front or without one; a numeral
of more digits than the limit is not read. -/
def toInt : List Char → Except LongNumeral Int
  | '-' :: ds => if ds.length ≤ limit then .ok (-(value ds : Int)) else .error ⟨ds.length⟩
  | ds => if ds.length ≤ limit then .ok (value ds) else .error ⟨ds.length⟩

/-- A digit character stands for the digit it was made from. -/
theorem digitValue_digitChar {n : Nat} (h : n < 10) : digitValue (digitChar n) = n := by
  have : ∀ m < 10, digitValue (digitChar m) = m := by decide
  exact this n h

/-- Writing in front of a text leaves the text as it is. -/
theorem onto_eq (n : Nat) (after : List Char) : onto n after = digits n ++ after := by
  induction n using Nat.strongRecOn generalizing after with
  | ind n ih =>
    by_cases h : n < 10
    · simp [digits, onto, h]
    · have hn : n / 10 < n := Nat.div_lt_self (by omega) (by decide)
      have step (t : List Char) : onto n t = onto (n / 10) (digitChar (n % 10) :: t) := by
        rw [onto, if_neg h]
      rw [digits, step, step, ih _ hn, ih _ hn [_]]
      simp

/-- All digits but the last are the numeral of the tenth part. -/
theorem digits_of_ge {n : Nat} (h : 10 ≤ n) :
    digits n = digits (n / 10) ++ [digitChar (n % 10)] := by
  rw [digits, onto, if_neg (by omega), onto_eq]

/-- A number below ten is one digit. -/
theorem digits_of_lt {n : Nat} (h : n < 10) : digits n = [digitChar n] := by
  rw [digits, onto, if_pos h]

/-- One more digit behind multiplies by ten. -/
theorem value_concat (cs : List Char) (c : Char) :
    value (cs ++ [c]) = 10 * value cs + digitValue c := by
  simp [value]

/-- Writing a number and reading it gives the number back. -/
theorem value_digits (n : Nat) : value (digits n) = n := by
  induction n using Nat.strongRecOn with
  | ind n ih =>
    by_cases h : n < 10
    · rw [digits_of_lt h]
      simp [value, digitValue_digitChar h]
    · rw [digits_of_ge (by omega), value_concat, ih _ (Nat.div_lt_self (by omega) (by decide)),
        digitValue_digitChar (Nat.mod_lt _ (by decide))]
      omega

end Text.Numeral
end Backtrack
