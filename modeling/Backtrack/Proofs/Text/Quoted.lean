import Backtrack.Proofs.Text.Numeral
import Backtrack.Text.Quoted

/-!
# Texts that show where they end

A text between quotation marks tells where it ends, whatever is written behind it: the marks do not
stand inside it unless a backslash stands in front of them, and every escape is read back as the
character that it was made from (`unescape_escape`). So the quoted text and what follows it can be
told apart, and the text can be told from the quoted one: `selfDelimiting_encode`. The same holds of
the numeral of an integer with a character behind it that is no digit.
-/

namespace Backtrack.Text

/-- What is written for a value tells the value and where the writing ends, whatever follows. -/
def SelfDelimiting {α : Type} (write : α → List Char) : Prop :=
  ∀ a b r s, write a ++ r = write b ++ s → a = b ∧ r = s

/-! ### Hexadecimal digits -/

/-- The digit that a character stands for. -/
def hexDigit (c : Char) : Nat := if c.toNat < 97 then c.toNat - 48 else c.toNat - 87

/-- The number that a run of hexadecimal digits stands for. -/
def hexValue (cs : List Char) : Nat := cs.foldl (fun n c ↦ 16 * n + hexDigit c) 0

private theorem hexDigit_hexChar {n : Nat} (h : n < 16) : hexDigit (hexChar n) = n := by
  have hall : ∀ m < 16, hexDigit (hexChar m) = m := by decide
  exact hall n h

/-- The value of the hexadecimal digits of a number is the number, if it has at most as many
digits. -/
theorem hexValue_hex {width n : Nat} (h : n < 16 ^ width) : hexValue (hex width n) = n := by
  induction width generalizing n with
  | zero =>
    rw [Nat.pow_zero] at h
    rw [hex, hexValue, List.foldl_nil]
    omega
  | succ width ih =>
    have hdiv : n / 16 < 16 ^ width := by
      rw [Nat.pow_succ] at h
      omega
    have hconcat (cs : List Char) (c : Char) :
        hexValue (cs ++ [c]) = 16 * hexValue cs + hexDigit c := by simp [hexValue]
    rw [hex, hconcat, ih hdiv, hexDigit_hexChar (Nat.mod_lt n (by decide))]
    omega

namespace Quoted

/-! ### Escapes -/

/-- The character that the beginning of an escaped text stands for, and the rest of the text. -/
def unescape : List Char → Option (Char × List Char)
  | [] => none
  | '\\' :: 'n' :: r => some ('\n', r)
  | '\\' :: 'r' :: r => some ('\r', r)
  | '\\' :: 't' :: r => some ('\t', r)
  | '\\' :: 'x' :: r => some (Char.ofNat (hexValue (r.take 2)), r.drop 2)
  | '\\' :: 'u' :: r => some (Char.ofNat (hexValue (r.take 4)), r.drop 4)
  | '\\' :: 'U' :: r => some (Char.ofNat (hexValue (r.take 8)), r.drop 8)
  | '\\' :: c :: r => some (c, r)
  | c :: r => some (c, r)

private theorem unescape_of_ne {c : Char} (h : c ≠ '\\') (r : List Char) :
    unescape (c :: r) = some (c, r) := by
  unfold unescape
  split <;> simp_all

/-- A character is read back from its hexadecimal digits, if these are enough. -/
private theorem ofNat_hexValue (width : Nat) {c : Char} (h : c.toNat < 16 ^ width)
    (r : List Char) :
    some (Char.ofNat (hexValue ((hex width c.toNat ++ r).take width)),
      (hex width c.toNat ++ r).drop width) = some (c, r) := by
  have hlength := length_hex width c.toNat
  rw [List.take_left' hlength, List.drop_left' hlength, hexValue_hex h, Char.ofNat_toNat]

/-- A quotation mark. -/
def IsMark (q : Char) : Prop := q = '\'' ∨ q = '"'

/-- Unescaping an escaped character gives the character and the text behind it. -/
theorem unescape_escape {q : Char} (hq : IsMark q) (c : Char) (r : List Char) :
    unescape (escape q c ++ r) = some (c, r) := by
  rw [escape]
  split
  · next h =>
    rcases h with rfl | rfl
    · rcases hq with rfl | rfl <;> rfl
    · rfl
  split
  · next h => rw [h]; rfl
  split
  · next h => rw [h]; rfl
  split
  · next h => rw [h]; rfl
  split
  · next h _ _ _ _ => exact unescape_of_ne (fun hc ↦ h (.inr hc)) r
  split
  · next h => exact ofNat_hexValue 2 h r
  split
  · next h => exact ofNat_hexValue 4 h r
  · have h : c.toNat < 16 ^ 8 := by
      have hvalid := c.valid
      rw [Char.toNat]
      omega
    exact ofNat_hexValue 8 h r

/-- A character is escaped as itself, and is then not the mark, or it is escaped behind a
backslash. -/
private theorem escape_eq_or (q c : Char) :
    (escape q c = [c] ∧ c ≠ q) ∨ ∃ cs, escape q c = '\\' :: cs := by
  rw [escape]
  split
  · exact .inr ⟨_, rfl⟩
  split
  · exact .inr ⟨_, rfl⟩
  split
  · exact .inr ⟨_, rfl⟩
  split
  · exact .inr ⟨_, rfl⟩
  split
  · next h _ _ _ _ => exact .inl ⟨rfl, fun hc ↦ h (.inl hc)⟩
  split
  · exact .inr ⟨_, rfl⟩
  split
  · exact .inr ⟨_, rfl⟩
  · exact .inr ⟨_, rfl⟩

/-- An escaped character does not begin with a mark. -/
private theorem escape_append_ne {q : Char} (hq : IsMark q) (c : Char) (r s : List Char) :
    escape q c ++ r ≠ q :: s := by
  intro h
  rcases escape_eq_or q c with ⟨hc, hne⟩ | ⟨cs, hcs⟩
  · rw [hc] at h
    exact hne (List.cons.inj h).1
  · rw [hcs] at h
    have hslash : '\\' ≠ q := by rcases hq with rfl | rfl <;> decide
    exact hslash (List.cons.inj h).1

/-- Escaped texts followed by a mark are equal only if the texts and what follows are. -/
private theorem flatMap_escape_append_inj {q : Char} (hq : IsMark q) {cs ds r s : List Char}
    (h : cs.flatMap (escape q) ++ q :: r = ds.flatMap (escape q) ++ q :: s) :
    cs = ds ∧ r = s := by
  induction cs generalizing ds with
  | nil =>
    cases ds with
    | nil => exact ⟨rfl, (List.cons.inj h).2⟩
    | cons d ds =>
      rw [List.flatMap_cons, List.append_assoc] at h
      exact absurd h.symm (escape_append_ne hq d _ _)
  | cons c cs ih =>
    rw [List.flatMap_cons, List.append_assoc] at h
    cases ds with
    | nil => exact absurd h (escape_append_ne hq c _ _)
    | cons d ds =>
      rw [List.flatMap_cons, List.append_assoc] at h
      have hread := congrArg unescape h
      rw [unescape_escape hq, unescape_escape hq, Option.some.injEq, Prod.mk.injEq] at hread
      obtain ⟨rfl, hrest⟩ := hread
      obtain ⟨rfl, hrs⟩ := ih hrest
      exact ⟨rfl, hrs⟩

/-- The mark of a text is a quotation mark. -/
private theorem isMark_mark (cs : List Char) : IsMark (mark cs) := by
  rw [mark]
  split
  · exact .inr rfl
  · exact .inl rfl

/-- A quoted text determines the text and its own end. -/
theorem selfDelimiting_encode : SelfDelimiting encode := by
  intro cs ds r s h
  simp only [encode, List.cons_append, List.append_assoc, List.nil_append, List.cons.injEq] at h
  obtain ⟨hmark, h⟩ := h
  rw [hmark] at h
  exact flatMap_escape_append_inj (isMark_mark ds) h

end Quoted

/-! ### Numerals -/

namespace Numeral

/-- Numerals followed by no digit are equal only if the numbers and what follows are. -/
private theorem digits_append_inj {m n : Nat} {c : Char} (hc : c.isDigit = false)
    {r s : List Char} (h : digits m ++ c :: r = digits n ++ c :: s) : m = n ∧ r = s := by
  have htake (k : Nat) (r : List Char) :
      (digits k ++ c :: r).takeWhile Char.isDigit = digits k := by
    rw [List.takeWhile_append_of_pos fun _ ↦ isDigit_of_mem_digits,
      List.takeWhile_cons_of_neg (by rw [hc]; decide), List.append_nil]
  have hdigits : digits m = digits n := by rw [← htake m r, h, htake n s]
  have hmn : m = n := by rw [← value_digits m, hdigits, value_digits]
  rw [hdigits] at h
  exact ⟨hmn, (List.cons.inj (List.append_cancel_left h)).2⟩

/-- A numeral does not begin with a minus sign. -/
private theorem digits_append_ne (n : Nat) (r s : List Char) : digits n ++ r ≠ '-' :: s := by
  intro h
  obtain ⟨c, cs, hcs⟩ := List.exists_cons_of_ne_nil (digits_ne_nil n)
  have hc : c.isDigit = true := isDigit_of_mem_digits (hcs ▸ List.mem_cons_self)
  rw [hcs] at h
  rw [(List.cons.inj h).1] at hc
  exact absurd hc (by decide)

/-- The numeral of an integer, followed by a character that is no digit, determines the integer and
its own end. -/
theorem selfDelimiting_ofInt {c : Char} (hc : c.isDigit = false) :
    SelfDelimiting fun z ↦ ofInt z ++ [c] := by
  intro y z r s h
  rw [List.append_assoc, List.append_assoc, List.singleton_append, List.singleton_append] at h
  cases y with
  | ofNat m =>
    cases z with
    | ofNat n =>
      obtain ⟨rfl, hrs⟩ := digits_append_inj hc h
      exact ⟨rfl, hrs⟩
    | negSucc n => exact absurd h (digits_append_ne m _ _)
  | negSucc m =>
    cases z with
    | ofNat n => exact absurd h.symm (digits_append_ne n _ _)
    | negSucc n =>
      obtain ⟨hmn, hrs⟩ := digits_append_inj hc (List.cons.inj h).2
      obtain rfl := Nat.succ.inj hmn
      exact ⟨rfl, hrs⟩

end Numeral
end Backtrack.Text
