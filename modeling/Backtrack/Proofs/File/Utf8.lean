import Backtrack.File.Utf8

/-!
# Reading what was written as UTF-8

The first byte of a character says how many more there are, and each of these brings six bits. So a
character is read from the bytes that it is written as, whatever comes behind them
(`first_utf8EncodeChar`), and a text from the bytes of its characters (`decode_toUTF8`).
-/

namespace Backtrack.Utf8

/-! ### One character -/

/-- A continuation byte contributes six bits. -/
theorem continued_succ {n low high bits k : Nat} {bs : List UInt8} {r : Nat × List UInt8}
    (hlow : low ≤ k % 64 + 0x80) (hhigh : k % 64 + 0x80 ≤ high)
    (h : continued n 0x80 0xBF (bits * 64 + k % 64) bs = .ok r) :
    continued (n + 1) low high bits (UInt8.ofNat (k % 64 + 0x80) :: bs) = .ok r := by
  have hbyte : (UInt8.ofNat (k % 64 + 0x80)).toNat = k % 64 + 0x80 :=
    UInt8.toNat_ofNat_of_lt' (show _ < 256 by omega)
  rw [continued, hbyte, if_pos ⟨hlow, hhigh⟩, Nat.add_sub_cancel, h]

/-- The first character is decoded if its continuation bytes contribute the remaining bits. -/
theorem first_eq_ok {k more low high bits : Nat} {bs rest : List UInt8} {c : Char} (hk : k < 256)
    (hlead : lead? k = some (more, low, high, bits))
    (hmore : continued more low high bits bs = .ok (c.toNat, rest)) :
    first (UInt8.ofNat k) bs = .ok (c, rest) := by
  rw [first, UInt8.toNat_ofNat_of_lt' hk, hlead]
  simp only [hmore, Char.ofNat_toNat]

section Widths

variable {c : Char} (rest : List UInt8)

private theorem first_one (h : c.toNat ≤ 0x7F) :
    first (UInt8.ofNat c.toNat) rest = .ok (c, rest) :=
  first_eq_ok (by omega) (if_pos (by omega)) rfl

private theorem first_two (h : ¬c.toNat ≤ 0x7F) (h' : c.toNat ≤ 0x7FF) :
    first (UInt8.ofNat (c.toNat / 64 % 32 + 0xC0))
      (UInt8.ofNat (c.toNat % 64 + 0x80) :: rest) = .ok (c, rest) := by
  have hlead : lead? (c.toNat / 64 % 32 + 0xC0) = some (1, 0x80, 0xBF, c.toNat / 64 % 32) := by
    rw [lead?, if_neg (by omega), if_neg (by omega), if_pos (by omega), Nat.add_sub_cancel]
  have hbits : c.toNat / 64 % 32 * 64 + c.toNat % 64 = c.toNat := by omega
  refine first_eq_ok (by omega) hlead (continued_succ (by omega) (by omega) ?_)
  rw [continued, hbits]

private theorem first_three (h : ¬c.toNat ≤ 0x7FF) (h' : c.toNat ≤ 0xFFFF) :
    first (UInt8.ofNat (c.toNat / 4096 % 16 + 0xE0))
      (UInt8.ofNat (c.toNat / 64 % 64 + 0x80) :: UInt8.ofNat (c.toNat % 64 + 0x80) :: rest) =
        .ok (c, rest) := by
  have hvalid : c.toNat < 0xD800 ∨ 0xDFFF < c.toNat ∧ c.toNat < 0x110000 := c.valid
  have hlead : lead? (c.toNat / 4096 % 16 + 0xE0) =
      some (2, if c.toNat / 4096 % 16 + 0xE0 = 0xE0 then 0xA0 else 0x80,
        if c.toNat / 4096 % 16 + 0xE0 = 0xED then 0x9F else 0xBF, c.toNat / 4096 % 16) := by
    rw [lead?, if_neg (by omega), if_neg (by omega), if_neg (by omega), if_pos (by omega),
      Nat.add_sub_cancel]
  have hbits : (c.toNat / 4096 % 16 * 64 + c.toNat / 64 % 64) * 64 + c.toNat % 64 = c.toNat := by
    omega
  refine first_eq_ok (by omega) hlead (continued_succ ?_ ?_ ?_)
  · split <;> omega
  · split <;> omega
  · refine continued_succ (by omega) (by omega) ?_
    rw [continued, hbits]

private theorem first_four (h : ¬c.toNat ≤ 0xFFFF) :
    first (UInt8.ofNat (c.toNat / 262144 % 8 + 0xF0))
      (UInt8.ofNat (c.toNat / 4096 % 64 + 0x80) :: UInt8.ofNat (c.toNat / 64 % 64 + 0x80) ::
        UInt8.ofNat (c.toNat % 64 + 0x80) :: rest) = .ok (c, rest) := by
  have hvalid : c.toNat < 0xD800 ∨ 0xDFFF < c.toNat ∧ c.toNat < 0x110000 := c.valid
  have hlead : lead? (c.toNat / 262144 % 8 + 0xF0) =
      some (3, if c.toNat / 262144 % 8 + 0xF0 = 0xF0 then 0x90 else 0x80,
        if c.toNat / 262144 % 8 + 0xF0 = 0xF4 then 0x8F else 0xBF, c.toNat / 262144 % 8) := by
    rw [lead?, if_neg (by omega), if_neg (by omega), if_neg (by omega), if_neg (by omega),
      if_pos (by omega), Nat.add_sub_cancel]
  have hbits : ((c.toNat / 262144 % 8 * 64 + c.toNat / 4096 % 64) * 64 + c.toNat / 64 % 64) * 64 +
      c.toNat % 64 = c.toNat := by
    omega
  refine first_eq_ok (by omega) hlead (continued_succ ?_ ?_ ?_)
  · split <;> omega
  · split <;> omega
  · refine continued_succ (by omega) (by omega) (continued_succ (by omega) (by omega) ?_)
    rw [continued, hbits]

/-- The encoding of a character decodes to the character and the bytes behind it. -/
theorem first_utf8EncodeChar (c : Char) :
    ∃ b bs, String.utf8EncodeChar c = b :: bs ∧ first b (bs ++ rest) = .ok (c, rest) := by
  have hval : c.val.toNat = c.toNat := rfl
  simp only [String.utf8EncodeChar, hval]
  by_cases h₁ : c.toNat ≤ 0x7F
  · rw [if_pos h₁]
    exact ⟨_, _, rfl, first_one rest h₁⟩
  by_cases h₂ : c.toNat ≤ 0x7FF
  · rw [if_neg h₁, if_pos h₂]
    exact ⟨_, _, rfl, first_two rest h₁ h₂⟩
  by_cases h₃ : c.toNat ≤ 0xFFFF
  · rw [if_neg h₁, if_neg h₂, if_pos h₃]
    exact ⟨_, _, rfl, first_three rest h₂ h₃⟩
  · rw [if_neg h₁, if_neg h₂, if_neg h₃]
    exact ⟨_, _, rfl, first_four rest h₃⟩

end Widths

/-! ### A text -/

/-- The encodings of several characters decode one after another. -/
theorem decodeOnto_flatMap (found : List Char) (position : Nat) (cs : List Char) :
    decodeOnto found position (cs.flatMap String.utf8EncodeChar) = .ok (found.reverse ++ cs) := by
  induction cs generalizing found position with
  | nil => rw [List.flatMap_nil, decodeOnto, List.append_nil]
  | cons c cs ih =>
    obtain ⟨b, bs, hbytes, hfirst⟩ := first_utf8EncodeChar (cs.flatMap String.utf8EncodeChar) c
    rw [List.flatMap_cons, hbytes, List.cons_append, decodeOnto]
    split
    · next h => rw [hfirst] at h; cases h
    · next h =>
      rw [hfirst] at h
      cases h
      rw [ih, List.reverse_cons, List.append_assoc, List.singleton_append]

/-- The UTF-8 bytes of a text are the encodings of its characters. -/
theorem toList_toUTF8 (text : String) :
    text.toUTF8.data.toList = text.toList.flatMap String.utf8EncodeChar := by
  rw [← String.ofList_toList (s := text), String.toUTF8_eq_toByteArray, String.toByteArray_ofList,
    String.toList_ofList, List.utf8Encode, List.toList_data_toByteArray]

/-- Decoding the UTF-8 bytes of a text gives the text. -/
theorem decode_toUTF8 (text : String) : decode text.toUTF8.data.toList = .ok text.toList := by
  rw [toList_toUTF8, decode, decodeOnto_flatMap]
  rfl

end Backtrack.Utf8
