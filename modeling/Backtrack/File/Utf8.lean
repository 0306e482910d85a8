import Backtrack.Text.Hex

/-!
# Reading UTF-8

Bytes become characters one at a time. Where the bytes are not UTF-8, reading stops with the
place of the first bytes that cannot be read, those bytes, and what is wrong with them: a byte
that begins no character, a character that is not continued as it has to be, or one that the
end of the data cuts short.
-/

namespace Backtrack.Utf8

/-- What is wrong with bytes that cannot be read. -/
inductive Flaw where
  /-- The byte begins no character. -/
  | badStart
  /-- The next byte does not continue the character. -/
  | badContinuation
  /-- The data ends inside a character. -/
  | cutShort
  deriving DecidableEq, Repr

/-- Bytes that cannot be read. -/
structure DecodeError where
  /-- Where the first of them stands. -/
  position : Nat
  /-- The bytes, at least one. -/
  bytes : List UInt8
  /-- What is wrong with them. -/
  flaw : Flaw
  deriving DecidableEq, Repr

namespace Flaw

/-- The words for a flaw. -/
def message : Flaw → String
  | badStart => "invalid start byte"
  | badContinuation => "invalid continuation byte"
  | cutShort => "unexpected end of data"

end Flaw

/-- The words for bytes that cannot be read; a single byte is shown, of several the places. -/
def DecodeError.message (e : DecodeError) : String :=
  let what := match e.bytes with
    | [b] =>
      "byte 0x" ++ String.ofList (Text.hex 2 b.toNat) ++ " in position " ++ toString e.position
    | bs =>
      "bytes in position " ++ toString e.position ++ "-" ++
        toString (e.position + bs.length - 1)
  "'utf-8' codec can't decode " ++ what ++ ": " ++ e.flaw.message

/-- What a first byte says: how many bytes follow, the least and the greatest byte that may come
next, and the bits that it contributes. -/
def lead? (b : Nat) : Option (Nat × Nat × Nat × Nat) :=
  if b < 0x80 then some (0, 0x80, 0xBF, b)
  else if b < 0xC2 then none
  else if b < 0xE0 then some (1, 0x80, 0xBF, b - 0xC0)
  else if b < 0xF0 then
    some (2, if b = 0xE0 then 0xA0 else 0x80, if b = 0xED then 0x9F else 0xBF, b - 0xE0)
  else if b < 0xF5 then
    some (3, if b = 0xF0 then 0x90 else 0x80, if b = 0xF4 then 0x8F else 0xBF, b - 0xF0)
  else none

/-- The code point after so many more bytes, of which the next one lies between `low` and
`high`, with what comes after it; or how many of them could be read, and the flaw. -/
def continued : (more low high bits : Nat) → List UInt8 → Except (Nat × Flaw) (Nat × List UInt8)
  | 0, _, _, bits, bs => .ok (bits, bs)
  | _ + 1, _, _, _, [] => .error (0, .cutShort)
  | n + 1, low, high, bits, b :: bs =>
    if low ≤ b.toNat ∧ b.toNat ≤ high then
      match continued n 0x80 0xBF (bits * 64 + (b.toNat - 0x80)) bs with
      | .ok r => .ok r
      | .error (k, flaw) => .error (k + 1, flaw)
    else .error (0, .badContinuation)

/-- The first character of some bytes and what comes after it, or how many bytes cannot be read
and why. -/
def first (b : UInt8) (bs : List UInt8) : Except (Nat × Flaw) (Char × List UInt8) :=
  match lead? b.toNat with
  | none => .error (1, .badStart)
  | some (more, low, high, bits) =>
    match continued more low high bits bs with
    | .ok (n, rest) => .ok (Char.ofNat n, rest)
    | .error (k, flaw) => .error (k + 1, flaw)

/-- Reading on does not put bytes back. -/
theorem length_continued {more low high bits : Nat} {bs rest : List UInt8} {n : Nat}
    (h : continued more low high bits bs = .ok (n, rest)) : rest.length ≤ bs.length := by
  induction more generalizing low high bits bs with
  | zero =>
    simp only [continued, Except.ok.injEq, Prod.mk.injEq] at h
    exact Nat.le_of_eq (congrArg List.length h.2.symm)
  | succ more ih =>
    cases bs with
    | nil => simp [continued] at h
    | cons b bs =>
      rw [continued] at h
      split at h
      · split at h
        · next r hr =>
          rw [h] at hr
          exact Nat.le_succ_of_le (ih hr)
        · simp at h
      · simp at h

/-- What comes after a character is shorter than the bytes. -/
theorem length_first {b : UInt8} {bs rest : List UInt8} {c : Char}
    (h : first b bs = .ok (c, rest)) : rest.length < (b :: bs).length := by
  unfold first at h
  split at h
  · simp at h
  · split at h
    · next hr =>
      simp only [Except.ok.injEq, Prod.mk.injEq] at h
      rw [← h.2]
      exact Nat.lt_succ_of_le (length_continued hr)
    · simp at h

/-- The characters of the bytes from a position on, behind those that are `found` already,
latest first. -/
def decodeOnto (found : List Char) (position : Nat) :
    List UInt8 → Except DecodeError (List Char)
  | [] => .ok found.reverse
  | b :: bs =>
    match _h : first b bs with
    | .error (k, flaw) => .error ⟨position, (b :: bs).take k, flaw⟩
    | .ok (c, rest) =>
      decodeOnto (c :: found) (position + ((b :: bs).length - rest.length)) rest
termination_by bs => bs.length
decreasing_by exact length_first _h

/-- The characters of some bytes. -/
def decode (bs : List UInt8) : Except DecodeError (List Char) := decodeOnto [] 0 bs

end Backtrack.Utf8
