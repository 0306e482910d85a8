import Backtrack.Proofs.Token.Joining
import Backtrack.Text.Newline

/-!
# Scanning a text with other line ends

Every line end is blank however it is written, so it is no part of a lexeme and lexemes on its two
sides are kept apart. A text with line feeds for its line ends has the same lexemes as before
(`split_unifyNewlines`), and so the same tokens or the same numeral that is too long
(`scan_unifyNewlines`).
-/

namespace Backtrack

namespace Text

/-! ### Line ends one by one -/

/-- A text with line feeds for line ends, given the character in front of it. -/
def unifiedBehind (before : Char) (cs : List Char) : List Char :=
  (List.zip (before :: cs) cs).flatMap fun (before, c) ↦ newlineStep before c

/-- Unifying treats the first character by the one in front of it. -/
private theorem unifiedBehind_cons (before c : Char) (cs : List Char) :
    unifiedBehind before (c :: cs) = newlineStep before c ++ unifiedBehind c cs := by
  rw [unifiedBehind, List.zip_cons_cons, List.flatMap_cons, ← unifiedBehind]

/-- The character in front matters only if it forms one line end with the first character of the
text. -/
theorem unifiedBehind_eq {before : Char} {cs : List Char}
    (h : before ≠ '\r' ∨ cs.head? ≠ some '\n') : unifiedBehind before cs = unifyNewlines cs := by
  cases cs with
  | nil => rfl
  | cons c cs =>
    have hstep : newlineStep before c = newlineStep ' ' c := by
      have hnot : ¬(before = '\r' ∧ c = '\n') := by
        rintro ⟨hbefore, hc⟩
        exact h.elim (· hbefore) (· (congrArg some hc))
      have hspace : ¬(' ' = '\r' ∧ c = '\n') := fun h ↦ absurd h.1 (by decide)
      rw [newlineStep, newlineStep, if_neg hnot, if_neg hspace]
    rw [unifiedBehind_cons, hstep, ← unifiedBehind_cons]
    rfl

/-- A carriage return followed by a line feed becomes one line feed. -/
theorem unifyNewlines_return_feed (cs : List Char) :
    unifyNewlines ('\r' :: '\n' :: cs) = '\n' :: unifyNewlines cs := by
  have hrest : unifiedBehind '\n' cs = unifyNewlines cs := unifiedBehind_eq (.inl (by decide))
  rw [← hrest]
  rfl

/-- A carriage return followed by no line feed becomes a line feed. -/
theorem unifyNewlines_return {cs : List Char} (hcs : cs.head? ≠ some '\n') :
    unifyNewlines ('\r' :: cs) = '\n' :: unifyNewlines cs := by
  have hrest : unifiedBehind '\r' cs = unifyNewlines cs := unifiedBehind_eq (.inr hcs)
  rw [← hrest]
  rfl

/-- Unifying keeps any other character. -/
theorem unifyNewlines_cons {c : Char} (hc : c ≠ '\r') (cs : List Char) :
    unifyNewlines (c :: cs) = c :: unifyNewlines cs := by
  have hrest : unifiedBehind c cs = unifyNewlines cs := unifiedBehind_eq (.inl hc)
  have hstep : newlineStep ' ' c = [c] := by simp [newlineStep, hc]
  calc unifyNewlines (c :: cs) = newlineStep ' ' c ++ unifiedBehind c cs :=
        unifiedBehind_cons ' ' c cs
    _ = c :: unifyNewlines cs := by rw [hstep, hrest, List.singleton_append]

/-- Unifying keeps everything in front of the first carriage return. -/
theorem unifyNewlines_append {as : List Char} (has : '\r' ∉ as) (cs : List Char) :
    unifyNewlines (as ++ cs) = as ++ unifyNewlines cs := by
  induction as with
  | nil => rfl
  | cons a as ih =>
    have ha : a ≠ '\r' := fun h ↦ has (h ▸ List.mem_cons_self)
    rw [List.cons_append, unifyNewlines_cons ha, ih fun h ↦ has (List.mem_cons_of_mem a h),
      List.cons_append]

end Text

/-! ### Lexemes and tokens -/

namespace Lexeme

open Text

/-- The lexemes on both sides of a blank are cut off independently. -/
theorem split_append_blank {c : Char} (hc : isBlank c = true) (as cs : List Char) :
    split (as ++ c :: cs) = split as ++ split cs := by
  rw [split_append (not_cutsRun_of_isBlank hc as cs), split_blank hc]

/-- Unifying the line ends keeps the lexemes. -/
theorem split_unifyNewlines (cs : List Char) : split (unifyNewlines cs) = split cs := by
  have hreturn : isBlank '\r' = true := by simp [isBlank]
  have hfeed : isBlank '\n' = true := by simp [isBlank]
  -- From one carriage return to the next: the text behind it is shorter.
  induction hn : cs.length using Nat.strongRecOn generalizing cs with
  | ind n ih =>
    by_cases hmem : '\r' ∈ cs
    · obtain ⟨as, bs, rfl, has⟩ := List.eq_append_cons_of_mem hmem
      rw [List.length_append, List.length_cons] at hn
      rw [unifyNewlines_append has, split_append_blank hreturn]
      by_cases hbs : bs.head? = some '\n'
      · obtain ⟨ds, rfl⟩ := List.head?_eq_some_iff.mp hbs
        rw [List.length_cons] at hn
        rw [unifyNewlines_return_feed, split_append_blank hfeed, split_blank hfeed,
          ih ds.length (by omega) ds rfl]
      · rw [unifyNewlines_return hbs, split_append_blank hfeed,
          ih bs.length (by omega) bs rfl]
    · rw [unifyNewlines_of_not_mem hmem]

end Lexeme

/-- Unifying the line ends keeps the tokens of a text, or the numeral that is too long. -/
theorem Token.scan_unifyNewlines (text : String) :
    scan (String.ofList (Text.unifyNewlines text.toList)) = scan text := by
  rw [scan, String.toList_ofList, scanChars, Lexeme.split_unifyNewlines, scan, scanChars]

end Backtrack
