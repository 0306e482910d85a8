import Backtrack.Proofs.Token.Cutting

/-!
# Scanning one text behind another

Two texts put together have the tokens of the first and then those of the second, unless a run goes
on across the boundary. Whether it does is a matter of the lexeme that the first text ends inside
and not of its last character: a digit may belong to a word. Blanks between two texts keep them
apart. The main statement is `scan_append`.
-/

namespace Backtrack

namespace Lexeme

/-- The text ends inside this lexeme: no blank comes behind it. -/
def EndsIn (cs : List Char) (l : Lexeme) : Prop :=
  ∃ k : Cutting, k.WF ∧ k.text = cs ∧ k.last? = some l

/-- A run goes on across the boundary: a word from a text to a letter or digit, or a numeral to a
digit. -/
def CutsRun (cs ds : List Char) : Prop :=
  (∃ w, EndsIn cs (word w)) ∧ (∃ c, ds.head? = some c ∧ c.isAlphanum = true) ∨
    (∃ w, EndsIn cs (numeral w)) ∧ ∃ c, ds.head? = some c ∧ c.isDigit = true

/-- A text ends inside a lexeme exactly if its cutting does. -/
theorem Cutting.WF.endsIn_iff {k : Cutting} (hk : k.WF) {l : Lexeme} :
    EndsIn k.text l ↔ k.last? = some l := by
  constructor
  · rintro ⟨k', hk', htext, hlast⟩
    rwa [hk.eq_of_text_eq hk' htext.symm]
  · intro hlast
    exact ⟨k, hk, rfl, hlast⟩

/-- A text of one lexeme ends inside that lexeme. -/
theorem WF.endsIn_chars_iff {l l' : Lexeme} (hl : l.WF) : EndsIn l.chars l' ↔ l = l' := by
  have hk : (Cutting.piece [] l (.blanks [])).WF := ⟨nofun, hl, stops_nil l, nofun⟩
  have htext : (Cutting.piece [] l (.blanks [])).text = l.chars := List.append_nil l.chars
  rw [← htext, hk.endsIn_iff]
  exact Option.some_inj

/-- The lexeme that a text ends inside stops at the boundary if no run crosses it. -/
theorem EndsIn.stops {cs ds : List Char} {l : Lexeme} (hl : EndsIn cs l) (hcut : ¬CutsRun cs ds) :
    l.Stops ds := by
  cases l with
  | word w =>
    intro c hc
    exact Bool.eq_false_iff.mpr fun h ↦ hcut (.inl ⟨⟨w, hl⟩, c, hc, h⟩)
  | numeral w =>
    intro c hc
    exact Bool.eq_false_iff.mpr fun h ↦ hcut (.inr ⟨⟨w, hl⟩, c, hc, h⟩)
  | mark c => trivial

/-- No run crosses a boundary followed by a blank. -/
theorem not_cutsRun_of_isBlank {c : Char} (hc : Text.isBlank c = true) (cs ds : List Char) :
    ¬CutsRun cs (c :: ds) := by
  have hapart : Token.Apart (c :: ds) := apart_of_isBlank hc ds
  rintro (⟨-, d, hd, h⟩ | ⟨-, d, hd, h⟩)
  · exact Bool.eq_false_iff.mp (hapart d hd) h
  · exact Bool.eq_false_iff.mp (hapart.isDigit_eq_false hd) h

/-- The lexemes of two texts are put together if no run crosses the boundary. -/
theorem split_append {cs ds : List Char} (hcut : ¬CutsRun cs ds) :
    split (cs ++ ds) = split cs ++ split ds := by
  obtain ⟨k, hk, rfl⟩ := exists_cutting cs
  rw [hk.split_text_append fun l hl ↦ (hk.endsIn_iff.mpr hl).stops hcut, hk.split_text]

end Lexeme

namespace Token

/-- The only token of a text of one lexeme is the token of the lexeme. -/
theorem scanChars_chars {l : Lexeme} (hl : l.WF) : scanChars l.chars = l.token.map ([·]) := by
  have hsplit : Lexeme.split l.chars = [l] := by
    have h := Lexeme.split_chars_append hl (Lexeme.stops_nil l)
    rwa [List.append_nil, Lexeme.split_nil] at h
  rw [scanChars, hsplit, List.mapM_cons]
  cases l.token <;> rfl

/-- The scans of two texts in sequence: all tokens, or the first error. -/
def joined : Except LongNumeral (List Token) → Except LongNumeral (List Token) →
    Except LongNumeral (List Token)
  | .error e, _ => .error e
  | .ok _, .error e => .error e
  | .ok ts, .ok us => .ok (ts ++ us)

/-- The scans of two texts are joined if no run crosses the boundary. -/
theorem scanChars_append {cs ds : List Char} (hcut : ¬Lexeme.CutsRun cs ds) :
    scanChars (cs ++ ds) = joined (scanChars cs) (scanChars ds) := by
  rw [scanChars, Lexeme.split_append hcut, List.mapM_append, scanChars, scanChars]
  cases (Lexeme.split cs).mapM Lexeme.token with
  | error e => rfl
  | ok ts => cases (Lexeme.split ds).mapM Lexeme.token <;> rfl

/-- The scans of two texts with blanks between them are joined. -/
theorem scanChars_append_blanks {w : List Char} (hne : w ≠ [])
    (hw : ∀ c ∈ w, Text.isBlank c = true) (cs ds : List Char) :
    scanChars (cs ++ w ++ ds) = joined (scanChars cs) (scanChars ds) := by
  have hcut : ¬Lexeme.CutsRun cs (w ++ ds) := by
    cases w with
    | nil => exact absurd rfl hne
    | cons c w => exact Lexeme.not_cutsRun_of_isBlank (hw c List.mem_cons_self) cs (w ++ ds)
  have hscan : scanChars (w ++ ds) = scanChars ds := by
    rw [scanChars, Lexeme.split_blanks hw, scanChars]
  rw [List.append_assoc, scanChars_append hcut, hscan]

/-- The tokens of two texts put together are those of the first and then those of the second, or
else the error is that of the first or, if it has none, that of the second. So it is unless a run
goes on across the boundary, and always with blanks between the texts, whichever they are. -/
theorem scan_append (a b : String) :
    (¬Lexeme.CutsRun a.toList b.toList → scan (a ++ b) = joined (scan a) (scan b)) ∧
      ∀ w : String, w ≠ "" → (∀ c ∈ w.toList, Text.isBlank c = true) →
        scan (a ++ w ++ b) = joined (scan a) (scan b) ∧
          ∀ w' : String, w' ≠ "" → (∀ c ∈ w'.toList, Text.isBlank c = true) →
            scan (a ++ w' ++ b) = scan (a ++ w ++ b) := by
  have hblanks (w : String) (hne : w ≠ "") (hw : ∀ c ∈ w.toList, Text.isBlank c = true) :
      scan (a ++ w ++ b) = joined (scan a) (scan b) := by
    have hne' : w.toList ≠ [] := fun h ↦ hne (String.toList_inj.mp h)
    rw [scan, String.toList_append, String.toList_append]
    exact scanChars_append_blanks hne' hw a.toList b.toList
  refine ⟨fun hcut ↦ ?_, fun w hne hw ↦ ⟨hblanks w hne hw, fun w' hne' hw' ↦ ?_⟩⟩
  · rw [scan, String.toList_append]
    exact scanChars_append hcut
  · rw [hblanks w hne hw, hblanks w' hne' hw']

/-- A numeral and a word behind it stay apart. A word with a digit at its end takes in what comes
behind it, unless there is a blank between them. -/
theorem scan_append_digit_letter :
    ¬Lexeme.CutsRun "11".toList "y".toList ∧ Lexeme.CutsRun "x1".toList "y".toList ∧
      scan ("11" ++ "y") = .ok [number 11, identifier "y"] ∧
      scan ("x1" ++ " " ++ "y") = .ok [identifier "x1", identifier "y"] ∧
      scan ("x1" ++ "\n" ++ "y") = scan ("x1" ++ " " ++ "y") := by
  have hdigits : "11".toList.all Char.isDigit = true := rfl
  have heleven : (Lexeme.numeral "11".toList).WF :=
    ⟨List.cons_ne_nil _ _, List.all_eq_true.mp hdigits⟩
  have hword : (Lexeme.word "x1".toList).WF := rfl
  have hy : scan "y" = .ok [identifier "y"] :=
    scanChars_chars (show (Lexeme.word "y".toList).WF from rfl)
  have hcut : ¬Lexeme.CutsRun "11".toList "y".toList := by
    rintro (⟨⟨w, hw⟩, -⟩ | ⟨-, c, hc, h⟩)
    · cases heleven.endsIn_chars_iff.mp hw
    · rw [← Option.some.inj hc] at h
      cases h
  have hcut' : Lexeme.CutsRun "x1".toList "y".toList :=
    .inl ⟨⟨_, hword.endsIn_chars_iff.mpr rfl⟩, 'y', rfl, rfl⟩
  have hspace : ∀ c ∈ " ".toList, Text.isBlank c = true := by simp [Text.isBlank]
  have hnewline : ∀ c ∈ "\n".toList, Text.isBlank c = true := by simp [Text.isBlank]
  obtain ⟨hx, hreplace⟩ := (scan_append "x1" "y").2 " " (by decide) hspace
  refine ⟨hcut, hcut', ?_, ?_, hreplace "\n" (by decide) hnewline⟩
  · rw [(scan_append "11" "y").1 hcut, hy, show scan "11" = _ from scanChars_chars heleven]
    rfl
  · rw [hx, hy, show scan "x1" = _ from scanChars_chars hword]
    rfl

end Token
end Backtrack
