import Backtrack.Proofs.Token.Canonical

/-!
# Cutting a text into lexemes

A cutting writes a text as blanks, a lexeme, blanks, a lexeme and so on, where words and numerals
are as long as they can be. Every text has one cutting and no other, whatever characters it is made
of. The scanner finds the lexemes of this cutting: their tokens are those of the text, unless some
numeral is too long. The main statement is `scan_cutting`.
-/

namespace Backtrack

namespace Lexeme

/-- The lexeme is as long as it can be in front of `rest`: behind a word comes no letter or digit,
and behind a numeral no digit. -/
def Stops : Lexeme → List Char → Prop
  | word _, rest => Token.Apart rest
  | numeral _, rest => ∀ c, rest.head? = some c → c.isDigit = false
  | mark _, _ => True

/-- Whether a lexeme stops depends on the next character only. -/
theorem Stops.of_head?_eq {l : Lexeme} {rest rest' : List Char} (h : l.Stops rest)
    (hhead : rest'.head? = rest.head?) : l.Stops rest' := by
  cases l with
  | word cs => exact fun c hc ↦ h c (hhead ▸ hc)
  | numeral cs => exact fun c hc ↦ h c (hhead ▸ hc)
  | mark c => trivial

/-- A text that begins with a blank does not begin with a letter or digit. -/
theorem apart_of_isBlank {c : Char} (hc : Text.isBlank c = true) (cs : List Char) :
    Token.Apart (c :: cs) := by
  refine Token.apart_cons (Bool.eq_false_iff.mpr fun h ↦ ?_) cs
  rw [Token.isBlank_of_isAlphanum h] at hc
  cases hc

/-- Every lexeme stops at the end of a text. -/
theorem stops_nil (l : Lexeme) : l.Stops [] := by
  cases l with
  | word cs => exact Token.apart_nil
  | numeral cs => exact fun c hc ↦ nomatch hc
  | mark c => trivial

/-- Every lexeme stops in front of a blank. -/
theorem stops_of_isBlank (l : Lexeme) {c : Char} (hc : Text.isBlank c = true) (cs : List Char) :
    l.Stops (c :: cs) := by
  have hapart : Token.Apart (c :: cs) := apart_of_isBlank hc cs
  cases l with
  | word ds => exact hapart
  | numeral ds => exact fun d hd ↦ hapart.isDigit_eq_false hd
  | mark d => trivial

private theorem eq_false_of_head?_dropWhile {p : Char → Bool} {cs : List Char} {c : Char}
    (hc : (cs.dropWhile p).head? = some c) : p c = false := by
  have hnot := List.head?_dropWhile_not p cs
  rw [hc] at hnot
  exact hnot

/-- The first lexeme of a text stops in front of what follows it. -/
theorem stops_first (c : Char) (cs : List Char) : (first c cs).1.Stops (first c cs).2 := by
  rw [first]
  split
  · exact fun d hd ↦ eq_false_of_head?_dropWhile hd
  · split
    · exact fun d hd ↦ eq_false_of_head?_dropWhile hd
    · trivial

/-- A well-formed lexeme begins with a character that is not blank. -/
theorem WF.exists_cons {l : Lexeme} (h : l.WF) :
    ∃ c cs, l.chars = c :: cs ∧ Text.isBlank c = false := by
  cases l with
  | word cs =>
    cases cs with
    | nil => cases h
    | cons c cs =>
      have hc : c.isAlpha = true := (Bool.and_eq_true_iff.mp h).1
      exact ⟨c, cs, rfl, Token.isBlank_of_isAlphanum (Token.isAlphanum_of_isAlpha hc)⟩
  | numeral cs =>
    cases cs with
    | nil => exact absurd rfl h.1
    | cons c cs =>
      have hc : c.isDigit = true := h.2 c List.mem_cons_self
      exact ⟨c, cs, rfl, Token.isBlank_of_isAlphanum (Token.isAlphanum_of_isDigit hc)⟩
  | mark c =>
    rw [WF, Token.isMark, Bool.not_eq_true', Bool.or_eq_false_iff] at h
    exact ⟨c, [], rfl, h.1⟩

/-- A well-formed lexeme is the first lexeme wherever it stops. -/
theorem split_chars_append {l : Lexeme} {rest : List Char} (hl : l.WF) (hstops : l.Stops rest) :
    split (l.chars ++ rest) = l :: split rest := by
  cases l with
  | word cs => exact split_word hl hstops
  | numeral cs => exact split_numeral hl.1 hl.2 hstops
  | mark c => exact split_mark hl rest

/-- Leading blanks do not change the lexemes. -/
theorem split_blanks {w : List Char} (hw : ∀ c ∈ w, Text.isBlank c = true) (rest : List Char) :
    split (w ++ rest) = split rest := by
  induction w with
  | nil => rfl
  | cons c w ih =>
    rw [List.cons_append, split_blank (hw c List.mem_cons_self)]
    exact ih fun d hd ↦ hw d (List.mem_cons_of_mem c hd)

/-! ### Cuttings -/

/-- Blanks, a lexeme, blanks, a lexeme and so on, and blanks in the end. -/
inductive Cutting where
  /-- The blanks at the end. -/
  | blanks (w : List Char)
  /-- Blanks, a lexeme and what comes behind it. -/
  | piece (w : List Char) (l : Lexeme) (k : Cutting)

namespace Cutting

/-- The text of a cutting. -/
def text : Cutting → List Char
  | blanks w => w
  | piece w l k => w ++ (l.chars ++ k.text)

/-- The lexemes of a cutting in order. -/
def lexemes : Cutting → List Lexeme
  | blanks _ => []
  | piece _ l k => l :: k.lexemes

/-- The blanks are blank, the lexemes are such as some text has, and each of them is as long as it
can be. -/
def WF : Cutting → Prop
  | blanks w => ∀ c ∈ w, Text.isBlank c = true
  | piece w l k => (∀ c ∈ w, Text.isBlank c = true) ∧ l.WF ∧ l.Stops k.text ∧ k.WF

/-- The lexeme that the text ends inside, if it does not end with a blank. -/
def last? : Cutting → Option Lexeme
  | blanks _ => none
  | piece _ l k => if k.text = [] then some l else k.last?

/-- A cutting of the empty text has no blanks and no lexemes. -/
theorem WF.eq_blanks_of_text_eq_nil {k : Cutting} (hk : k.WF) (h : k.text = []) :
    k = blanks [] := by
  cases k with
  | blanks w => rw [show w = [] from h]
  | piece w l k =>
    obtain ⟨c, cs, hc, -⟩ := hk.2.1.exists_cons
    rw [text, hc, List.cons_append] at h
    exact absurd (List.append_eq_nil_iff.mp h).2 (List.cons_ne_nil c _)

/-- The lexemes of a cutting are cut off whatever follows, if the last one stops there. -/
theorem WF.split_text_append {k : Cutting} (hk : k.WF) {rest : List Char}
    (hlast : ∀ l, k.last? = some l → l.Stops rest) :
    split (k.text ++ rest) = k.lexemes ++ split rest := by
  induction k with
  | blanks w => exact split_blanks hk rest
  | piece w l k ih =>
    obtain ⟨hw, hl, hstops, hk⟩ := hk
    have hbehind : l.Stops (k.text ++ rest) ∧ ∀ l', k.last? = some l' → l'.Stops rest := by
      cases hnil : k.text with
      | nil =>
        -- `l` is the last lexeme: nothing of the text comes behind it.
        rw [hk.eq_blanks_of_text_eq_nil hnil]
        exact ⟨hlast l (if_pos hnil), fun l' hl' ↦ nomatch hl'⟩
      | cons c cs =>
        have hne : k.text ≠ [] := hnil ▸ List.cons_ne_nil c cs
        rw [hnil] at hstops
        exact ⟨hstops.of_head?_eq rfl, fun l' hl' ↦ hlast l' ((if_neg hne).trans hl')⟩
    rw [text, List.append_assoc, split_blanks hw, List.append_assoc,
      split_chars_append hl hbehind.1, ih hk hbehind.2, lexemes, List.cons_append]

/-- A cutting has the lexemes of its text. -/
theorem WF.split_text {k : Cutting} (hk : k.WF) : split k.text = k.lexemes := by
  have h := hk.split_text_append fun l _ ↦ stops_nil l
  rwa [List.append_nil, split_nil, List.append_nil] at h

/-- A text has at most one cutting. -/
theorem WF.eq_of_text_eq {k k' : Cutting} (hk : k.WF) (hk' : k'.WF) (h : k.text = k'.text) :
    k = k' := by
  -- The lexemes are the same; it remains to see that the blanks are.
  have hlexemes : k.lexemes = k'.lexemes := by rw [← hk.split_text, ← hk'.split_text, h]
  induction k generalizing k' with
  | blanks w =>
    cases k' with
    | blanks w' => rw [show w = w' from h]
    | piece w' l' k' => cases hlexemes
  | piece w l k ih =>
    cases k' with
    | blanks w' => cases hlexemes
    | piece w' l' k' =>
      obtain ⟨rfl, hrest⟩ := List.cons.inj hlexemes
      obtain ⟨hw, hl, -, hk⟩ := hk
      obtain ⟨hw', -, -, hk'⟩ := hk'
      obtain ⟨c, cs, hchars, hc⟩ := hl.exists_cons
      have hfront {v : List Char} (hv : ∀ d ∈ v, Text.isBlank d = true) (rest : List Char) :
          (v ++ (l.chars ++ rest)).takeWhile Text.isBlank = v := by
        refine (takeWhile_append hv fun d hd ↦ ?_).1
        rw [hchars] at hd
        rwa [← Option.some.inj hd]
      have hww : w = w' := by
        rw [← hfront hw k.text, ← hfront hw' k'.text]
        exact congrArg _ h
      rw [hww] at h ⊢
      rw [ih hk hk' (List.append_cancel_left (List.append_cancel_left h)) hrest]

end Cutting

/-- Every text has a cutting. -/
theorem exists_cutting (cs : List Char) : ∃ k : Cutting, k.WF ∧ k.text = cs := by
  induction hn : cs.length using Nat.strongRecOn generalizing cs with
  | ind n ih =>
    have hw : ∀ c ∈ cs.takeWhile Text.isBlank, Text.isBlank c = true :=
      List.all_eq_true.mp List.all_takeWhile
    have hcs := List.takeWhile_append_dropWhile (p := Text.isBlank) (l := cs)
    cases hrest : cs.dropWhile Text.isBlank with
    | nil =>
      rw [hrest, List.append_nil] at hcs
      exact ⟨.blanks (cs.takeWhile Text.isBlank), hw, hcs⟩
    | cons c rest =>
      have hc : Text.isBlank c = false := eq_false_of_head?_dropWhile (congrArg List.head? hrest)
      have hlen : (first c rest).2.length < n := by
        have hlt := length_first c rest
        have hsum := congrArg List.length hcs
        rw [hrest, List.length_append] at hsum
        omega
      obtain ⟨k, hk, htext⟩ := ih _ hlen _ rfl
      refine ⟨.piece (cs.takeWhile Text.isBlank) (first c rest).1 k,
        ⟨hw, wf_first hc rest, htext.symm ▸ stops_first c rest, hk⟩, ?_⟩
      rw [Cutting.text, htext, chars_first, ← hrest, hcs]

/-! ### Tokens of lexemes -/

/-- The token that a lexeme is read as: the name, the decimal value or the character. -/
def reading : Lexeme → Token
  | word cs => .identifier (String.ofList cs)
  | numeral cs => .number (Nat.ofDigits 10 (cs.reverse.map Text.Numeral.digitValue))
  | mark c => .symbol c

/-- Whether a lexeme is a numeral of more digits than the limit. -/
def isLong : Lexeme → Bool
  | numeral cs => Text.Numeral.limit < cs.length
  | _ => false

/-- The token of a lexeme is its reading, unless its numeral is too long. -/
theorem token_eq (l : Lexeme) :
    l.token = if l.isLong then .error ⟨l.chars.length⟩ else .ok l.reading := by
  cases l with
  | word cs => rfl
  | mark c => rfl
  | numeral cs =>
    rw [token, isLong, chars, reading, Text.Numeral.value_eq_ofDigits]
    by_cases h : cs.length ≤ Text.Numeral.limit
    · rw [if_pos h, if_neg (by simpa using h)]
    · rw [if_neg h, if_pos (by simpa using h)]

/-- The tokens of lexemes are their readings, unless a numeral is too long, the first of which is
reported. -/
theorem mapM_token (ls : List Lexeme) :
    ls.mapM token =
      match ls.find? isLong with
      | some l => .error ⟨l.chars.length⟩
      | none => .ok (ls.map reading) := by
  induction ls with
  | nil => rfl
  | cons l ls ih =>
    rw [List.mapM_cons, token_eq, List.find?_cons]
    cases l.isLong with
    | true => rfl
    | false =>
      rw [ih]
      cases ls.find? isLong <;> rfl

end Lexeme

/-- Every text has exactly one cutting. Its tokens are the readings of the lexemes in order if no
numeral has more digits than the limit; otherwise the leftmost such numeral is reported with the
number of its digits. -/
theorem Token.scan_cutting (text : String) :
    (∃! k : Lexeme.Cutting, k.WF ∧ k.text = text.toList) ∧
      ∀ k : Lexeme.Cutting, k.WF → k.text = text.toList →
        scan text =
          match k.lexemes.find? Lexeme.isLong with
          | some l => .error ⟨l.chars.length⟩
          | none => .ok (k.lexemes.map Lexeme.reading) := by
  constructor
  · obtain ⟨k, hk, htext⟩ := Lexeme.exists_cutting text.toList
    exact ⟨k, ⟨hk, htext⟩, fun k' hk' ↦ hk'.1.eq_of_text_eq hk (hk'.2.trans htext.symm)⟩
  · intro k hk htext
    rw [scan, scanChars, ← htext, hk.split_text, Lexeme.mapM_token]

/-- A word with digits in it, and behind it two numerals around a mark. -/
def Lexeme.longNumerals (m n : Nat) : Lexeme.Cutting :=
  .piece [] (.word ('x' :: List.replicate m '1')) <|
    .piece [' '] (.numeral (List.replicate (m + 1) '1')) <|
      .piece [] (.mark '+') <| .piece [] (.numeral (List.replicate (n + 1) '1')) (.blanks [])

/-- The cutting is well-formed for all numbers of digits. -/
theorem Lexeme.wf_longNumerals (m n : Nat) : (longNumerals m n).WF := by
  have hdigit (n : Nat) : ∀ c ∈ List.replicate n '1', c.isDigit = true := by
    intro c hc
    rw [List.eq_of_mem_replicate hc]
    rfl
  have hnumeral (n : Nat) : (numeral (List.replicate (n + 1) '1')).WF :=
    ⟨List.cons_ne_nil _ _, hdigit (n + 1)⟩
  have hword : (word ('x' :: List.replicate m '1')).WF :=
    List.all_eq_true.mpr fun c hc ↦ Token.isAlphanum_of_isDigit (hdigit m c hc)
  have hmark : (mark '+').WF := by simp [WF, Token.isMark, Text.isBlank]
  have hplus (cs : List Char) : (numeral (List.replicate (m + 1) '1')).Stops ('+' :: cs) :=
    fun c hc ↦ (Token.apart_cons rfl cs).isDigit_eq_false hc
  have hnone : ∀ c ∈ ([] : List Char), Text.isBlank c = true :=
    fun c hc ↦ absurd hc List.not_mem_nil
  refine ⟨hnone, hword, stops_of_isBlank _ Token.isBlank_space _, ?_, hnumeral m, hplus _, ?_⟩
  · exact fun c hc ↦ List.mem_singleton.mp hc ▸ Token.isBlank_space
  · exact ⟨hnone, hmark, trivial, hnone, hnumeral n, stops_nil _, hnone⟩

/-- The digits of the word do not count, and of the two numerals the first is reported. -/
theorem Token.scan_cutting_longNumerals :
    (Lexeme.longNumerals 4300 4301).WF ∧
      scan (String.ofList (Lexeme.longNumerals 4300 4301).text) = .error ⟨4301⟩ := by
  have hwf := Lexeme.wf_longNumerals 4300 4301
  have hlong : (Lexeme.numeral (List.replicate (4300 + 1) '1')).isLong = true := by
    rw [Lexeme.isLong, List.length_replicate]
    rfl
  have hfind : (Lexeme.longNumerals 4300 4301).lexemes.find? Lexeme.isLong =
      some (.numeral (List.replicate (4300 + 1) '1')) := by
    rw [Lexeme.longNumerals, Lexeme.Cutting.lexemes, List.find?_cons_of_neg Bool.false_ne_true,
      Lexeme.Cutting.lexemes, List.find?_cons_of_pos hlong]
  refine ⟨hwf, ?_⟩
  rw [(scan_cutting _).2 _ hwf String.toList_ofList.symm, hfind]
  simp only [Lexeme.chars, List.length_replicate]

end Backtrack
