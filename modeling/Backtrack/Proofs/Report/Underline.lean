import Backtrack.Proofs.Token.Spelling
import Backtrack.Report.Issue
import Mathlib.Data.List.DropRight

/-!
# The token that is pointed at

Where only the first few tokens make sense, an issue shows all of them in a line and draws carets
below the one behind these. The carets stand below the text of that token, as many as it has
characters, whatever the tokens are. The line is shown without the blanks and separators at its end,
so that the token is there to be seen unless it and all tokens behind it are separators. The main
statement is `body_stopsShort_underlines`.
-/

namespace Backtrack

/-! ### Lines without their ends -/

namespace Text

/-- Whether a character is left out at the end of a line. -/
def isTrimmed (c : Char) : Bool := isBlank c || isSeparator c

/-- Trimming a line drops all trimmed characters from its end. -/
theorem trimEnd_eq_rdropWhile (line : List Char) : trimEnd line = line.rdropWhile isTrimmed := rfl

/-- A trimmed line is a prefix of the line. -/
theorem isPrefix_trimEnd (line : List Char) : trimEnd line <+: line := by
  rw [trimEnd_eq_rdropWhile]
  exact List.rdropWhile_prefix isTrimmed line

/-- Trimming keeps everything up to a character that is not trimmed. -/
theorem prefix_trimEnd {c : Char} (hc : isTrimmed c = false) (cs ds : List Char) :
    cs ++ [c] <+: trimEnd (cs ++ c :: ds) := by
  rw [trimEnd_eq_rdropWhile]
  induction ds using List.reverseRecOn with
  | nil =>
    have hkept : (cs ++ [c]).rdropWhile isTrimmed = cs ++ [c] :=
      List.rdropWhile_concat_neg _ _ _ (by simp [hc])
    exact ⟨[], (List.append_nil _).trans hkept.symm⟩
  | append_singleton ds d ih =>
    have hd : cs ++ c :: (ds ++ [d]) = cs ++ c :: ds ++ [d] := by simp
    rw [hd, List.rdropWhile_concat]
    split
    · exact ih
    · exact ⟨ds ++ [d], by simp⟩

/-- Trimming drops trimmed characters at the end altogether. -/
theorem length_trimEnd_append_le {ds : List Char} (hds : ∀ c ∈ ds, isTrimmed c = true)
    (cs : List Char) : (trimEnd (cs ++ ds)).length ≤ cs.length := by
  induction ds using List.reverseRecOn with
  | nil =>
    rw [List.append_nil]
    exact (isPrefix_trimEnd cs).length_le
  | append_singleton ds d ih =>
    rw [← List.append_assoc, trimEnd_eq_rdropWhile,
      List.rdropWhile_concat_pos _ _ _ (hds d (by simp)), ← trimEnd_eq_rdropWhile]
    exact ih fun c hc ↦ hds c (List.mem_append_left _ hc)

/-- Trimming keeps a piece whose characters are all kept or all trimmed exactly if it, or anything
behind it, has a character that is kept. -/
theorem prefix_trimEnd_iff {w : List Char} {b : Bool} (hne : w ≠ [])
    (hw : ∀ c ∈ w, isTrimmed c = b) (cs ds : List Char) :
    cs ++ w <+: trimEnd (cs ++ (w ++ ds)) ↔ ∃ c ∈ w ++ ds, isTrimmed c = false := by
  constructor
  · intro hprefix
    by_contra hnone
    have hall : ∀ c ∈ w ++ ds, isTrimmed c = true := by simpa using hnone
    have hle := length_trimEnd_append_le hall cs
    have hlt := hprefix.length_le
    have hpos := List.length_pos_iff.mpr hne
    rw [List.length_append] at hlt
    omega
  · rintro ⟨c, hc, hkept⟩
    rcases List.mem_append.mp hc with hc | hc
    · -- All of the piece is kept, its last character in particular.
      obtain rfl : isTrimmed c = b := hw c hc
      obtain ⟨ws, d, rfl⟩ := List.eq_nil_or_concat w |>.resolve_left hne
      have hd : isTrimmed d = false := (hw d (by simp)).trans hkept
      have hprefix := prefix_trimEnd hd (cs ++ ws) ds
      simpa using hprefix
    · obtain ⟨as, bs, rfl⟩ := List.append_of_mem hc
      have hprefix := prefix_trimEnd hkept (cs ++ w ++ as) bs
      have hshort : cs ++ w <+: cs ++ w ++ as ++ [c] := ⟨as ++ [c], by simp⟩
      simpa using hshort.trans hprefix

/-- A prefix of a line shows a piece of it at its place exactly if the prefix reaches the end of the
piece. -/
theorem take_drop_eq_iff {cs w ds shown : List Char} (hne : w ≠ [])
    (hshown : shown <+: cs ++ (w ++ ds)) :
    (shown.drop cs.length).take w.length = w ↔ cs ++ w <+: shown := by
  constructor
  · intro h
    have hpos := List.length_pos_iff.mpr hne
    have hlength := congrArg List.length h
    simp only [List.length_take, List.length_drop] at hlength
    have hpiece : cs ++ w <+: cs ++ (w ++ ds) := ⟨ds, List.append_assoc cs w ds⟩
    exact List.prefix_of_prefix_length_le hpiece hshown (by rw [List.length_append]; omega)
  · rintro ⟨rest, rfl⟩
    rw [List.append_assoc, List.drop_left, List.take_left]

end Text

/-! ### Tokens in a line -/

namespace Token

/-- Whether a token is one of the information separators. -/
def isSeparator : Token → Bool
  | symbol c => Text.isSeparator c
  | _ => false

/-- The characters of a canonical token are trimmed exactly if the token is a separator. -/
theorem Canonical.isTrimmed_eq {t : Token} (h : t.Canonical) {c : Char} (hc : c ∈ t.chars) :
    Text.isTrimmed c = t.isSeparator := by
  rw [Text.isTrimmed, h.isBlank_eq_false hc, Bool.false_or]
  cases t with
  | symbol d => rw [List.mem_singleton.mp hc, isSeparator]
  | identifier x => exact isSeparator_of_isAlphanum (h.isAlphanum_of_mem nofun hc)
  | number n => exact isSeparator_of_isAlphanum (h.isAlphanum_of_mem nofun hc)

/-- The spelling of tokens has a character that is kept exactly if some token is no separator. -/
theorem exists_mem_spelling_iff {ts : List Token} (h : ∀ t ∈ ts, t.Canonical) :
    (∃ c ∈ spelling ts, Text.isTrimmed c = false) ↔ ∃ t ∈ ts, t.isSeparator = false := by
  constructor
  · rintro ⟨c, hc, hkept⟩
    rcases eq_space_or_mem_chars hc with rfl | ⟨t, ht, hct⟩
    · rw [Text.isTrimmed, isBlank_space] at hkept
      cases hkept
    · exact ⟨t, ht, ((h t ht).isTrimmed_eq hct).symm.trans hkept⟩
  · rintro ⟨t, ht, hsep⟩
    obtain ⟨c, hc⟩ := List.exists_mem_of_ne_nil _ (h t ht).chars_ne_nil
    exact ⟨c, mem_spelling_of_mem_chars ht hc, ((h t ht).isTrimmed_eq hc).trans hsep⟩

/-- The spelling of tokens begins with the text of the first. -/
theorem exists_spelling_cons_eq (t : Token) (ts : List Token) :
    ∃ after, spelling (t :: ts) = t.chars ++ after := by
  cases ts with
  | nil => exact ⟨[], by rw [spelling_singleton, List.append_nil]⟩
  | cons u us => exact ⟨_, spelling_cons_cons t u us⟩

end Token

/-! ### The drawing -/

namespace Issue

open Token

/-- The column of a token is where its text begins in the spelling. -/
theorem exists_spelling_eq_of_lt {ts : List Token} {k : Nat} (hk : k < ts.length) :
    ∃ before after, before.length = column ts k ∧
      spelling ts = before ++ (ts[k].chars ++ after) ∧
      spelling (ts.drop k) = ts[k].chars ++ after := by
  have hne : ts.drop k ≠ [] := by simpa using hk
  have hrest : spelling ts = spelling (ts.take k ++ ts.drop k) := by rw [List.take_append_drop]
  obtain ⟨after, hafter⟩ := exists_spelling_cons_eq ts[k] (ts.drop (k + 1))
  rw [← List.drop_eq_getElem_cons hk] at hafter
  cases k with
  | zero => exact ⟨[], after, rfl, hafter, hafter⟩
  | succ k =>
    have htake : ts.take (k + 1) ≠ [] :=
      List.ne_nil_of_length_pos (by rw [List.length_take]; omega)
    rw [spelling_append htake hne, hafter] at hrest
    exact ⟨spelling (ts.take (k + 1)) ++ [' '], after, by simp [column], by simpa using hrest,
      hafter⟩

/-- The blanks below a text without tabs are spaces. -/
theorem blanks_eq_replicate {cs : List Char} (h : '\t' ∉ cs) :
    Underline.blanks cs = List.replicate cs.length ' ' := by
  rw [Underline.blanks, List.eq_replicate_iff]
  refine ⟨List.length_map _, ?_⟩
  intro c hc
  obtain ⟨d, hd, rfl⟩ := List.mem_map.mp hc
  have hne : d ≠ '\t' := fun heq ↦ h (heq ▸ hd)
  rw [if_neg hne]

/-- The margin and the spelling of canonical tokens contain no tab and no line feed. -/
theorem not_mem_margin_append {ts : List Token} (h : ∀ t ∈ ts, t.Canonical) {c : Char}
    (hc : c = '\t' ∨ c = '\n') {line : List Char} (hline : line ⊆ spelling ts) :
    c ∉ margin ++ line := by
  have hblank : Text.isBlank c = true := by rcases hc with rfl | rfl <;> simp [Text.isBlank]
  intro hmem
  have hspace : c = ' ' := by
    rcases List.mem_append.mp hmem with hmem | hmem
    · rcases hc with rfl | rfl <;> simp [margin] at hmem
    · exact eq_space_of_mem_spelling h (hline hmem) hblank
  rcases hc with rfl | rfl <;> simp at hspace

/-- The upper line: a margin and the tokens, without the blanks and separators at the end. -/
def above (ts : List Token) : List Char := margin ++ Text.trimEnd (spelling ts)

/-- How many spaces stand in front of the carets below the token behind the first `k`. -/
def indent (ts : List Token) (k : Nat) : Nat := (margin ++ (spelling ts).take (column ts k)).length

/-- The lower line: spaces, a caret for each character of the token `t`, and a caption. -/
def below (ts : List Token) (k : Nat) (t : Token) : List Char :=
  List.replicate (indent ts k) ' ' ++ List.replicate t.chars.length '^' ++
    ' ' :: "Got confused here".toList

/-- The pointer at a canonical token consists of the lines `above` and `below`. -/
theorem pointer_eq {ts : List Token} (h : ∀ t ∈ ts, t.Canonical) {k : Nat} (hk : k < ts.length) :
    pointer ts k ts[k] = String.ofList (above ts ++ '\n' :: below ts k ts[k]) := by
  obtain ⟨before, after, hcol, hline, -⟩ := exists_spelling_eq_of_lt hk
  have hpos : 0 < ts[k].chars.length :=
    List.length_pos_iff.mpr (h _ (List.getElem_mem hk)).chars_ne_nil
  have hcarets : Underline.caretCount (spelling ts) (column ts k) ts[k].chars.length =
      ts[k].chars.length := by
    rw [Underline.caretCount, hline, ← hcol]
    simp only [List.length_append]
    omega
  have hblanks : Underline.blanks (margin ++ (spelling ts).take (column ts k)) =
      List.replicate (indent ts k) ' ' :=
    blanks_eq_replicate (not_mem_margin_append h (.inl rfl) (List.take_subset _ _))
  rw [pointer, Underline.draw, hcarets, hblanks, above, below]
  simp only [List.append_assoc, List.cons_append]

/-- The text of a token stands above its carets exactly if the token, or one behind it, is no
separator. -/
theorem take_drop_above_iff {ts : List Token} (h : ∀ t ∈ ts, t.Canonical) {k : Nat}
    (hk : k < ts.length) :
    ((above ts).drop (indent ts k)).take ts[k].chars.length = ts[k].chars ↔
      ∃ t ∈ ts.drop k, t.isSeparator = false := by
  obtain ⟨before, after, hcol, hline, hrest⟩ := exists_spelling_eq_of_lt hk
  have ht : ts[k].Canonical := h _ (List.getElem_mem hk)
  have hindent : indent ts k = (margin ++ before).length := by
    rw [indent, ← hcol, hline, List.take_left]
  have hdrop : (above ts).drop (indent ts k) = (Text.trimEnd (spelling ts)).drop before.length := by
    rw [above, hindent, List.length_append, List.drop_length_add_append]
  have hprefix := Text.isPrefix_trimEnd (spelling ts)
  rw [hline] at hprefix
  rw [hdrop, hline, Text.take_drop_eq_iff ht.chars_ne_nil hprefix,
    Text.prefix_trimEnd_iff ht.chars_ne_nil fun c hc ↦ ht.isTrimmed_eq hc, ← hrest]
  exact exists_mem_spelling_iff fun t ht ↦ h t (List.mem_of_mem_drop ht)

/-- Where the tokens of a text stop making sense behind the first `k`, the issue shows two lines.
In the line of all tokens the text of the next one begins in the computed column. Below it there are
as many carets as it has characters, and in front of these there are only spaces, as many as the
margin and the tokens in front take up. The text of the token is to be seen right above the carets
exactly if it or one of the tokens behind it is no separator. -/
theorem body_stopsShort_underlines {text : String} {ts : List Token}
    (hts : Token.scan text = .ok ts) {k : Nat} (hk : k < ts.length) :
    (stopsShort ts k).body = [String.ofList (above ts ++ '\n' :: below ts k ts[k])] ∧
      '\n' ∉ above ts ∧
      ((spelling ts).drop (column ts k)).take ts[k].chars.length = ts[k].chars ∧
      (((above ts).drop (indent ts k)).take ts[k].chars.length = ts[k].chars ↔
        ∃ t ∈ ts.drop k, t.isSeparator = false) := by
  have h := canonical_of_scan hts
  refine ⟨?_, ?_, ?_, take_drop_above_iff h hk⟩
  · rw [body, List.getElem?_eq_getElem hk]
    exact congrArg (fun s ↦ [s]) (pointer_eq h hk)
  · exact not_mem_margin_append h (.inr rfl) (Text.isPrefix_trimEnd _).subset
  · obtain ⟨before, after, hcol, hline, -⟩ := exists_spelling_eq_of_lt hk
    rw [hline, ← hcol, List.drop_left, List.take_left]

/-- Of a word, a sign and two separators the sign is to be seen above its caret, and the separator
behind it is not: the line ends in front of it. -/
theorem body_stopsShort_underlines_separators :
    let ts : List Token := [.identifier "ab", .symbol '+', .symbol '\x1c', .symbol '\x1f']
    Token.scan (spell ts) = .ok ts ∧ 2 < ts.length ∧
      (stopsShort ts 1).body =
        [String.ofList (above ts ++ '\n' :: "           ^ Got confused here".toList)] ∧
      ((above ts).drop (indent ts 1)).take 1 = ['+'] ∧
      ((above ts).drop (indent ts 2)).take 1 ≠ ['\x1c'] := by
  intro ts
  have hcanonical : ∀ t ∈ ts, t.Canonical := by decide +kernel
  have hts : Token.scan (spell ts) = .ok ts := scan_spell_of_canonical hcanonical
  have hsign : 1 < ts.length := by decide
  have hseparator : 2 < ts.length := by decide
  obtain ⟨hbody, -, -, hseen⟩ := body_stopsShort_underlines hts hsign
  obtain ⟨-, -, -, hunseen⟩ := body_stopsShort_underlines hts hseparator
  refine ⟨hts, hseparator, hbody, hseen.mpr ⟨.symbol '+', by decide, rfl⟩, fun h ↦ ?_⟩
  exact absurd (hunseen.mp h) (by decide)

end Issue

end Backtrack
