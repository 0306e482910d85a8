import Backtrack.Proofs.Text.Numeral
import Backtrack.Token.Scan

/-!
# Canonical tokens

The tokens that some text has: a word is a letter and then letters and digits, a number has no
more digits than the limit, and a symbol is a character that is neither blank nor part of a word
or a number. Scanning makes no other tokens, and each of them is scanned from its own text. Texts
that spell tokens can be put together; `Spells` says so without looking at the scanner again.
-/

namespace Backtrack

namespace Token

/-! ### Characters -/

/-- Whether a character is neither blank nor part of a word or a number. -/
def isMark (c : Char) : Bool := !(Text.isBlank c || c.isAlphanum)

/-- Whether characters are a letter and then letters and digits. -/
def isWord : List Char → Bool
  | [] => false
  | c :: cs => c.isAlpha && cs.all Char.isAlphanum

/-- A token that some text scans to: a symbol that is a mark, an identifier that is a word, or a
number that is not too long. -/
def Canonical : Token → Prop
  | symbol c => isMark c = true
  | identifier x => isWord x.toList = true
  | number n => (Text.Numeral.digits n).length ≤ Text.Numeral.limit

instance : DecidablePred Canonical
  | symbol c => inferInstanceAs (Decidable (isMark c = true))
  | identifier x => inferInstanceAs (Decidable (isWord x.toList = true))
  | number n =>
    inferInstanceAs (Decidable ((Text.Numeral.digits n).length ≤ Text.Numeral.limit))

/-- A canonical token can be written. -/
theorem Canonical.isWritable {t : Token} (h : t.Canonical) : t.isWritable = true := by
  cases t with
  | number n => exact decide_eq_true h
  | _ => rfl

/-- A space is blank. -/
theorem isBlank_space : Text.isBlank ' ' = true := by
  simp [Text.isBlank]

/-- The text does not begin with a letter or digit. -/
def Apart (cs : List Char) : Prop := ∀ c, cs.head? = some c → c.isAlphanum = false

/-- The empty text does not begin with a letter or digit. -/
theorem apart_nil : Apart [] := by
  intro c h
  cases h

/-- A text that begins with no letter or digit begins with no digit. -/
theorem Apart.isDigit_eq_false {cs : List Char} (h : Apart cs) {c : Char}
    (hc : cs.head? = some c) : c.isDigit = false := by
  have halnum := h c hc
  rw [Char.isAlphanum, Bool.or_eq_false_iff] at halnum
  exact halnum.2

/-- A text that begins with another character does not begin with a letter or digit. -/
theorem apart_cons {c : Char} (h : c.isAlphanum = false) (cs : List Char) : Apart (c :: cs) := by
  intro d hd
  rw [← Option.some.inj hd]
  exact h

/-- A letter is a letter or digit. -/
theorem isAlphanum_of_isAlpha {c : Char} (h : c.isAlpha = true) :
    c.isAlphanum = true := by
  rw [Char.isAlphanum, h, Bool.true_or]

/-- A digit is a letter or digit. -/
theorem isAlphanum_of_isDigit {c : Char} (h : c.isDigit = true) :
    c.isAlphanum = true := by
  rw [Char.isAlphanum, h, Bool.or_true]

private theorem range_of_isAlpha {c : Char} (h : c.isAlpha = true) :
    65 ≤ c.toNat ∧ c.toNat ≤ 90 ∨ 97 ≤ c.toNat ∧ c.toNat ≤ 122 := by
  rcases Bool.or_eq_true_iff.mp h with h | h
  · exact .inl (of_decide_eq_true h)
  · obtain ⟨hle, hge⟩ := Bool.and_eq_true_iff.mp h
    exact .inr ⟨of_decide_eq_true hle, of_decide_eq_true hge⟩

private theorem range_of_isDigit {c : Char} (h : c.isDigit = true) :
    48 ≤ c.toNat ∧ c.toNat ≤ 57 := by
  obtain ⟨hle, hge⟩ := Bool.and_eq_true_iff.mp h
  exact ⟨of_decide_eq_true hle, of_decide_eq_true hge⟩

private theorem range_of_isAlphanum {c : Char} (h : c.isAlphanum = true) :
    (65 ≤ c.toNat ∧ c.toNat ≤ 90 ∨ 97 ≤ c.toNat ∧ c.toNat ≤ 122) ∨
      48 ≤ c.toNat ∧ c.toNat ≤ 57 :=
  (Bool.or_eq_true_iff.mp h).imp range_of_isAlpha range_of_isDigit

/-- A letter or digit is not blank. -/
theorem isBlank_of_isAlphanum {c : Char} (h : c.isAlphanum = true) : Text.isBlank c = false := by
  have hrange := range_of_isAlphanum h
  simp only [Text.isBlank, Bool.or_eq_false_iff, Bool.and_eq_false_iff,
    decide_eq_false_iff_not, beq_eq_false_iff_ne]
  omega

/-- A letter or digit is no separator. -/
theorem isSeparator_of_isAlphanum {c : Char} (h : c.isAlphanum = true) :
    Text.isSeparator c = false := by
  have hrange := range_of_isAlphanum h
  simp only [Text.isSeparator, Bool.and_eq_false_iff, decide_eq_false_iff_not]
  omega

/-- The characters of a canonical token that is no symbol are letters and digits. -/
theorem Canonical.isAlphanum_of_mem {t : Token} (h : t.Canonical) (ht : ∀ d, t ≠ .symbol d)
    {c : Char} (hc : c ∈ t.chars) : c.isAlphanum = true := by
  cases t with
  | symbol d => exact absurd rfl (ht d)
  | identifier x =>
    cases hx : x.toList with
    | nil =>
      rw [chars, hx] at hc
      exact absurd hc List.not_mem_nil
    | cons d ds =>
      rw [Canonical, hx] at h
      rw [chars, hx] at hc
      obtain ⟨hd, hds⟩ := Bool.and_eq_true_iff.mp h
      rcases List.mem_cons.mp hc with rfl | hc
      · exact isAlphanum_of_isAlpha hd
      · exact List.all_eq_true.mp hds c hc
  | number n => exact isAlphanum_of_isDigit (Text.Numeral.isDigit_of_mem_digits hc)

/-- The characters of a canonical token are not blank. -/
theorem Canonical.isBlank_eq_false {t : Token} (h : t.Canonical) {c : Char} (hc : c ∈ t.chars) :
    Text.isBlank c = false := by
  cases t with
  | symbol d =>
    obtain rfl := List.mem_singleton.mp hc
    rw [Canonical, isMark, Bool.not_eq_true', Bool.or_eq_false_iff] at h
    exact h.1
  | identifier x => exact isBlank_of_isAlphanum (h.isAlphanum_of_mem nofun hc)
  | number n => exact isBlank_of_isAlphanum (h.isAlphanum_of_mem nofun hc)

/-- A canonical token has at least one character. -/
theorem Canonical.chars_ne_nil {t : Token} (h : t.Canonical) : t.chars ≠ [] := by
  cases t with
  | symbol d => exact List.cons_ne_nil d []
  | identifier x =>
    intro hnil
    rw [Canonical, show x.toList = [] from hnil] at h
    cases h
  | number n => exact Text.Numeral.digits_ne_nil n

private theorem isAlpha_of_isDigit {c : Char} (h : c.isDigit = true) : c.isAlpha = false := by
  have hdigit := range_of_isDigit h
  refine Bool.eq_false_iff.mpr fun halpha ↦ ?_
  have hletter := range_of_isAlpha halpha
  omega

end Token

/-! ### Lexemes in front of a text -/

namespace Lexeme

open Token

/-- The longest beginning of a class ends in front of the first character that is not of the
class. -/
theorem takeWhile_append {p : Char → Bool} {cs rest : List Char}
    (hcs : ∀ c ∈ cs, p c = true) (hrest : ∀ c, rest.head? = some c → p c = false) :
    (cs ++ rest).takeWhile p = cs ∧ (cs ++ rest).dropWhile p = rest := by
  rw [List.takeWhile_append_of_pos hcs, List.dropWhile_append_of_pos hcs]
  cases rest with
  | nil => exact ⟨List.append_nil cs, rfl⟩
  | cons c rest =>
    have hc : ¬(p c = true) := Bool.eq_false_iff.mp (hrest c rfl)
    rw [List.takeWhile_cons_of_neg hc, List.dropWhile_cons_of_neg hc]
    exact ⟨List.append_nil cs, rfl⟩

/-- A word that no letter or digit follows is the first lexeme. -/
theorem split_word {w rest : List Char} (hw : isWord w = true) (hrest : Apart rest) :
    split (w ++ rest) = word w :: split rest := by
  cases w with
  | nil => cases hw
  | cons c cs =>
    obtain ⟨hc, hcs⟩ := Bool.and_eq_true_iff.mp hw
    obtain ⟨htake, hdrop⟩ := takeWhile_append (List.all_eq_true.mp hcs) hrest
    rw [List.cons_append, split_cons (isBlank_of_isAlphanum (isAlphanum_of_isAlpha hc)), first,
      if_pos hc, htake, hdrop]

/-- A numeral that no digit follows is the first lexeme. -/
theorem split_numeral {ds rest : List Char} (hne : ds ≠ [])
    (hds : ∀ c ∈ ds, c.isDigit = true) (hrest : ∀ c, rest.head? = some c → c.isDigit = false) :
    split (ds ++ rest) = numeral ds :: split rest := by
  cases ds with
  | nil => exact absurd rfl hne
  | cons c cs =>
    have hc := hds c List.mem_cons_self
    obtain ⟨htake, hdrop⟩ := takeWhile_append (fun d hd ↦ hds d (List.mem_cons_of_mem c hd)) hrest
    rw [List.cons_append, split_cons (isBlank_of_isAlphanum (isAlphanum_of_isDigit hc)), first,
      if_neg (by rw [isAlpha_of_isDigit hc]; exact Bool.false_ne_true), if_pos hc, htake, hdrop]

/-- A mark is the first lexeme, whatever follows. -/
theorem split_mark {c : Char} (hc : isMark c = true) (rest : List Char) :
    split (c :: rest) = mark c :: split rest := by
  rw [isMark, Bool.not_eq_true', Bool.or_eq_false_iff, Char.isAlphanum,
    Bool.or_eq_false_iff] at hc
  obtain ⟨hblank, halpha, hdigit⟩ := hc
  rw [split_cons hblank, first, halpha, hdigit]
  rfl

/-- A lexeme that some text has. -/
def WF : Lexeme → Prop
  | word cs => isWord cs = true
  | numeral cs => cs ≠ [] ∧ ∀ c ∈ cs, c.isDigit = true
  | mark c => isMark c = true

/-- The first lexeme of a text is well-formed. -/
theorem wf_first {c : Char} (hc : Text.isBlank c = false) (cs : List Char) :
    (first c cs).1.WF := by
  rw [first]
  by_cases halpha : c.isAlpha = true
  · rw [if_pos halpha]
    exact Bool.and_eq_true_iff.mpr ⟨halpha, List.all_takeWhile⟩
  · rw [if_neg halpha]
    by_cases hdigit : c.isDigit = true
    · rw [if_pos hdigit]
      refine ⟨List.cons_ne_nil _ _, fun d hd ↦ ?_⟩
      rcases List.mem_cons.mp hd with rfl | hd
      · exact hdigit
      · exact List.all_eq_true.mp List.all_takeWhile d hd
    · rw [if_neg hdigit]
      change isMark c = true
      rw [isMark, hc, Char.isAlphanum, Bool.eq_false_iff.mpr halpha, Bool.eq_false_iff.mpr hdigit]
      rfl

/-- All lexemes of a text are well-formed. -/
theorem wf_of_mem_split {cs : List Char} {l : Lexeme} (hl : l ∈ split cs) : l.WF := by
  induction hn : cs.length using Nat.strongRecOn generalizing cs with
  | ind n ih =>
    cases cs with
    | nil =>
      rw [split_nil] at hl
      exact absurd hl List.not_mem_nil
    | cons c cs =>
      subst hn
      cases hc : Text.isBlank c with
      | true =>
        rw [split_blank hc] at hl
        exact ih _ (Nat.lt_succ_self _) hl rfl
      | false =>
        rw [split_cons hc] at hl
        rcases List.mem_cons.mp hl with rfl | hl
        · exact wf_first hc cs
        · exact ih _ (length_first c cs) hl rfl

/-- The token of a well-formed lexeme is canonical. -/
theorem WF.canonical_token {l : Lexeme} {t : Token} (hl : l.WF) (ht : l.token = .ok t) :
    t.Canonical := by
  cases l with
  | word cs =>
    obtain rfl := Except.ok.inj ht
    change isWord (String.ofList cs).toList = true
    rw [String.toList_ofList]
    exact hl
  | numeral cs =>
    rw [token] at ht
    split at ht
    · next hlimit =>
      obtain rfl := Except.ok.inj ht
      exact Nat.le_trans (Text.Numeral.length_digits_value_le hl.1 hl.2) hlimit
    · cases ht
  | mark c =>
    obtain rfl := Except.ok.inj ht
    exact hl

end Lexeme

/-! ### Tokens in front of a text -/

namespace Token

private theorem mem_of_mapM_eq_ok {α β ε : Type} {f : α → Except ε β} {xs : List α}
    {ys : List β} (h : xs.mapM f = .ok ys) {y : β} (hy : y ∈ ys) : ∃ x ∈ xs, f x = .ok y := by
  induction xs generalizing ys with
  | nil =>
    obtain rfl := Except.ok.inj h
    exact absurd hy List.not_mem_nil
  | cons x xs ih =>
    rw [List.mapM_cons] at h
    cases hx : f x with
    | error e => rw [hx] at h; cases h
    | ok z =>
      cases hxs : xs.mapM f with
      | error e => rw [hx, hxs] at h; cases h
      | ok zs =>
        rw [hx, hxs] at h
        obtain rfl := Except.ok.inj h
        rcases List.mem_cons.mp hy with rfl | hy
        · exact ⟨x, List.mem_cons_self, hx⟩
        · obtain ⟨x', hx', hfx⟩ := ih hxs hy
          exact ⟨x', List.mem_cons_of_mem x hx', hfx⟩

/-- All scanned tokens are canonical. -/
theorem canonical_of_scanChars {cs : List Char} {ts : List Token} (h : scanChars cs = .ok ts)
    {t : Token} (ht : t ∈ ts) : t.Canonical := by
  obtain ⟨l, hl, hlt⟩ := mem_of_mapM_eq_ok h ht
  exact (Lexeme.wf_of_mem_split hl).canonical_token hlt

/-- The empty text has no tokens. -/
theorem scanChars_nil : scanChars [] = .ok [] := by
  rw [scanChars, Lexeme.split_nil]
  rfl

/-- Scanning takes the token of the first lexeme and goes on behind it. -/
private theorem scanChars_of_split {cs rest : List Char} {l : Lexeme} {t : Token}
    (h : Lexeme.split cs = l :: Lexeme.split rest) (ht : l.token = .ok t) :
    scanChars cs = (scanChars rest).map (t :: ·) := by
  rw [scanChars, h, List.mapM_cons, ht, scanChars]
  rfl

/-- The characters are those of the tokens: scanning finds these tokens and goes on with the
rest of the text, as long as the rest does not begin with a letter or digit. -/
def Spells (cs : List Char) (ts : List Token) : Prop :=
  ∀ rest, Apart rest → scanChars (cs ++ rest) = (scanChars rest).map (ts ++ ·)

private theorem map_map {ε α β γ : Type} (x : Except ε α) (f : α → β) (g : β → γ) :
    (x.map f).map g = x.map fun a ↦ g (f a) := by
  cases x <;> rfl

/-- A text that spells tokens has these tokens. -/
theorem Spells.scanChars_eq {cs : List Char} {ts : List Token} (h : Spells cs ts) :
    scanChars cs = .ok ts := by
  have hnil := h [] apart_nil
  rw [List.append_nil, scanChars_nil] at hnil
  rw [hnil]
  exact congrArg Except.ok (List.append_nil ts)

/-- A word spells an identifier. -/
theorem spells_identifier {x : String} (hx : isWord x.toList = true) :
    Spells x.toList [identifier x] := by
  intro rest hrest
  apply scanChars_of_split (Lexeme.split_word hx hrest)
  rw [Lexeme.token, String.ofList_toList]

/-- The numeral of a number spells it. -/
theorem spells_number {n : Nat} (hn : (Text.Numeral.digits n).length ≤ Text.Numeral.limit) :
    Spells (Text.Numeral.digits n) [number n] := by
  intro rest hrest
  refine scanChars_of_split (Lexeme.split_numeral (Text.Numeral.digits_ne_nil n)
    (fun c hc ↦ Text.Numeral.isDigit_of_mem_digits hc) fun c hc ↦ hrest.isDigit_eq_false hc) ?_
  rw [Lexeme.token, if_pos hn, Text.Numeral.value_digits]

/-- The empty text spells no tokens. -/
theorem spells_nil : Spells [] [] := by
  intro rest _
  rw [List.nil_append]
  cases scanChars rest <;> rfl

/-- A mark in front spells one more symbol. -/
theorem Spells.symbol_cons {c : Char} {cs : List Char} {ts : List Token} (hc : isMark c = true)
    (h : Spells cs ts) : Spells (c :: cs) (.symbol c :: ts) := by
  intro rest hrest
  rw [List.cons_append, scanChars_of_split (Lexeme.split_mark hc _) rfl, h rest hrest, map_map]
  rfl

/-- A blank in front spells no more token. -/
theorem Spells.blank_cons {c : Char} {cs : List Char} {ts : List Token}
    (hc : Text.isBlank c = true) (h : Spells cs ts) : Spells (c :: cs) ts := by
  intro rest hrest
  rw [List.cons_append, scanChars, Lexeme.split_blank hc]
  exact h rest hrest

/-- Texts spell their tokens in sequence if the second does not begin with a letter or digit. -/
theorem Spells.append {cs ds : List Char} {d : Char} {ts us : List Token} (h : Spells cs ts)
    (hd : d.isAlphanum = false) (k : Spells (d :: ds) us) :
    Spells (cs ++ d :: ds) (ts ++ us) := by
  intro rest hrest
  rw [List.append_assoc, List.cons_append, h _ (apart_cons hd _), ← List.cons_append,
    k rest hrest, map_map]
  simp only [List.append_assoc]

end Token
end Backtrack
