import Backtrack.Proofs.Token.Canonical

/-!
# Spelling tokens

Canonical tokens are scanned back from their spelling, whatever stands next to what: the space
between two neighbours ends a word or a number and adds nothing. So these rows of tokens, and no
others, are the tokens of texts. The main statement is `scan_spell`.
-/

namespace Backtrack.Token

/-! ### The spelling of a row of tokens -/

/-- The spelling of no tokens is empty. -/
theorem spelling_nil : spelling [] = [] := rfl

/-- The spelling of a single token is its text. -/
theorem spelling_singleton (t : Token) : spelling [t] = t.chars := by
  rw [spelling, List.map_singleton, List.intercalate_singleton]

/-- The spelling of several tokens has a space behind the first. -/
theorem spelling_cons_cons (t u : Token) (ts : List Token) :
    spelling (t :: u :: ts) = t.chars ++ ' ' :: spelling (u :: ts) := by
  rw [spelling, List.map_cons, List.map_cons, List.intercalate_cons_cons, List.append_assoc]
  rfl

/-- The spelling of canonical tokens is empty exactly if there are none. -/
theorem spelling_eq_nil_iff {ts : List Token} (h : ∀ t ∈ ts, t.Canonical) :
    spelling ts = [] ↔ ts = [] := by
  constructor
  · intro hnil
    match ts with
    | [] => rfl
    | [t] =>
      rw [spelling_singleton] at hnil
      exact absurd hnil (h t List.mem_cons_self).chars_ne_nil
    | t :: u :: ts =>
      rw [spelling_cons_cons] at hnil
      exact absurd (List.append_eq_nil_iff.mp hnil).2 (List.cons_ne_nil _ _)
  · rintro rfl
    exact spelling_nil

/-- The spelling of two lists of tokens has a space between them. -/
theorem spelling_append {ts us : List Token} (hts : ts ≠ []) (hus : us ≠ []) :
    spelling (ts ++ us) = spelling ts ++ ' ' :: spelling us := by
  obtain ⟨u, us, rfl⟩ := List.exists_cons_of_ne_nil hus
  induction ts with
  | nil => exact absurd rfl hts
  | cons t ts ih =>
    cases ts with
    | nil => rw [List.singleton_append, spelling_cons_cons, spelling_singleton]
    | cons v vs =>
      rw [List.cons_append, List.cons_append, spelling_cons_cons, spelling_cons_cons,
        ← List.cons_append, ih (List.cons_ne_nil v vs), List.append_assoc, List.cons_append]

/-- Every character of a spelling is a space or belongs to a token. -/
theorem eq_space_or_mem_chars {ts : List Token} {c : Char} (hc : c ∈ spelling ts) :
    c = ' ' ∨ ∃ t ∈ ts, c ∈ t.chars := by
  induction ts with
  | nil => exact absurd hc List.not_mem_nil
  | cons t ts ih =>
    cases ts with
    | nil =>
      rw [spelling_singleton] at hc
      exact .inr ⟨t, List.mem_cons_self, hc⟩
    | cons u us =>
      rw [spelling_cons_cons, List.mem_append, List.mem_cons] at hc
      rcases hc with hc | hc | hc
      · exact .inr ⟨t, List.mem_cons_self, hc⟩
      · exact .inl hc
      · refine (ih hc).imp_right ?_
        rintro ⟨v, hv, hcv⟩
        exact ⟨v, List.mem_cons_of_mem t hv, hcv⟩

/-- Every character of a token belongs to the spelling. -/
theorem mem_spelling_of_mem_chars {ts : List Token} {t : Token} (ht : t ∈ ts) {c : Char}
    (hc : c ∈ t.chars) : c ∈ spelling ts := by
  induction ts with
  | nil => exact absurd ht List.not_mem_nil
  | cons u us ih =>
    cases us with
    | nil =>
      rw [spelling_singleton, ← List.mem_singleton.mp ht]
      exact hc
    | cons v vs =>
      rw [spelling_cons_cons, List.mem_append, List.mem_cons]
      rcases List.mem_cons.mp ht with rfl | ht
      · exact .inl hc
      · exact .inr (.inr (ih ht))

/-- The only blanks in the spelling of canonical tokens are spaces. -/
theorem eq_space_of_mem_spelling {ts : List Token} (h : ∀ t ∈ ts, t.Canonical) {c : Char}
    (hc : c ∈ spelling ts) (hblank : Text.isBlank c = true) : c = ' ' := by
  refine (eq_space_or_mem_chars hc).resolve_right ?_
  rintro ⟨t, ht, hct⟩
  exact absurd (hblank.symm.trans ((h t ht).isBlank_eq_false hct)) nofun

/-- The text of a canonical token spells the token. -/
theorem Canonical.spells {t : Token} (h : t.Canonical) : Spells t.chars [t] := by
  cases t with
  | symbol c => exact spells_nil.symbol_cons h
  | identifier x => exact spells_identifier h
  | number n => exact spells_number h

/-- The spelling of canonical tokens spells the tokens. -/
theorem spells_spelling {ts : List Token} (h : ∀ t ∈ ts, t.Canonical) :
    Spells (spelling ts) ts := by
  -- The space goes with the token behind it: what it begins is apart from the token in front.
  induction ts with
  | nil =>
    rw [spelling_nil]
    exact spells_nil
  | cons t ts ih =>
    have ht : Spells t.chars [t] := (h t List.mem_cons_self).spells
    cases ts with
    | nil =>
      rw [spelling_singleton]
      exact ht
    | cons u us =>
      have hrest : Spells (spelling (u :: us)) (u :: us) :=
        ih fun v hv ↦ h v (List.mem_cons_of_mem t hv)
      rw [spelling_cons_cons]
      exact ht.append rfl (hrest.blank_cons isBlank_space)

/-! ### Scanning a spelling -/

/-- Scanning the spelling of canonical tokens gives the tokens. -/
theorem scan_spell_of_canonical {ts : List Token} (h : ∀ t ∈ ts, t.Canonical) :
    scan (spell ts) = .ok ts := by
  rw [scan, spell, String.toList_ofList]
  exact (spells_spelling h).scanChars_eq

/-- Scanned tokens are canonical. -/
theorem canonical_of_scan {text : String} {ts : List Token} (h : scan text = .ok ts) :
    ∀ t ∈ ts, t.Canonical :=
  fun _ ht ↦ canonical_of_scanChars h ht

/-- Spelling and scanning are inverse on the tokens that texts have. A row of tokens is that of
some text exactly when all of them are canonical, it is then that of its own spelling, and so
scanning the spelling of what was scanned changes nothing. -/
theorem scan_spell :
    (∀ text ts, scan text = .ok ts → ∀ t ∈ ts, t.Canonical) ∧
      (∀ ts, (∀ t ∈ ts, t.Canonical) → scan (spell ts) = .ok ts) ∧
      (∀ ts, (∃ text, scan text = .ok ts) ↔ ∀ t ∈ ts, t.Canonical) ∧
      ∀ text ts, scan text = .ok ts → scan (spell ts) = .ok ts := by
  refine ⟨?_, ?_, ?_, ?_⟩
  · intro text ts h
    exact canonical_of_scan h
  · intro ts h
    exact scan_spell_of_canonical h
  · intro ts
    constructor
    · rintro ⟨text, h⟩
      exact canonical_of_scan h
    · intro h
      exact ⟨spell ts, scan_spell_of_canonical h⟩
  · intro text ts h
    exact scan_spell_of_canonical (canonical_of_scan h)

end Backtrack.Token
