import Backtrack.Proofs.Grammar.Locality

/-!
# Grammars that can succeed without tokens

A grammar is `Nullable` if its form allows a result that reads nothing. This is the least property
that its parts and the definitions of its names make necessary. Where repetitions are not applied
to nullable grammars (`Formed`), it bounds what the parsers do: a result that reads nothing comes
from a nullable grammar only. This is `nullable_of_mem`.
-/

namespace Backtrack.Grammar

open Backtrack.Parser

variable {defs : Definitions} {p q : Grammar}

/-- The form of the grammar allows a result that reads nothing. -/
inductive Nullable (defs : Definitions) : Grammar → Prop
  /-- A value without tokens. -/
  | pure (v : Value) (label : String) : Nullable defs (.pure v label)
  /-- The first of two alternatives. -/
  | left {p q : Grammar} : Nullable defs p → Nullable defs (.orElse p q)
  /-- The second of two alternatives. -/
  | right {p q : Grammar} : Nullable defs q → Nullable defs (.orElse p q)
  /-- Two grammars in a row that both are. -/
  | seqWith {join : Value → Value → Except Fault Value} {p q : Grammar} :
    Nullable defs p → Nullable defs q → Nullable defs (.seqWith join p q)
  /-- Mapped values. -/
  | map {f : Value → Except Fault Value} {p : Grammar} : Nullable defs p → Nullable defs (.map f p)
  /-- Any number in a row, for it can be none. -/
  | many (p : Grammar) : Nullable defs (.many p)
  /-- A name whose definition is. -/
  | ref {name : String} {label : Option String} {g : Grammar} :
    defs name = .ok g → Nullable defs g → Nullable defs (.ref name label)

/-- Alternatives are nullable exactly if one of them is. -/
theorem nullable_orElse_iff : Nullable defs (.orElse p q) ↔ Nullable defs p ∨ Nullable defs q := by
  constructor
  · intro h
    cases h with
    | left h => exact .inl h
    | right h => exact .inr h
  · rintro (h | h)
    · exact .left h
    · exact .right h

/-- A sequence is nullable exactly if both parts are. -/
theorem nullable_seqWith_iff {join : Value → Value → Except Fault Value} :
    Nullable defs (.seqWith join p q) ↔ Nullable defs p ∧ Nullable defs q := by
  constructor
  · rintro (_ | _ | _ | ⟨hp, hq⟩)
    exact ⟨hp, hq⟩
  · rintro ⟨hp, hq⟩
    exact .seqWith hp hq

/-- The grammar is made of single tokens, values without tokens, alternatives, sequences, mapped
values, names with a definition and repetitions of what is not nullable. -/
def Formed (defs : Definitions) : Grammar → Prop
  | fail => True
  | pure _ _ => True
  | token _ _ => True
  | orElse p q => p.Formed defs ∧ q.Formed defs
  | seqWith _ p q => p.Formed defs ∧ q.Formed defs
  | map _ p => p.Formed defs
  | bind _ _ => False
  | many p => p.Formed defs ∧ ¬Nullable defs p
  | ref name _ => ∃ g, defs name = .ok g
  | failing _ _ => False
  | embed _ _ _ => False

/-! ### Derived forms -/

/-- A choice is formed exactly if each alternative is. -/
theorem formed_choice_iff {ps : List Grammar} :
    (choice ps).Formed defs ↔ ∀ p ∈ ps, p.Formed defs := by
  have hfold (p : Grammar) :
      (ps.foldl orElse p).Formed defs ↔ p.Formed defs ∧ ∀ q ∈ ps, q.Formed defs := by
    induction ps generalizing p with
    | nil => simp
    | cons q ps ih => rw [List.foldl_cons, ih, List.forall_mem_cons, Formed, and_assoc]
  rw [choice, hfold, Formed, true_and]

/-- A sequence is formed exactly if each grammar in it is. -/
theorem formed_sequence_iff {ps : List Grammar} :
    (sequence ps).Formed defs ↔ ∀ p ∈ ps, p.Formed defs := by
  have hfold (join : Value → Value → Except Fault Value) (p : Grammar) :
      (ps.foldl (seqWith join) p).Formed defs ↔ p.Formed defs ∧ ∀ q ∈ ps, q.Formed defs := by
    induction ps generalizing p with
    | nil => simp
    | cons q ps ih => rw [List.foldl_cons, ih, List.forall_mem_cons, Formed, and_assoc]
  rw [sequence, hfold, Formed, true_and]

/-- A repetition of at least one is formed exactly if the repeated grammar is and is not
nullable. -/
theorem formed_some_iff : (some p).Formed defs ↔ p.Formed defs ∧ ¬Nullable defs p := by
  rw [some, Formed, Formed, and_self_left]

/-- A chain is formed exactly if terms and operators are and an operator with a term behind it is
not nullable. -/
theorem formed_chainl_iff {term op : Grammar} :
    (chainl term op).Formed defs ↔
      term.Formed defs ∧ op.Formed defs ∧ ¬(Nullable defs op ∧ Nullable defs term) := by
  have hpair : Nullable defs (pair op term) ↔ Nullable defs op ∧ Nullable defs term :=
    nullable_seqWith_iff
  rw [chainl, sequenceWith, Formed, formed_sequence_iff]
  simp only [List.forall_mem_cons, List.not_mem_nil, false_implies, implies_true, and_true, Formed,
    hpair]
  rw [pair, Formed]
  constructor
  · rintro ⟨hterm, ⟨hop, -⟩, hnull⟩
    exact ⟨hterm, hop, hnull⟩
  · rintro ⟨hterm, hop, hnull⟩
    exact ⟨hterm, ⟨hop, hterm⟩, hnull⟩

/-! ### Results that read nothing -/

/-- A formed grammar embeds no parser. -/
theorem Formed.combined {g : Grammar} (hg : g.Formed defs) : g.Combined := by
  induction g with
  | fail => trivial
  | pure v label => trivial
  | token image? label => trivial
  | orElse p q ihp ihq => exact ⟨ihp hg.1, ihq hg.2⟩
  | seqWith join p q ihp ihq => exact ⟨ihp hg.1, ihq hg.2⟩
  | map f p ih => exact ih hg
  | bind p next => exact absurd hg id
  | many p ih => exact ih hg.1
  | ref name label => trivial
  | failing fault kind => exact absurd hg id
  | embed p label kind => exact absurd hg id

variable (hdefs : ∀ name g, defs name = .ok g → g.Formed defs)
include hdefs

/-- Every result of a formed grammar leaves a suffix of the tokens. -/
theorem Formed.suffix {g : Grammar} (hg : g.Formed defs) {room : Nat} {ts : List Value}
    {x : Value × List Value} (hx : x ∈ ((g.parser (defs.meaning room)).run ts).entries) :
    x.2 <:+ ts := by
  have hcombined : defs.Combined := fun name g h ↦ (hdefs name g h).combined
  exact (built_of_combined (Definitions.built_meaning hcombined room) hg.combined).isLocal.suffix hx

/-- A grammar with a result that reads nothing is nullable, provided that this holds of its
names. -/
private theorem nullable_of_mem_of_ref {room : Nat}
    (hm : ∀ name label ts x, x ∈ ((defs.meaning room name).run ts).entries → x.2 = ts →
      Nullable defs (.ref name label))
    {g : Grammar} (hg : g.Formed defs) {ts : List Value} {x : Value × List Value}
    (hx : x ∈ ((g.parser (defs.meaning room)).run ts).entries) (hsame : x.2 = ts) :
    Nullable defs g := by
  induction g generalizing ts x with
  | fail => exact absurd hx List.not_mem_nil
  | pure v label => exact .pure v label
  | token image? label =>
    obtain ⟨u, hu, t, rfl, -⟩ := (reads_token image?).sound hx
    rw [← hsame] at hu
    exact absurd hu.symm (by simp)
  | orElse p q ihp ihq =>
    rcases Trace.mem_or_mem_of_append hx with hx | hx
    · exact .left (ihp hg.1 hx hsame)
    · exact .right (ihq hg.2 hx hsame)
  | seqWith join p q ihp ihq =>
    obtain ⟨c, hc, -, hrest⟩ := exists_of_mem_tryMap hx
    obtain ⟨y, hy, z, hz, rfl⟩ := exists_of_mem_pair hc
    -- What the first part leaves over lies between all the tokens and what is left over in the end.
    have hys : y.2 <:+ ts := hg.1.suffix hdefs hy
    have hzs : z.2 <:+ y.2 := hg.2.suffix hdefs hz
    have hz2 : z.2 = ts := hrest.symm.trans hsame
    have hy2 : y.2 = ts := hys.eq_of_length_le (hz2 ▸ hzs.length_le)
    exact .seqWith (ihp hg.1 hy hy2) (ihq hg.2 hz (hz2.trans hy2.symm))
  | map f p ih =>
    obtain ⟨y, hy, -, hrest⟩ := exists_of_mem_tryMap hx
    exact .map (ih hg hy (hrest.symm.trans hsame))
  | bind p next => exact absurd hg id
  | many p ih => exact .many p
  | ref name label => exact hm name label ts x hx hsame
  | failing fault kind => exact absurd hg id
  | embed p label kind => exact absurd hg id

/-- A grammar with a result that reads nothing is nullable, whatever the room. -/
theorem nullable_of_mem {room : Nat} {g : Grammar} (hg : g.Formed defs) {ts : List Value}
    {x : Value × List Value} (hx : x ∈ ((g.parser (defs.meaning room)).run ts).entries)
    (hsame : x.2 = ts) : Nullable defs g := by
  induction room generalizing g ts x with
  | zero =>
    exact nullable_of_mem_of_ref hdefs (fun _ _ _ _ h ↦ absurd h List.not_mem_nil) hg hx hsame
  | succ room ih =>
    refine nullable_of_mem_of_ref hdefs (fun name label us y hy hy2 ↦ ?_) hg hx hsame
    simp only [Definitions.meaning, defer_eq] at hy
    cases hd : defs name with
    | error fault =>
      rw [hd] at hy
      exact absurd hy List.not_mem_nil
    | ok g' =>
      rw [hd] at hy
      exact .ref hd (ih (hdefs name g' hd) hy hy2)

/-- Every result of a grammar that is not nullable leaves fewer tokens. -/
theorem length_lt_of_mem {room : Nat} {g : Grammar} (hg : g.Formed defs)
    (hnull : ¬Nullable defs g) {ts : List Value} {x : Value × List Value}
    (hx : x ∈ ((g.parser (defs.meaning room)).run ts).entries) : x.2.length < ts.length := by
  have hsuffix : x.2 <:+ ts := hg.suffix hdefs hx
  rcases Nat.lt_or_eq_of_le hsuffix.length_le with hlt | heq
  · exact hlt
  · exact absurd (nullable_of_mem hdefs hg hx (hsuffix.eq_of_length heq)) hnull

end Backtrack.Grammar
