import Backtrack.Proofs.Parser.Locality
import Backtrack.Proofs.Report.Reading
import Backtrack.Proofs.Token.Spelling
import Mathlib.Logic.ExistsUnique

/-!
# The outcome of reading a text

Reading a text with any parser has exactly one of a few outcomes: the text has one value, or
several, or only a beginning of it has one, or not even that, or its parts are nested too deeply;
or else the scanner or the parser stop the work. `Outcome.Applies` says when each is the case,
and `reading_outcome` that reading a text answers and records what its outcome says.
-/

namespace Backtrack

/-- The body of the issue that a text stops making sense points at the token where it does. -/
theorem Issue.body_stopsShort {ts : List Token} {k : Nat} (h : k < ts.length) :
    (Issue.stopsShort ts k).body = [Issue.pointer ts k ts[k]] := by
  simp only [Issue.body, List.getElem?_eq_getElem h]

/-- What reading a text comes to. -/
inductive Outcome (α : Type) where
  /-- The text has one value. -/
  | single (a : α)
  /-- The text has so many values, at least two, of which this is the first. -/
  | several (a : α) (count : Nat)
  /-- At best so many of the tokens have a value. -/
  | partly (tokens : List Token) (consumed : Nat)
  /-- No beginning of the text has a value. -/
  | nothing
  /-- The parts of these many tokens are nested too deeply. -/
  | nested (size : Nat)
  /-- The parser stops with a fault. -/
  | faulty (f : Fault)
  /-- The text has no tokens for a numeral that is too long. -/
  | unscanned (e : LongNumeral)

namespace Outcome

variable {α : Type}

open Backtrack.Parser

/-- When the outcome is that of a text. -/
def Applies (entry : Parser Token α) (text : String) : Outcome α → Prop
  | single a => ∃ ts, Token.scan text = .ok ts ∧ entry.complete ts = .ok [a]
  | several a count =>
    ∃ ts as, Token.scan text = .ok ts ∧ entry.complete ts = .ok (a :: as) ∧ as ≠ [] ∧
      count = as.length + 1
  | partly ts k =>
    Token.scan text = .ok ts ∧ entry.complete ts = .ok [] ∧ ∃ rs, entry.results ts = .ok rs ∧
      (∃ x ∈ rs, consumed ts x = k) ∧ ∀ x ∈ rs, consumed ts x ≤ k
  | nothing => ∃ ts, Token.scan text = .ok ts ∧ entry.results ts = .ok []
  | nested size =>
    ∃ ts, Token.scan text = .ok ts ∧ entry.results ts = .error .overflow ∧ size = ts.length
  | faulty f =>
    ∃ ts, Token.scan text = .ok ts ∧ entry.results ts = .error f ∧ f ≠ .overflow
  | unscanned e => Token.scan text = .error e

/-- What is answered, as long as there are not too many issues. -/
def answer : Outcome α → Except Interruption (Option α)
  | single a => .ok (some a)
  | several a _ => .ok (some a)
  | partly _ _ => .ok none
  | nothing => .ok none
  | nested _ => .ok none
  | faulty f => .error (.fault f)
  | unscanned e => .error (.longNumeral e)

/-- The issue that an outcome records for a text. -/
def issue? (text : String) : Outcome α → Option Issue
  | several _ count => some (.ambiguous text count)
  | partly ts k => some (.stopsShort ts k)
  | nothing => some (.noBeginning text)
  | nested size => some (.tooNested size)
  | _ => none

/-! ### Finding the outcome -/

/-- The outcome of a text with these tokens and results. -/
def ofResults (ts : List Token) (rs : List (α × List Token)) : Outcome α :=
  match (rs.filter (·.2.isEmpty)).map (·.1) with
  | [a] => single a
  | a :: others => several a (others.length + 1)
  | [] => if rs.isEmpty then nothing else partly ts (Verdict.longest ts rs)

/-- The outcome of a text. -/
def of (entry : Parser Token α) (text : String) : Outcome α :=
  match Token.scan text with
  | .error e => unscanned e
  | .ok ts =>
    match entry.results ts with
    | .error .overflow => nested ts.length
    | .error f => faulty f
    | .ok rs => ofResults ts rs

private theorem foldl_max_spec (f : α → Nat) (rs : List α) (n : Nat) :
    n ≤ rs.foldl (fun n r ↦ max n (f r)) n ∧
      (∀ x ∈ rs, f x ≤ rs.foldl (fun n r ↦ max n (f r)) n) ∧
      (rs.foldl (fun n r ↦ max n (f r)) n = n ∨
        ∃ x ∈ rs, f x = rs.foldl (fun n r ↦ max n (f r)) n) := by
  induction rs generalizing n with
  | nil => exact ⟨Nat.le_refl n, fun x hx ↦ absurd hx List.not_mem_nil, .inl rfl⟩
  | cons r rs ih =>
    obtain ⟨hn, hle, hmax⟩ := ih (max n (f r))
    rw [List.foldl_cons]
    refine ⟨by omega, ?_, ?_⟩
    · intro x hx
      rcases List.mem_cons.mp hx with rfl | hx
      · omega
      · exact hle x hx
    · rcases hmax with hmax | ⟨x, hx, hmax⟩
      · by_cases hr : f r ≤ n
        · left
          omega
        · exact .inr ⟨r, List.mem_cons_self, by omega⟩
      · exact .inr ⟨x, List.mem_cons_of_mem r hx, hmax⟩

/-- No result reads more tokens than the longest one. -/
theorem consumed_le_longest {ts : List Token} {rs : List (α × List Token)} {x : α × List Token}
    (hx : x ∈ rs) : consumed ts x ≤ Verdict.longest ts rs :=
  (foldl_max_spec (fun r : α × List Token ↦ ts.length - r.2.length) rs 0).2.1 x hx

/-- Some result is the longest, if there are any. -/
theorem exists_consumed_eq_longest {ts : List Token} {rs : List (α × List Token)}
    (hne : rs ≠ []) : ∃ x ∈ rs, consumed ts x = Verdict.longest ts rs := by
  obtain ⟨-, hle, hmax⟩ :=
    foldl_max_spec (fun r : α × List Token ↦ ts.length - r.2.length) rs 0
  rcases hmax with hzero | hmax
  · obtain ⟨x, hx⟩ := List.exists_mem_of_ne_nil rs hne
    have hlongest : Verdict.longest ts rs = 0 := hzero
    have hxle : consumed ts x ≤ Verdict.longest ts rs := hle x hx
    exact ⟨x, hx, by omega⟩
  · exact hmax

/-- The outcome of a text without tokens is that it is not scanned. -/
theorem of_unscanned {entry : Parser Token α} {text : String} {e : LongNumeral}
    (hts : Token.scan text = .error e) : of entry text = unscanned e := by
  rw [of, hts]

/-- The outcome of a text whose run overflows is that it is nested too deeply. -/
theorem of_nested {entry : Parser Token α} {text : String} {ts : List Token}
    (hts : Token.scan text = .ok ts) (h : entry.results ts = .error .overflow) :
    of entry text = nested ts.length := by
  rw [of, hts]
  simp only [h]

/-- The outcome of a text whose run stops with another fault is that fault. -/
theorem of_faulty {entry : Parser Token α} {text : String} {ts : List Token} {f : Fault}
    (hts : Token.scan text = .ok ts) (h : entry.results ts = .error f) (hf : f ≠ .overflow) :
    of entry text = faulty f := by
  rw [of, hts]
  simp only [h]

/-- The outcome of a text with results is that of the results. -/
theorem of_ok {entry : Parser Token α} {text : String} {ts : List Token}
    {rs : List (α × List Token)} (hts : Token.scan text = .ok ts)
    (h : entry.results ts = .ok rs) : of entry text = ofResults ts rs := by
  rw [of, hts]
  simp only [h]

/-- The outcome computed from the results of a text applies to it. -/
theorem applies_ofResults {entry : Parser Token α} {text : String} {ts : List Token}
    {rs : List (α × List Token)} (hts : Token.scan text = .ok ts)
    (hrs : entry.results ts = .ok rs) : (ofResults ts rs).Applies entry text := by
  have hcomplete {as : List α} (h : (rs.filter (·.2.isEmpty)).map (·.1) = as) :
      entry.complete ts = .ok as := complete_eq_ok_iff.mpr ⟨rs, hrs, h⟩
  rw [ofResults]
  split
  · next a ha => exact ⟨ts, hts, hcomplete ha⟩
  · next a others hne ha => exact ⟨ts, others, hts, hcomplete ha, hne, rfl⟩
  · next hnil =>
    by_cases hrs' : rs = []
    · subst hrs'
      exact ⟨ts, hts, hrs⟩
    · rw [if_neg fun h ↦ hrs' (List.isEmpty_iff.mp h)]
      exact ⟨hts, hcomplete hnil, rs, hrs, exists_consumed_eq_longest hrs',
        fun x hx ↦ consumed_le_longest hx⟩

/-- The computed outcome of a text applies to it. -/
theorem applies_of (entry : Parser Token α) (text : String) :
    (of entry text).Applies entry text := by
  cases hts : Token.scan text with
  | error e =>
    rw [of_unscanned hts]
    exact hts
  | ok ts =>
    cases hrs : entry.results ts with
    | error f =>
      by_cases hf : f = .overflow
      · subst hf
        rw [of_nested hts hrs]
        exact ⟨ts, hts, hrs, rfl⟩
      · rw [of_faulty hts hrs hf]
        exact ⟨ts, hts, hrs, hf⟩
    | ok rs =>
      rw [of_ok hts hrs]
      exact applies_ofResults hts hrs

/-- Only the computed outcome of a text applies to it. -/
theorem Applies.eq_of {entry : Parser Token α} {text : String} {o : Outcome α}
    (h : o.Applies entry text) : o = of entry text := by
  cases o with
  | single a =>
    obtain ⟨ts, hts, ha⟩ := h
    obtain ⟨rs, hrs, ha⟩ := complete_eq_ok_iff.mp ha
    simp only [of_ok hts hrs, ofResults, ha]
  | several a count =>
    obtain ⟨ts, as, hts, ha, hne, rfl⟩ := h
    obtain ⟨rs, hrs, ha⟩ := complete_eq_ok_iff.mp ha
    obtain ⟨b, bs, rfl⟩ := List.exists_cons_of_ne_nil hne
    simp only [of_ok hts hrs, ofResults, ha]
  | partly ts k =>
    obtain ⟨hts, ha, rs, hrs, ⟨x, hx, rfl⟩, hle⟩ := h
    obtain ⟨rs', hrs', ha⟩ := complete_eq_ok_iff.mp ha
    obtain rfl : rs' = rs := Except.ok.inj (hrs'.symm.trans hrs)
    have hne : rs' ≠ [] := List.ne_nil_of_mem hx
    obtain ⟨y, hy, hlongest⟩ : ∃ y ∈ rs', consumed ts y = Verdict.longest ts rs' :=
      exists_consumed_eq_longest hne
    have hk : consumed ts x = Verdict.longest ts rs' := by
      have hxle : consumed ts x ≤ Verdict.longest ts rs' := consumed_le_longest hx
      have hyle := hle y hy
      omega
    simp only [of_ok hts hrs, ofResults, ha, List.isEmpty_iff, hne, if_false, hk]
  | nothing =>
    obtain ⟨ts, hts, hrs⟩ := h
    rw [of_ok hts hrs]
    rfl
  | nested size =>
    obtain ⟨ts, hts, hrs, rfl⟩ := h
    exact (of_nested hts hrs).symm
  | faulty f =>
    obtain ⟨ts, hts, hrs, hf⟩ := h
    exact (of_faulty hts hrs hf).symm
  | unscanned e => exact (of_unscanned h).symm

/-- If results leave ends of the tokens over, a text of which only a beginning has a value goes on
behind that beginning. -/
theorem Applies.lt_of_partly {entry : Parser Token α} {text : String} {ts : List Token} {k : Nat}
    (h : (partly ts k).Applies entry text) (hentry : ∀ x ∈ (entry.run ts).entries, x.2 <:+ ts) :
    k < ts.length := by
  obtain ⟨-, hnone, rs, hrs, ⟨x, hx, rfl⟩, -⟩ := h
  obtain ⟨rs', hrs', hfilter⟩ := complete_eq_ok_iff.mp hnone
  obtain rfl : rs' = rs := Except.ok.inj (hrs'.symm.trans hrs)
  have hsuffix : x.2 <:+ ts := by
    obtain ⟨-, rfl⟩ := results_eq_ok_iff.mp hrs
    exact hentry x hx
  -- The result is not a complete one, so it leaves something over.
  have hrest : x.2 ≠ [] := by
    intro hnil
    have hmem : x ∈ rs'.filter (·.2.isEmpty) :=
      List.mem_filter.mpr ⟨hx, List.isEmpty_iff.mpr hnil⟩
    rw [List.map_eq_nil_iff.mp hfilter] at hmem
    exact absurd hmem List.not_mem_nil
  have hpos : 0 < x.2.length := List.length_pos_iff.mpr hrest
  have hle : x.2.length ≤ ts.length := hsuffix.length_le
  rw [consumed]
  omega

/-! ### Answering and recording -/

/-- What becomes of the work and of a console when an outcome is answered and recorded: its issue
comes behind those that are there, and one that makes them as many as the limit interrupts the
work instead of an answer. -/
def settle (text : String) (o : Outcome α) (c : Console) :
    Except Interruption (Option α) × Console :=
  (if (o.issue? text).isSome ∧ (c.report.issues.length : Int) + 1 = c.report.limit then
      .error .reportFull
    else o.answer,
    { c with report :=
      { c.report with issues := c.report.issues ++ (o.issue? text).toList } })

/-- Settling an outcome without an issue leaves the console unchanged. -/
theorem settle_of_none {text : String} {o : Outcome α} (h : o.issue? text = none) (c : Console) :
    o.settle text c = (o.answer, c) := by
  simp [settle, h]

/-- Settling an outcome with an issue records the issue and gives the answer. -/
theorem settle_of_some {text : String} {o : Outcome α} {i : Issue} {a : Option α}
    (h : o.issue? text = some i) (ha : o.answer = .ok a) (c : Console) :
    o.settle text c =
      (if (c.report.add i).isFull then .error .reportFull else .ok a,
        { c with report := c.report.add i }) := by
  simp only [settle, h, ha, c.report.isFull_add_iff i, Option.isSome_some, true_and,
    Option.toList_some]
  rfl

/-- A verdict has the issue and the value of the outcome of the results. -/
theorem ofResults_verdict (text : String) (ts : List Token) (rs : List (α × List Token)) :
    (ofResults ts rs).issue? text = (Verdict.ofResults text ts rs).issue? ∧
      (ofResults ts rs).answer = .ok (Verdict.ofResults text ts rs).value? := by
  rw [ofResults, Verdict.ofResults]
  generalize (rs.filter (·.2.isEmpty)).map (·.1) = as
  cases as with
  | nil =>
    cases rs.isEmpty with
    | true => exact ⟨rfl, rfl⟩
    | false => exact ⟨rfl, rfl⟩
  | cons a others =>
    cases others with
    | nil => exact ⟨rfl, rfl⟩
    | cons b others => exact ⟨rfl, rfl⟩

end Outcome

namespace Console

variable {α β : Type}

/-- The console with more printed besides the output, if more should be said. -/
def aside (text : String) (c : Console) : Console :=
  if c.report.verbose then { c with err := c.err ++ text } else c

/-- What reading a text says about what is going on. -/
def readingNotes (entry : Parser Token α) (text : String) : String :=
  match Token.scan text with
  | .error _ => ""
  | .ok ts =>
    "Scanned " ++ toString ts.length ++ " tokens." ++ "\n" ++
      match entry.results ts with
      | .error _ => ""
      | .ok rs => "Parse result set has " ++ toString rs.length ++ " entries." ++ "\n"

/-- Reading a text that is not scanned says nothing. -/
theorem readingNotes_unscanned {entry : Parser Token α} {text : String} {e : LongNumeral}
    (hts : Token.scan text = .error e) : readingNotes entry text = "" := by
  rw [readingNotes, hts]

/-- Reading a text whose parser faults counts the tokens only. -/
theorem readingNotes_stopped {entry : Parser Token α} {text : String} {ts : List Token}
    {f : Fault} (hts : Token.scan text = .ok ts) (h : entry.results ts = .error f) :
    readingNotes entry text = "Scanned " ++ toString ts.length ++ " tokens." ++ "\n" := by
  simp only [readingNotes, hts, h, String.append_empty]

/-- Reading any other text counts the tokens and the results. -/
theorem readingNotes_ok {entry : Parser Token α} {text : String} {ts : List Token}
    {rs : List (α × List Token)} (hts : Token.scan text = .ok ts)
    (h : entry.results ts = .ok rs) :
    readingNotes entry text = "Scanned " ++ toString ts.length ++ " tokens." ++ "\n" ++
      ("Parse result set has " ++ toString rs.length ++ " entries." ++ "\n") := by
  simp only [readingNotes, hts, h]

/-- Printing nothing besides the output leaves the console unchanged. -/
theorem aside_empty (c : Console) : c.aside "" = c := by
  rw [aside]
  split
  · rw [String.append_empty]
  · rfl

/-- Printing besides the output changes nothing else. -/
theorem aside_eq (s : String) (c : Console) :
    c.aside s = { c with err := c.err ++ if c.report.verbose = true then s else "" } := by
  rw [aside]
  split
  · rfl
  · rw [String.append_empty]

/-- Printing besides the output twice prints both in order. -/
theorem aside_aside (s t : String) (c : Console) : (c.aside s).aside t = c.aside (s ++ t) := by
  cases hv : c.report.verbose with
  | true => simp [aside, hv, String.append_assoc]
  | false => simp [aside, hv]

/-- A note is a line besides the output, and the work goes on. -/
theorem perform_note_bind (line : String) (next : Unit → Working β) (c : Console) :
    perform (note line >>= next) c = perform (next ()) (c.aside (line ++ "\n")) := by
  rw [perform_bind, perform_note, aside, String.append_assoc]

/-- Handing on a verdict settles the outcome that it comes from. -/
private theorem perform_verdict {v : Verdict α} {o : Outcome α} {text : String}
    (hi : o.issue? text = v.issue?) (ha : o.answer = .ok v.value?) (c : Console) :
    perform (do if let some i := v.issue? then record i
                return v.value?) c = o.settle text c := by
  cases h : v.issue? with
  | none =>
    rw [Outcome.settle_of_none (hi.trans h), ha]
    rfl
  | some i =>
    rw [Outcome.settle_of_some (hi.trans h) ha]
    exact perform_record_bind i v.value? c

/-- Reading says what is going on and settles the outcome of the text. -/
theorem perform_read (entry : Parser Token α) (text : String) (c : Console) :
    perform (read entry text) c =
      (Outcome.of entry text).settle text (c.aside (readingNotes entry text)) := by
  rw [read, perform_bind, perform_scan]
  cases hts : Token.scan text with
  | error e =>
    rw [Outcome.of_unscanned hts, Outcome.settle_of_none rfl, readingNotes_unscanned hts,
      aside_empty]
    rfl
  | ok ts =>
    refine (perform_note_bind _ _ c).trans ?_
    cases hrs : entry.results ts with
    | error f =>
      rw [readingNotes_stopped hts hrs]
      cases f with
      | overflow =>
        rw [Outcome.of_nested hts hrs, Outcome.settle_of_some rfl rfl]
        exact perform_record_bind _ none _
      | _ =>
        rw [Outcome.of_faulty hts hrs (by simp), Outcome.settle_of_none rfl]
        rfl
    | ok rs =>
      obtain ⟨hi, ha⟩ := Outcome.ofResults_verdict text ts rs
      rw [readingNotes_ok hts hrs, Outcome.of_ok hts hrs]
      refine (perform_note_bind _ _ _).trans ?_
      rw [aside_aside]
      exact perform_verdict hi ha _

/-- Reading a text has exactly one outcome. This is what is answered, and its issue, if it has
one, comes behind those that the report has already; the issue that makes them as many as the
limit interrupts the work instead. Where the text stops making sense there always is a token, and
the issue points at it. -/
theorem reading_outcome {entry : Parser Token α}
    (hentry : ∀ ts, ∀ x ∈ (entry.run ts).entries, x.2 <:+ ts) (text : String) (c : Console) :
    (∃! o : Outcome α, o.Applies entry text) ∧
      ∀ o : Outcome α, o.Applies entry text →
        perform (read entry text) c = o.settle text (c.aside (readingNotes entry text)) ∧
        ∀ ts k, o = .partly ts k →
          ∃ h : k < ts.length, (Issue.stopsShort ts k).body = [Issue.pointer ts k ts[k]] := by
  constructor
  · exact ⟨Outcome.of entry text, Outcome.applies_of entry text, fun o ho ↦ ho.eq_of⟩
  · intro o ho
    constructor
    · rw [ho.eq_of]
      exact perform_read entry text c
    · rintro ts k rfl
      have h : k < ts.length := ho.lt_of_partly (hentry ts)
      exact ⟨h, Issue.body_stopsShort h⟩

/-- Of two words the first alone makes sense. That is the second issue of two that are allowed. -/
theorem reading_outcome_partly :
    let entry : Parser Token Token := Parser.single (.identifier "x")
    let ts : List Token := [.identifier "x", .identifier "y"]
    let c : Console := fresh ⟨false, 2, [.unbound "z"]⟩ ⟨[], 0⟩
    (∀ ts, ∀ x ∈ (entry.run ts).entries, x.2 <:+ ts) ∧
      (Outcome.partly ts 1).Applies entry "x y" ∧
      (perform (read entry "x y") c).1 = .error .reportFull ∧
      (perform (read entry "x y") c).2.report.issues = [.unbound "z", .stopsShort ts 1] := by
  intro entry ts c
  have hentry : ∀ ts, ∀ x ∈ (entry.run ts).entries, x.2 <:+ ts := fun _ _ hx ↦
    (Parser.local_token _).suffix hx
  have hts : Token.scan "x y" = .ok ts := by
    have hcanonical : ∀ t ∈ ts, t.Canonical := by decide
    have hspell : Token.spell ts = "x y" := rfl
    rw [← hspell]
    exact Token.scan_spell_of_canonical hcanonical
  have happlies : (Outcome.partly ts 1).Applies entry "x y" :=
    ⟨hts, rfl, [(.identifier "x", [.identifier "y"])], rfl, by decide, by decide⟩
  have hread := ((reading_outcome hentry "x y" c).2 _ happlies).1
  rw [hread]
  exact ⟨hentry, happlies, rfl, rfl⟩

end Console
end Backtrack
