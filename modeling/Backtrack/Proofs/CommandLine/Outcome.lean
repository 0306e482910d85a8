import Backtrack.CommandLine.Run
import Backtrack.Proofs.CommandLine.Arguments
import Backtrack.Proofs.Expr.Evaluation
import Backtrack.Proofs.Expr.Printing
import Backtrack.Proofs.Report.Outcome
import Backtrack.Proofs.Report.Printing

/-!
# What the program prints and how it ends

The program scans a text twice and parses it up to twice, shows what it is asked for, and explains
on the side why there is no more to show. Each of its stages `Ends` with a result, lines of output
and a text besides, and the stages are followed from the last one to the first: showing a number,
showing an expression, reading, and the whole of the work. The main statement is `source_outcome`.
-/

namespace Backtrack.CommandLine

open Console Verdict

/-- The language of expressions where `room` of them may be open inside one another. -/
def expressionsWithin (room : Nat) : Language Expr Expr :=
  { expressions with entry := Expr.parser room, listed := Expr.parser room }

/-- The language of the program allows the usual number of open expressions. -/
theorem expressions_eq : expressions = expressionsWithin Expr.room := rfl

/-- Giving up records the issue, tells it and returns status 1. -/
theorem perform_giveUp {c : Console} (h : c.Ready) (i : Issue) :
    perform (giveUp i) c = (.ok 1, c.explained i) := by
  rw [giveUp, perform_bind, perform_record, h.isFull_add i]
  change perform (printIssues >>= fun _ ↦ pure 1) _ = _
  rw [perform_bind, h.perform_printIssues_add]
  rfl

/-! ### Showing a number -/

section Showing

variable {room : Nat} {o : Options} {e : Expr} {c : Console}

/-- The numeral of the value of an expression without free names. -/
def numeral (e : Expr) : String := String.ofList (Text.Numeral.ofInt (e.value fun _ ↦ 0))

/-- The numeral of the value has more digits than the limit. -/
def Overlong (e : Expr) : Prop :=
  Text.Numeral.limit < (Text.Numeral.digits (e.value fun _ ↦ 0).natAbs).length

instance : DecidablePred Overlong := fun _ ↦ inferInstanceAs (Decidable (_ < _))

/-- An expression without free names evaluates to its value in the empty environment. -/
theorem eval_of_closed (he : e.Closed) :
    (expressionsWithin room).eval e = .ok (.ok (e.value fun _ ↦ 0)) :=
  congrArg Except.ok (he.eval_eq_ok Env.empty _)

/-- Showing the number of an expression is interrupted where its numeral is overlong. -/
theorem perform_showNumber_of_overlong (he : e.Closed) (hlong : Overlong e) :
    perform (showNumber (expressionsWithin room) e) c = (.error .longResult, c) := by
  have hnot : Text.Numeral.isWritable (e.value fun _ ↦ 0) = false :=
    decide_eq_false (Nat.not_le.mpr hlong)
  rw [showNumber, eval_of_closed he]
  simp only [Text.Numeral.ofInt?, hnot]
  rfl

/-- Showing the number of a closed expression prints its numeral, if that is not overlong. -/
theorem perform_showNumber_of_closed (he : e.Closed) (hshort : ¬Overlong e) :
    perform (showNumber (expressionsWithin room) e) c = (.ok 0, c.shown [numeral e]) := by
  have hwritable : Text.Numeral.isWritable (e.value fun _ ↦ 0) = true :=
    decide_eq_true (Nat.not_lt.mp hshort)
  rw [showNumber, eval_of_closed he]
  simp only [Text.Numeral.ofInt?, hwritable]
  exact perform_print_bind _ _ c

/-- Showing the number of an expression with free names gives up with the first of them. -/
theorem perform_showNumber_of_free (hc : c.Ready) {x : String} {xs : List String}
    (he : e.free = x :: xs) :
    perform (showNumber (expressionsWithin room) e) c = (.ok 1, c.explained (.unbound x)) := by
  have heval : (expressionsWithin room).eval e = .ok (.error ⟨x⟩) :=
    congrArg Except.ok (Expr.eval_empty_of_free he)
  rw [showNumber, heval]
  exact perform_giveUp hc (.unbound x)

/-- The result of showing the number of an expression. -/
def numberResult (e : Expr) : Except Interruption Nat :=
  if ¬e.Closed then .ok 1 else if Overlong e then .error .longResult else .ok 0

/-- The lines printed for the number of an expression: its numeral, or none. -/
def numberLines (e : Expr) : List String :=
  if e.Closed ∧ ¬Overlong e then [numeral e] else []

/-- Showing the number of an expression has the result `numberResult` and prints `numberLines`. -/
theorem ends_showNumber (hc : c.Ready) :
    Ends (showNumber (expressionsWithin room) e) c (numberResult e) (numberLines e)
      (told c.dice (e.free.head?.map .unbound)) := by
  cases hfree : e.free with
  | cons x xs =>
    have hopen : ¬e.Closed := by
      rw [Expr.Closed, hfree]
      exact List.cons_ne_nil x xs
    rw [numberResult, if_pos hopen, numberLines, if_neg fun h ↦ hopen h.1]
    exact ends_of_explained (perform_showNumber_of_free hc hfree)
  | nil =>
    have hclosed : e.Closed := hfree
    rw [numberResult, if_neg (not_not.mpr hclosed), numberLines]
    by_cases hlong : Overlong e
    · rw [if_pos hlong, if_neg fun h ↦ h.2 hlong]
      exact ends_of_eq (perform_showNumber_of_overlong hclosed hlong)
    · rw [if_neg hlong, if_pos ⟨hclosed, hlong⟩]
      exact ends_of_shown (perform_showNumber_of_closed hclosed hlong)

end Showing

/-! ### Showing an expression -/

/-- The result of the work on a text whose expression, if any, is given. -/
def conclusion (o : Options) : Option Expr → Except Interruption Nat
  | none => .ok 1
  | some e => if o.evaluate = true then numberResult e else .ok 0

/-- The lines printed for an expression: its structure, and its number on request. -/
def valueLines (o : Options) : Option Expr → List String
  | none => []
  | some e => e.inspect :: if o.evaluate = true then numberLines e else []

/-- The issue of an expression whose number is requested: its first free name. -/
def valueIssue? (o : Options) (e : Expr) : Option Issue :=
  if o.evaluate = true then e.free.head?.map .unbound else none

/-- Showing an expression has the result `conclusion` and prints `valueLines`. -/
theorem ends_showValue {room : Nat} {o : Options} {e : Expr} {c : Console} (hc : c.Ready)
    (he : e.isWritable = true) :
    Ends (showValue (expressionsWithin room) o e) c (conclusion o (some e))
      (valueLines o (some e)) (told c.dice (valueIssue? o e)) := by
  have hwork : perform (showValue (expressionsWithin room) o e) c =
      perform (if o.evaluate = true then showNumber (expressionsWithin room) e else pure 0)
        (c.shown [e.inspect]) := by
    have hline : (expressionsWithin room).inspect? e = some e.inspect := if_pos he
    rw [showValue, perform_bind, hc.perform_printIssues, hline]
    exact perform_print_bind _ _ c
  rw [conclusion, valueLines, valueIssue?]
  cases hevaluate : o.evaluate with
  | true =>
    rw [hevaluate] at hwork
    exact (ends_showNumber (hc.shown [e.inspect])).of_shown hwork
  | false =>
    rw [hevaluate] at hwork
    exact ends_of_shown hwork

section Conclusion

variable {o : Options} {e? : Option Expr}

/-- The status is 0 exactly for an expression whose number, if requested, exists and can be
written. -/
theorem conclusion_eq_zero_iff :
    conclusion o e? = .ok 0 ↔
      ∃ e, e? = some e ∧ (o.evaluate = true → e.Closed ∧ ¬Overlong e) := by
  cases e? with
  | none => simp [conclusion]
  | some e =>
    rw [conclusion, numberResult]
    split_ifs <;> simp_all

/-- The status is 1 exactly without an expression, or with a requested number that free names
prevent. -/
theorem conclusion_eq_one_iff :
    conclusion o e? = .ok 1 ↔ ∀ e, e? = some e → o.evaluate = true ∧ ¬e.Closed := by
  cases e? with
  | none => simp [conclusion]
  | some e =>
    rw [conclusion, numberResult]
    split_ifs <;> simp_all

/-- The work is interrupted exactly by a requested number that cannot be written. -/
theorem conclusion_eq_error_iff :
    conclusion o e? = .error .longResult ↔
      ∃ e, e? = some e ∧ o.evaluate = true ∧ e.Closed ∧ Overlong e := by
  cases e? with
  | none => simp [conclusion]
  | some e =>
    rw [conclusion, numberResult]
    split_ifs <;> simp_all

end Conclusion

/-! ### Reading -/

/-- Reading is followed by showing the expression, or by printing the issues without one. -/
theorem perform_readAndShow (room : Nat) (o : Options) (text : String) (c : Console) :
    perform (readAndShow (expressionsWithin room) o text) c =
      match perform (Console.read (Expr.parser room) text) c with
      | (.ok (some e), c') => perform (showValue (expressionsWithin room) o e) c'
      | (.ok none, c') => perform (printIssues >>= fun _ ↦ pure 1) c'
      | (.error i, c') => (.error i, c') := by
  have hentry : (expressionsWithin room).entry = Expr.parser room := rfl
  rw [readAndShow, perform_bind, hentry]
  rcases perform (Console.read (Expr.parser room) text) c with ⟨i | a | e, c'⟩
  · rfl
  · rfl
  · rfl

/-- The line of a result: the source of its expression, a tab and the spelling of its leftover
tokens. -/
def resultLine (r : Expr × List Token) : String := r.1.source ++ "\t[" ++ Token.spell r.2 ++ "]"

/-- The lines printed in front of the expression: the tokens and the results, each on request. -/
def listing (o : Options) (ts : List Token) (rs : List (Expr × List Token)) : List String :=
  (if o.tokens = true then ts.map Token.inspect else []) ++
    if o.all = true then rs.map resultLine else []

/-- The issue of a text, or else that of its expression. -/
def toldIssue? (o : Options) (text : String) (ts : List Token) (rs : List (Expr × List Token)) :
    Option Issue :=
  match firstValue? rs with
  | none => firstIssue? text ts rs
  | some e => valueIssue? o e

/-- A text has an issue exactly if its status is 1. -/
theorem toldIssue?_isSome_iff {o : Options} {text : String} {ts : List Token}
    {rs : List (Expr × List Token)} :
    (toldIssue? o text ts rs).isSome ↔ conclusion o (firstValue? rs) = .ok 1 := by
  rw [conclusion_eq_one_iff, toldIssue?]
  cases he : firstValue? rs with
  | none =>
    have hsome : (firstIssue? text ts rs).isSome := firstIssue?_isSome_iff.mpr he
    simp [hsome]
  | some e =>
    cases hevaluate : o.evaluate with
    | false => simp [valueIssue?, hevaluate]
    | true => cases hfree : e.free <;> simp [valueIssue?, hevaluate, hfree, Expr.Closed]

section Reading

variable {room : Nat} {o : Options} {text : String} {ts : List Token}
  {rs : List (Expr × List Token)} {c : Console} (hts : Token.scan text = .ok ts)
  (hrs : (Expr.parser room).results ts = .ok rs)
include hts hrs

/-- The leftover tokens of a result are canonical. -/
private theorem canonical_of_mem {r : Expr × List Token} (hr : r ∈ rs) {t : Token} (ht : t ∈ r.2) :
    t.Canonical := by
  obtain ⟨-, rfl⟩ := Parser.results_eq_ok_iff.mp hrs
  have hsuffix : r.2 <:+ ts := (Expr.parser_reads room).suffix hr
  exact Token.canonical_of_scan hts t (hsuffix.subset ht)

/-- The line of every result of a text can be written. -/
theorem resultLine?_of_mem {r : Expr × List Token} (hr : r ∈ rs) :
    resultLine? (expressionsWithin room) r = some (resultLine r) := by
  have hsource : (expressionsWithin room).text? r.1 = some r.1.source :=
    if_pos (Expr.printable_of_mem_results hts hrs hr).isWritable
  have hspell : Token.spell? r.2 = some (Token.spell r.2) :=
    if_pos (List.all_eq_true.mpr fun t ht ↦ (canonical_of_mem hts hrs hr ht).isWritable)
  rw [resultLine?, hsource, hspell]
  rfl

/-- Every constant of the expression read from a text can be written. -/
theorem isWritable_of_firstValue? {e : Expr} (he : firstValue? rs = some e) :
    e.isWritable = true := by
  obtain ⟨r, hr, rfl⟩ := Option.map_eq_some_iff.mp he
  have hmem : r ∈ rs := List.mem_of_head? (Option.eq_some_of_filter_eq_some hr)
  exact (Expr.printable_of_mem_results hts hrs hmem).isWritable

/-- The outcome of reading a text has the issue and the value of its first result. -/
theorem outcome_of_results :
    (Backtrack.Outcome.of (Expr.parser room) text).issue? text = firstIssue? text ts rs ∧
      (Backtrack.Outcome.of (Expr.parser room) text).answer = .ok (firstValue? rs) := by
  obtain ⟨hi, ha⟩ := Backtrack.Outcome.ofResults_verdict text ts rs
  obtain ⟨-, rfl⟩ := Parser.results_eq_ok_iff.mp hrs
  have horder := Expr.parser_longestFirst room ts
  rw [Backtrack.Outcome.of_ok hts hrs, hi, ha, issue?_ofResults horder, value?_ofResults horder]
  exact ⟨rfl, rfl⟩

/-- A text that is an expression is read without an issue, and its expression is shown. -/
theorem perform_readAndShow_of_some {e : Expr} (he : firstValue? rs = some e) :
    perform (readAndShow (expressionsWithin room) o text) c =
      perform (showValue (expressionsWithin room) o e)
        (c.aside (readingNotes (Expr.parser room) text)) := by
  obtain ⟨hi, ha⟩ := outcome_of_results hts hrs
  have hnone : firstIssue? text ts rs = none := by
    by_contra hsome
    have hnovalue : firstValue? rs = none :=
      firstIssue?_isSome_iff.mp (Option.isSome_iff_ne_none.mpr hsome)
    rw [he] at hnovalue
    cases hnovalue
  rw [perform_readAndShow, perform_read, Backtrack.Outcome.settle_of_none (hi.trans hnone), ha, he]

/-- A text that is no expression has one issue, which reading gives up with. -/
theorem perform_readAndShow_of_none (hc : c.Ready) (he : firstValue? rs = none) {i : Issue}
    (hissue : firstIssue? text ts rs = some i) :
    perform (readAndShow (expressionsWithin room) o text) c =
      perform (giveUp i) (c.aside (readingNotes (Expr.parser room) text)) := by
  obtain ⟨hi, ha⟩ := outcome_of_results hts hrs
  have hc' := hc.aside (readingNotes (Expr.parser room) text)
  rw [perform_readAndShow, perform_read,
    Backtrack.Outcome.settle_of_some (hi.trans hissue) (ha.trans (congrArg Except.ok he)),
    hc'.isFull_add i, perform_giveUp hc']
  change perform (printIssues >>= fun _ ↦ pure 1) _ = _
  rw [perform_bind, hc'.perform_printIssues_add]
  rfl

/-- Reading a text and showing its expression has the result `conclusion`, prints `valueLines` and
tells `toldIssue?`. -/
theorem ends_readAndShow (hc : c.Ready) :
    Ends (readAndShow (expressionsWithin room) o text) c (conclusion o (firstValue? rs))
      (valueLines o (firstValue? rs))
      ((if c.report.verbose = true then readingNotes (Expr.parser room) text else "") ++
        told c.dice (toldIssue? o text ts rs)) := by
  have hc' := hc.aside (readingNotes (Expr.parser room) text)
  have hdice : (c.aside (readingNotes (Expr.parser room) text)).dice = c.dice := by
    rw [aside_eq]
  rw [toldIssue?, ← hdice]
  cases he : firstValue? rs with
  | none =>
    have hsome : (firstIssue? text ts rs).isSome := firstIssue?_isSome_iff.mpr he
    obtain ⟨i, hissue⟩ := Option.isSome_iff_exists.mp hsome
    simp only [hissue]
    exact (ends_of_explained (perform_giveUp hc' i)).of_aside
      (perform_readAndShow_of_none hts hrs hc he hissue)
  | some e =>
    have hvalue : Ends (showValue (expressionsWithin room) o e) _ _ _ _ :=
      ends_showValue hc' (isWritable_of_firstValue? hts hrs he)
    exact hvalue.of_aside (perform_readAndShow_of_some hts hrs he)

/-- Processing a text prints the requested listing in front of what reading and showing it
prints. -/
theorem ends_process (hc : c.Ready) :
    Ends (process (expressionsWithin room) o text) c (conclusion o (firstValue? rs))
      (listing o ts rs ++ valueLines o (firstValue? rs))
      ((if c.report.verbose = true then readingNotes (Expr.parser room) text else "") ++
        told c.dice (toldIssue? o text ts rs)) := by
  have hlisted : (expressionsWithin room).listed.results ts = .ok rs := hrs
  have hwork : perform (process (expressionsWithin room) o text) c =
      perform (readAndShow (expressionsWithin room) o text) (c.shown (listing o ts rs)) := by
    have htoken : ∀ t ∈ ts, t.inspect? = some t.inspect := fun t ht ↦
      if_pos (Token.canonical_of_scan hts t ht).isWritable
    rw [process, perform_bind, perform_scan, hts]
    simp only [hlisted]
    rw [forM_printWritten htoken, forM_printWritten fun r ↦ resultLine?_of_mem hts hrs,
      perform_ite_forM_print o.tokens Token.inspect ts,
      perform_ite_forM_print o.all resultLine rs, shown_shown]
    rfl
  exact (ends_readAndShow hts hrs (hc.shown _)).of_shown hwork

end Reading

/-! ### The lines of the results -/

/-- A line that ends in a tab and empty brackets. -/
def EndsEmpty (line : String) : Prop := ∃ front, line = front ++ "\t[]"

/-- The line of a result ends in a tab and empty brackets exactly if the result has no leftover
tokens: no canonical token has a tab in its text. -/
theorem endsEmpty_resultLine_iff {r : Expr × List Token} (h : ∀ t ∈ r.2, t.Canonical) :
    EndsEmpty (resultLine r) ↔ r.2 = [] := by
  have hline : (resultLine r).toList =
      (r.1.source.toList ++ ['\t']) ++ ('[' :: Token.spelling r.2) ++ [']'] := by
    simp [resultLine, Token.spell, String.toList_append]
  constructor
  · rintro ⟨front, hfront⟩
    by_contra hne
    have hspelling : Token.spelling r.2 ≠ [] := fun hnil ↦
      hne ((Token.spelling_eq_nil_iff h).mp hnil)
    rw [hfront, String.toList_append] at hline
    have hline' : (front.toList ++ ['\t', '[']) ++ [']'] =
        (r.1.source.toList ++ ['\t']) ++ ('[' :: Token.spelling r.2) ++ [']'] :=
      (List.append_assoc _ _ _).trans hline
    have hcut := List.append_cancel_right hline'
    have hsuffix : ['\t', '['] <:+ '[' :: Token.spelling r.2 := by
      apply List.suffix_of_suffix_length_le ⟨front.toList, hcut⟩ (List.suffix_append _ _)
      exact Nat.succ_le_succ (List.length_pos_iff.mpr hspelling)
    rcases List.mem_cons.mp (hsuffix.subset List.mem_cons_self) with htab | htab
    · exact absurd htab (by decide)
    · exact absurd (Token.eq_space_of_mem_spelling h htab (by simp [Text.isBlank])) (by decide)
  · intro hnil
    have hspell : Token.spell r.2 = "" := by
      rw [hnil]
      rfl
    refine ⟨r.1.source, ?_⟩
    rw [resultLine, hspell, String.append_empty, String.append_assoc]
    rfl

section Results

variable {room : Nat} {text : String} {ts : List Token} {rs : List (Expr × List Token)}
  (hts : Token.scan text = .ok ts) (hrs : (Expr.parser room).results ts = .ok rs)
include hts hrs

omit hts in
/-- The values of all complete results are the value of the first result, if that is complete, and
none otherwise. -/
theorem complete_eq_firstValue? : (Expr.parser room).complete ts = .ok (firstValue? rs).toList := by
  refine Parser.complete_eq_ok_iff.mpr ⟨rs, hrs, ?_⟩
  obtain ⟨-, rfl⟩ := Parser.results_eq_ok_iff.mp hrs
  rw [filter_isEmpty (Expr.parser_longestFirst room ts), firstValue?]
  cases ((Expr.parser room).run ts).entries.head?.filter (·.2.isEmpty) <;> rfl

/-- The tokens are an expression exactly if the line of some result ends in empty brackets. -/
theorem exists_endsEmpty_iff :
    (∃ line ∈ rs.map resultLine, EndsEmpty line) ↔ (firstValue? rs).isSome := by
  constructor
  · rintro ⟨_, hline, hempty⟩
    obtain ⟨r, hr, rfl⟩ := List.mem_map.mp hline
    have hnil := (endsEmpty_resultLine_iff fun t ↦ canonical_of_mem hts hrs hr).mp hempty
    have hhead : rs.head? = some r :=
      (Expr.parser_longestFirst room).head?_of_leftover_nil hrs hr hnil
    simp [firstValue?, hhead, hnil]
  · intro hsome
    cases rs with
    | nil => cases hsome
    | cons r rs =>
      have hnil : r.2 = [] := by
        by_contra hne
        simp [firstValue?, hne] at hsome
      refine ⟨resultLine r, List.mem_cons_self, ?_⟩
      exact (endsEmpty_resultLine_iff fun t ↦ canonical_of_mem hts hrs List.mem_cons_self).mpr hnil

/-- No line of a result after the first ends in empty brackets. -/
theorem eq_zero_of_endsEmpty {k : Nat} {line : String}
    (hk : (rs.map resultLine)[k]? = some line) (hempty : EndsEmpty line) : k = 0 := by
  rw [List.getElem?_map, Option.map_eq_some_iff] at hk
  obtain ⟨r, hk, rfl⟩ := hk
  have hr : r ∈ rs := List.mem_of_getElem? hk
  have hnil := (endsEmpty_resultLine_iff fun t ↦ canonical_of_mem hts hrs hr).mp hempty
  by_contra hpos
  obtain ⟨-, rfl⟩ := Parser.results_eq_ok_iff.mp hrs
  obtain ⟨hlt, rfl⟩ := List.getElem?_eq_some_iff.mp hk
  have hless := List.pairwise_iff_getElem.mp (Expr.parser_longestFirst room ts) 0 k
    (Nat.lt_of_le_of_lt (Nat.zero_le k) hlt) hlt (Nat.pos_of_ne_zero hpos)
  rw [hnil] at hless
  exact Nat.not_lt_zero _ hless

end Results

/-! ### The program -/

/-- The program works on the text or the file that its arguments ask for. -/
theorem program_of_asked {α β : Type} {arguments : List String} {o : Options}
    (hasked : asked arguments = .ok (.options o)) (hne : o ≠ .none) (lang : Language α β)
    (files : Path → ReadResult) (dice : Dice) :
    program lang files dice arguments =
      let done := perform (run lang files o)
        (Console.fresh (.empty (o.verbosity != 0) Report.defaultLimit) dice)
      ⟨done.1.map some, done.2.out, done.2.err⟩ := by
  have harguments : arguments.isEmpty = false := by
    cases arguments with
    | cons a as => rfl
    | nil => exact absurd (Asked.options.inj (Except.ok.inj hasked)).symm hne
  rw [program, harguments, hasked]
  rfl

/-- Given a text among its arguments, the program processes that text. -/
theorem program_eq {α β : Type} {arguments : List String} {o : Options} {text : String}
    (hasked : asked arguments = .ok (.options o)) (hfile : o.file? = none)
    (hsource : o.source? = some text) (lang : Language α β) (files : Path → ReadResult)
    (dice : Dice) :
    program lang files dice arguments =
      let done := perform (process lang o text)
        (Console.fresh (.empty (o.verbosity != 0) Report.defaultLimit) dice)
      ⟨done.1.map some, done.2.out, done.2.err⟩ := by
  have hne : o ≠ .none := by
    rintro rfl
    cases hsource
  have hrun : run lang files o = process lang o text := by
    rw [run, hfile, hsource]
  rw [program_of_asked hasked hne, hrun]

/-- What the program prints, and how it ends, for a text among its arguments. If the text has a
numeral that is too long to be read, that interrupts the work before anything is printed. If not,
and if there is room for the nested parts, then the tokens are one expression or none. The tokens
and the results are printed if they are asked for, and then the structure of the expression, if
there is one, and its number, if that is asked for and there are no free names. The status is 0
with an expression, whose number is asked for only where it has one, and 1 otherwise, and then
exactly one issue is told; only a number with too many digits interrupts the work instead. That
there is an expression shows in the lines of the results, too, and there in the first line only. -/
theorem source_outcome {arguments : List String} {o : Options} {text : String}
    (hasked : asked arguments = .ok (.options o)) (hfile : o.file? = none)
    (hsource : o.source? = some text) (room : Nat) (files : Path → ReadResult) (dice : Dice) :
    let done := program (expressionsWithin room) files dice arguments
    (∀ e, Token.scan text = .error e → done = ⟨.error (.longNumeral e), "", ""⟩) ∧
      ∀ ts rs, Token.scan text = .ok ts → (Expr.parser room).results ts = .ok rs →
        ∃ e? : Option Expr, (Expr.parser room).complete ts = .ok e?.toList ∧
          done.out = lines (listing o ts rs ++ valueLines o e?) ∧
          (done.status = .ok (some 0) ↔
            ∃ e, e? = some e ∧ (o.evaluate = true → e.Closed ∧ ¬Overlong e)) ∧
          (done.status = .ok (some 1) ↔ ∀ e, e? = some e → o.evaluate = true ∧ ¬e.Closed) ∧
          (done.status = .error .longResult ↔
            ∃ e, e? = some e ∧ o.evaluate = true ∧ e.Closed ∧ Overlong e) ∧
          done.err = (if o.verbosity ≠ 0 then readingNotes (Expr.parser room) text else "") ++
            told dice (toldIssue? o text ts rs) ∧
          ((toldIssue? o text ts rs).isSome ↔ done.status = .ok (some 1)) ∧
          ((∃ line ∈ rs.map resultLine, EndsEmpty line) ↔ e?.isSome) ∧
          ∀ (k : Nat) line, (rs.map resultLine)[k]? = some line → EndsEmpty line →
            k = 0 := by
  intro done
  have hdone : done = _ := program_eq hasked hfile hsource (expressionsWithin room) files dice
  refine ⟨fun e hts ↦ ?_, fun ts rs hts hrs ↦ ?_⟩
  · rw [hdone, process, perform_bind, perform_scan, hts]
    rfl
  · have hlimit : Report.defaultLimit ≠ 1 := by decide
    have hready : (Console.fresh (.empty (o.verbosity != 0) Report.defaultLimit) dice).Ready :=
      ⟨rfl, hlimit⟩
    obtain ⟨hresult, hout, herr⟩ := ends_process (o := o) hts hrs hready
    have hstatus (r : Except Interruption Nat) :
        done.status = r.map some ↔ conclusion o (firstValue? rs) = r := by
      rw [hdone]
      change (perform (process (expressionsWithin room) o text) _).1.map some = _ ↔ _
      rw [hresult]
      cases conclusion o (firstValue? rs) <;> cases r <;> simp [Except.map]
    refine ⟨firstValue? rs, complete_eq_firstValue? hrs, ?_, ?_, ?_, ?_, ?_, ?_,
      exists_endsEmpty_iff hts hrs, fun k line ↦ eq_zero_of_endsEmpty hts hrs⟩
    · rw [hdone]
      exact hout.trans String.empty_append
    · exact (hstatus (.ok 0)).trans conclusion_eq_zero_iff
    · exact (hstatus (.ok 1)).trans conclusion_eq_one_iff
    · exact (hstatus (.error .longResult)).trans conclusion_eq_error_iff
    · rw [hdone]
      refine (herr.trans String.empty_append).trans ?_
      simp only [Console.fresh, Report.empty, bne_iff_ne]
    · exact toldIssue?_isSome_iff.trans (hstatus (.ok 1)).symm

/-- A text that is an expression, but has no number. -/
theorem source_outcome_unbound :
    let arguments := written [.all, .evaluate] "let x = y in x"
    asked arguments = .ok (.options (.ofFlags [.all, .evaluate] "let x = y in x")) ∧
      (program expressions (fun _ ↦ .missing) ⟨[], 0⟩ arguments).status = .ok (some 1) := by
  intro arguments
  have hchoice : ∀ flag ∈ [Flag.all, Flag.evaluate], flag.isChoice = true := by decide
  have hasked := asked_written hchoice "let x = y in x"
  let d : Expr.ExprDerivation :=
    .letIn (.letIn ⟨"x", by decide⟩ (.sum (.name ⟨"y", by decide⟩) .nil)
      (.sum (.name ⟨"x", by decide⟩) .nil))
  have hts : Token.scan "let x = y in x" = .ok d.tokens := by
    have hcanonical : ∀ t ∈ d.tokens, t.Canonical := by decide +kernel
    have hspell : Token.spell d.tokens = "let x = y in x" := rfl
    rw [← hspell]
    exact Token.scan_spell_of_canonical hcanonical
  have hends : (Expr.parser Expr.room).EndsOn d.tokens := Expr.parser_endsOn (by decide)
  have hrs := Parser.results_eq_ok_iff.mpr ⟨hends, rfl⟩
  obtain ⟨-, hok⟩ := source_outcome hasked rfl rfl Expr.room (fun _ ↦ .missing) ⟨[], 0⟩
  obtain ⟨e?, hcomplete, -, -, hone, -⟩ := hok _ _ hts hrs
  have he : e? = some d.value := by
    rcases Expr.complete_tokens Expr.room d with h | ⟨-, h⟩
    · exact Option.toList_eq_singleton_iff.mp (Except.ok.inj (hcomplete.symm.trans h))
    · exact absurd h (by decide)
  rw [expressions_eq]
  refine ⟨hasked, hone.mpr ?_⟩
  rintro e rfl
  obtain rfl := Option.some.inj he
  exact ⟨rfl, by decide⟩

end Backtrack.CommandLine
