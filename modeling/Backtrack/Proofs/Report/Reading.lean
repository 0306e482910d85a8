import Backtrack.Proofs.Expr.Order
import Backtrack.Report.Reading

/-!
# What reading a text records

Reading a text records at most one issue, which depends on the text and the parser alone, and
leaves the rest of the report as it was. `Console.report_read` says which report is left behind.
Expressions are read longest first, so that the first result alone decides about the issue, and
that a text can be read in several ways is never one.
-/

namespace Backtrack

/-- Whether the issue is that a text can be read in several ways. -/
def Issue.isAmbiguity : Issue → Bool
  | .ambiguous _ _ => true
  | _ => false

namespace Verdict

variable {α : Type}

/-- The issue that the first result comes to, if there is one. -/
def firstIssue? (text : String) (ts : List Token) : List (α × List Token) → Option Issue
  | [] => some (.noBeginning text)
  | x :: _ => if x.2.isEmpty then none else some (.stopsShort ts (Parser.consumed ts x))

/-- The value of the first result, if it leaves nothing over. -/
def firstValue? (rs : List (α × List Token)) : Option α :=
  (rs.head?.filter (·.2.isEmpty)).map (·.1)

/-- The first result has an issue exactly if it has no value. -/
theorem firstIssue?_isSome_iff {text : String} {ts : List Token} {rs : List (α × List Token)} :
    (firstIssue? text ts rs).isSome ↔ firstValue? rs = none := by
  cases rs with
  | nil => exact ⟨fun _ ↦ rfl, fun _ ↦ rfl⟩
  | cons x rs =>
    rw [firstIssue?, firstValue?, List.head?_cons, Option.filter_some]
    split <;> simp

/-- A first result that reads no less than the others is the longest. -/
theorem longest_cons {ts : List Token} {x : α × List Token} {rs : List (α × List Token)}
    (h : ∀ y ∈ rs, x.2.length ≤ y.2.length) :
    longest ts (x :: rs) = Parser.consumed ts x := by
  have hfold (n : Nat) (hn : ∀ y ∈ rs, Parser.consumed ts y ≤ n) :
      rs.foldl (fun n r ↦ max n (ts.length - r.2.length)) n = n := by
    clear h
    induction rs with
    | nil => rfl
    | cons y rs ih =>
      have hy : max n (ts.length - y.2.length) = n := Nat.max_eq_left (hn y List.mem_cons_self)
      rw [List.foldl_cons, hy]
      exact ih fun z hz ↦ hn z (List.mem_cons_of_mem y hz)
  rw [longest, List.foldl_cons, Nat.zero_max]
  exact hfold _ fun y hy ↦ Nat.sub_le_sub_left (h y hy) _

/-- Of longest-first results only the first can be complete. -/
theorem filter_isEmpty {rs : List (α × List Token)}
    (h : rs.Pairwise fun x y ↦ x.2.length < y.2.length) :
    rs.filter (·.2.isEmpty) = (rs.head?.filter (·.2.isEmpty)).toList := by
  cases rs with
  | nil => rfl
  | cons x rs =>
    have hlt := (List.pairwise_cons.mp h).1
    have hrest : rs.filter (·.2.isEmpty) = [] := by
      refine List.filter_eq_nil_iff.mpr fun y hy hnil ↦ ?_
      have := hlt y hy
      rw [List.isEmpty_iff.mp hnil] at this
      exact Nat.not_lt_zero _ this
    rw [List.filter_cons, hrest, List.head?_cons, Option.filter_some]
    split <;> rfl

/-- The issue of longest-first results is that of the first. -/
theorem issue?_ofResults {text : String} {ts : List Token} {rs : List (α × List Token)}
    (h : rs.Pairwise fun x y ↦ x.2.length < y.2.length) :
    (ofResults text ts rs).issue? = firstIssue? text ts rs := by
  rw [ofResults, filter_isEmpty h]
  cases rs with
  | nil => rfl
  | cons x rs =>
    have hlt := (List.pairwise_cons.mp h).1
    rw [List.head?_cons, Option.filter_some, firstIssue?]
    by_cases hx : x.2.isEmpty = true
    · rw [if_pos hx, if_pos hx]
      rfl
    · rw [if_neg hx, if_neg hx]
      change some (Issue.stopsShort ts (longest ts (x :: rs))) = _
      rw [longest_cons fun y hy ↦ Nat.le_of_lt (hlt y hy)]

/-- The value of longest-first results is that of the first. -/
theorem value?_ofResults {text : String} {ts : List Token} {rs : List (α × List Token)}
    (h : rs.Pairwise fun x y ↦ x.2.length < y.2.length) :
    (ofResults text ts rs).value? = firstValue? rs := by
  rw [ofResults, firstValue?, filter_isEmpty h]
  cases rs.head?.filter (·.2.isEmpty) with
  | some x => rfl
  | none =>
    cases rs with
    | nil => rfl
    | cons x rs => rfl

/-- The issue of a first result is never an ambiguity. -/
theorem isAmbiguity_firstIssue? {text : String} {ts : List Token} {rs : List (α × List Token)}
    {i : Issue} (h : firstIssue? text ts rs = some i) : i.isAmbiguity = false := by
  cases rs with
  | nil =>
    obtain rfl := Option.some.inj h
    rfl
  | cons x rs =>
    rw [firstIssue?] at h
    split at h
    · cases h
    · obtain rfl := Option.some.inj h
      rfl

end Verdict

namespace Console

variable {α β : Type}

/-! ### Work on a console step by step -/

/-- The result of work and the console after it. -/
def perform (work : Working α) (c : Console) : Except Interruption α × Console := work.run.run c

/-- Work in sequence goes on with its next part unless it is interrupted. -/
theorem perform_bind (work : Working α) (next : α → Working β) (c : Console) :
    perform (work >>= next) c = match perform work c with
      | (.ok a, c') => perform (next a) c'
      | (.error i, c') => (.error i, c') := by
  simp only [perform, ExceptT.run_bind, StateT.run_bind]
  cases work.run.run c with
  | mk r c' => cases r <;> rfl

/-- A note is printed besides the output if more should be said. -/
theorem perform_note (line : String) (c : Console) :
    perform (note line) c =
      (.ok (), if c.report.verbose then { c with err := c.err ++ line ++ "\n" } else c) := by
  rw [note, perform_bind]
  change perform (if c.report.verbose = true then printAside line else pure ()) c = _
  split <;> rfl

/-- Recording an issue adds it to the report, and interrupts the work if it is the one too many. -/
theorem perform_record (i : Issue) (c : Console) :
    perform (record i) c =
      (if (c.report.add i).isFull then .error .reportFull else .ok (),
        { c with report := c.report.add i }) := by
  rw [record, perform_bind]
  change perform (if (c.report.add i).isFull = true then throw .reportFull else pure ())
    { c with report := c.report.add i } = _
  split <;> rfl

/-- A value returned after an issue is lost if the issue is the one too many. -/
theorem perform_record_bind (i : Issue) (a : α) (c : Console) :
    perform (record i >>= fun _ ↦ pure a) c =
      (if (c.report.add i).isFull then .error .reportFull else .ok a,
        { c with report := c.report.add i }) := by
  rw [perform_bind, perform_record]
  cases (c.report.add i).isFull <;> rfl

/-- Scanning leaves the console unchanged. -/
theorem perform_scan (text : String) (c : Console) :
    perform (scan text) c =
      (match Token.scan text with
        | .ok ts => .ok ts
        | .error e => .error (.longNumeral e), c) := by
  rw [scan]
  cases Token.scan text <;> rfl

/-! ### Reading -/

/-- The issue that reading a text comes to, if there is one. -/
def readingIssue? (entry : Parser Token α) (text : String) : Option Issue :=
  match Token.scan text with
  | .error _ => none
  | .ok ts =>
    match entry.results ts with
    | .error .overflow => some (.tooNested ts.length)
    | .error _ => none
    | .ok rs => (Verdict.ofResults text ts rs).issue?

/-- A note leaves the report to the work behind it unchanged. -/
private theorem report_note_bind (line : String) (next : Unit → Working β) (c : Console)
    (r : Report → Report) (h : ∀ c, (perform (next ()) c).2.report = r c.report) :
    (perform (note line >>= next) c).2.report = r c.report := by
  rw [perform_bind, perform_note]
  change (perform (next ()) _).2.report = _
  rw [h]
  split <;> rfl

/-- Returning a value after an issue leaves the report as recorded. -/
private theorem report_record_bind (i : Issue) (a : α) (c : Console) :
    (perform (record i >>= fun _ ↦ pure a) c).2.report = c.report.add i := by
  rw [perform_record_bind]

/-- Handing on a verdict adds its issue to the report. -/
private theorem report_verdict (v : Verdict α) (c : Console) :
    (perform (do if let some i := v.issue? then record i
                 return v.value?) c).2.report = v.issue?.elim c.report c.report.add := by
  cases h : v.issue? with
  | none => rfl
  | some i => exact report_record_bind i _ c

/-- Reading adds its issue to the report and changes nothing else there. -/
theorem report_read (entry : Parser Token α) (text : String) (c : Console) :
    (perform (read entry text) c).2.report =
      (readingIssue? entry text).elim c.report c.report.add := by
  rw [read, perform_bind, perform_scan, readingIssue?]
  cases Token.scan text with
  | error e => rfl
  | ok ts =>
    simp only
    refine report_note_bind _ _ c (fun r ↦ Option.elim _ r r.add) fun c ↦ ?_
    cases entry.results ts with
    | error f =>
      cases f with
      | overflow => exact report_record_bind _ none c
      | _ => rfl
    | ok rs =>
      exact report_note_bind _ _ c (fun r ↦ Option.elim _ r r.add)
        (report_verdict (.ofResults text ts rs))

end Console

namespace Expr

open Console Backtrack.Parser Verdict

/-- The issue of a text read longest first is that of its first result. -/
theorem readingIssue?_of_results {room : Nat} {text : String} {ts : List Token}
    {rs : List (Expr × List Token)} (hts : Token.scan text = .ok ts)
    (hrs : (parser room).results ts = .ok rs) :
    readingIssue? (parser room) text = firstIssue? text ts rs := by
  rw [readingIssue?, hts]
  simp only [hrs]
  obtain ⟨-, rfl⟩ := results_eq_ok_iff.mp hrs
  exact issue?_ofResults (parser_longestFirst room ts)

/-- The issue of reading a text as an expression is never an ambiguity. -/
theorem isAmbiguity_readingIssue? {room : Nat} {text : String} {i : Issue}
    (h : readingIssue? (parser room) text = some i) : i.isAmbiguity = false := by
  cases hts : Token.scan text with
  | error e =>
    rw [readingIssue?, hts] at h
    cases h
  | ok ts =>
    cases hrs : (parser room).results ts with
    | error f =>
      rw [readingIssue?, hts] at h
      simp only [hrs] at h
      cases f <;> cases h
      rfl
    | ok rs =>
      rw [readingIssue?_of_results hts hrs] at h
      exact isAmbiguity_firstIssue? h

/-- Reading a text as an expression records no ambiguity. -/
theorem issues_read (room : Nat) (text : String) (c : Console) :
    ∃ new, (perform (read (parser room) text) c).2.report.issues = c.report.issues ++ new ∧
      ∀ i ∈ new, i.isAmbiguity = false := by
  rw [report_read]
  cases hi : readingIssue? (parser room) text with
  | none => exact ⟨[], (List.append_nil _).symm, fun i hi ↦ absurd hi List.not_mem_nil⟩
  | some i =>
    refine ⟨[i], rfl, ?_⟩
    intro j hj
    rw [List.mem_singleton.mp hj]
    exact isAmbiguity_readingIssue? hi

/-- Expressions, local definitions, terms and continuations are read longest first, and an atom
in one way at most. Therefore reading a text as an expression never records an ambiguity, and
where a text that scans has results, these alone decide: no result is a text without a beginning,
and a first result that leaves tokens over is where the text stops making sense. -/
theorem unambiguous_longest_first (room : Nat) :
    (∀ ts, Descends (parser room) room ts ∧ Descends (letOf (parser room)) room ts ∧
      Descends (termOf (parser room)) room ts ∧ Descends (restOf (parser room)) room ts ∧
      Descends (atomOf (parser room)) room ts ∧
      ∀ rs, (atomOf (parser room)).results ts = .ok rs → rs.length ≤ 1) ∧
    (∀ text c, ∃ new, (perform (read (parser room) text) c).2.report.issues =
      c.report.issues ++ new ∧ ∀ i ∈ new, i.isAmbiguity = false) ∧
    ∀ text ts rs, Token.scan text = .ok ts → (parser room).results ts = .ok rs →
      ∀ c, (perform (read (parser room) text) c).2.report =
        (firstIssue? text ts rs).elim c.report c.report.add := by
  constructor
  · intro ts
    obtain ⟨hexpr, hlet, hterm, hrest, hatom⟩ := descends_grammar room ts
    refine ⟨hexpr, hlet, hterm, hrest, hatom, ?_⟩
    intro rs h
    obtain ⟨-, rfl⟩ := results_eq_ok_iff.mp h
    exact atMostOne_atomOf (parser_reads room) (parser_longestFirst room) ts
  constructor
  · exact issues_read room
  · intro text ts rs hts hrs c
    rw [report_read, readingIssue?_of_results hts hrs]

end Expr
end Backtrack
