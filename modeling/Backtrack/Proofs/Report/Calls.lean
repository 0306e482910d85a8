import Backtrack.Proofs.Report.Printing
import Backtrack.Report.Call
import Mathlib.Data.List.Count

/-!
# A report over many calls

Whatever is asked of a report, and however often that interrupts the work, it has exactly the issues
that were recorded, in order. `Call.Comes` says what comes of a single call and `Call.perform_work`
what it changes; `calls_on_report` is about any number of calls.
-/

namespace Backtrack

open Console

/-- The issue that a call records. -/
def Call.issue? : Call → Option Issue
  | record i => some i
  | _ => none

/-- The issues that calls record, in the order of the calls. -/
def Call.recorded (calls : List Call) : List Issue := calls.filterMap Call.issue?

/-- The issue of the first call precedes those of the others. -/
theorem Call.recorded_cons (call : Call) (calls : List Call) :
    recorded (call :: calls) = call.issue?.toList ++ recorded calls := by
  cases call <;> rfl

/-- A call records an issue exactly if it reports that issue. -/
theorem Call.issue?_eq_some_iff {call : Call} {i : Issue} :
    call.issue? = some i ↔ call = .record i := by
  cases call <;> simp [issue?]

/-- Calls record issues exactly if one of them reports an issue. -/
theorem Call.recorded_ne_nil_iff {calls : List Call} :
    recorded calls ≠ [] ↔ ∃ i, .record i ∈ calls := by
  rw [← List.length_pos_iff, List.length_pos_iff_exists_mem]
  simp only [recorded, List.mem_filterMap, issue?_eq_some_iff, exists_eq_right]

/-- One more call appends the issue that it records. -/
theorem Call.recorded_take_succ {calls : List Call} {n : Nat} {call : Call}
    (h : calls[n]? = some call) :
    recorded (calls.take (n + 1)) = recorded (calls.take n) ++ call.issue?.toList := by
  rw [List.take_add_one, h, recorded, List.filterMap_append, ← recorded]
  cases call <;> rfl

namespace Console

variable {α : Type}

/-! ### Work that only says something -/

/-- The work is not interrupted, and it leaves the report as it is. -/
def KeepsReport (work : Working α) : Prop :=
  ∀ c, ∃ a c', perform work c = (.ok a, c') ∧ c'.report = c.report

/-- Saying what is going on keeps the report. -/
theorem keepsReport_note (line : String) : KeepsReport (note line) :=
  fun c ↦ ⟨(), _, perform_note line c, by split <;> rfl⟩

/-- Telling the issues keeps the report. -/
theorem keepsReport_printIssues : KeepsReport printIssues :=
  fun c ↦ ⟨(), c.issuesTold, perform_printIssues c, c.issuesTold_eq.1⟩

/-- Requiring a report without issues to be clean does nothing. -/
theorem perform_requireClean_of_nil {c : Console} (h : c.report.issues = [])
    (message : String) : perform (requireClean message) c = (.ok (), c) := by
  rw [requireClean, perform_bind]
  change perform (if c.report.hasIssues = true then _ else pure ()) c = _
  rw [Report.hasIssues, h]
  rfl

/-- Requiring a report with issues to be clean tells them and interrupts the work. -/
theorem perform_requireClean_of_ne_nil {c : Console} (h : c.report.issues ≠ [])
    (message : String) :
    ∃ words c', perform (requireClean message) c =
      (.error (.unresolved (words ++ " " ++ message)), c') ∧ c'.report = c.report := by
  obtain ⟨_, c₁, htold, hreport⟩ := keepsReport_printIssues c
  have hissues : c.report.hasIssues = true := (Report.hasIssues_iff _).mpr h
  refine ⟨(Exclamation.draw c₁.dice).1, { c₁ with dice := (Exclamation.draw c₁.dice).2 }, ?_,
    hreport⟩
  rw [requireClean, perform_bind]
  change perform (if c.report.hasIssues = true then printIssues >>= fun _ ↦ _ else pure ()) c = _
  rw [if_pos hissues, perform_bind, htold]
  rfl

end Console

/-! ### One call -/

namespace Call

/-- The possible results of a call on a report. -/
inductive Comes (r : Report) : Call → Except Interruption Unit → Prop where
  /-- An issue that makes them as many as the limit interrupts the work. -/
  | full (i : Issue) : (r.issues.length : Int) + 1 = r.limit →
    Comes r (record i) (.error .reportFull)
  /-- Any other issue does not interrupt the work, not even one beyond the limit. -/
  | recorded (i : Issue) : (r.issues.length : Int) + 1 ≠ r.limit → Comes r (record i) (.ok ())
  /-- Saying what is going on does not interrupt the work. -/
  | note (line : String) : Comes r (note line) (.ok ())
  /-- Telling the issues does not interrupt the work. -/
  | printIssues : Comes r printIssues (.ok ())
  /-- Requiring a clean report without issues does not interrupt the work. -/
  | clean (message : String) : r.issues = [] → Comes r (requireClean message) (.ok ())
  /-- Requiring a clean report with issues interrupts the work. -/
  | unclean (message words : String) : r.issues ≠ [] →
    Comes r (requireClean message) (.error (.unresolved (words ++ " " ++ message)))

/-- A call adds the issue that it records to the report and changes nothing else there, whether or
not it interrupts the work. -/
theorem perform_work (call : Call) (c : Console) :
    Comes c.report call (perform call.work c).1 ∧
      (perform call.work c).2.report =
        { c.report with issues := c.report.issues ++ call.issue?.toList } := by
  -- A report that is kept is one to which no issue is added.
  have hsame {c' : Console} (h : c'.report = c.report) :
      c'.report = { c.report with issues := c.report.issues ++ [] } := by
    rw [h, List.append_nil]
  cases call with
  | record i =>
    rw [work, perform_record]
    refine ⟨?_, rfl⟩
    by_cases hfull : (c.report.issues.length : Int) + 1 = c.report.limit
    · rw [if_pos ((c.report.isFull_add_iff i).mpr hfull)]
      exact .full i hfull
    · rw [if_neg fun h ↦ hfull ((c.report.isFull_add_iff i).mp h)]
      exact .recorded i hfull
  | note line =>
    obtain ⟨_, c', hwork, hreport⟩ := keepsReport_note line c
    rw [work, hwork]
    exact ⟨.note line, hsame hreport⟩
  | printIssues =>
    obtain ⟨_, c', hwork, hreport⟩ := keepsReport_printIssues c
    rw [work, hwork]
    exact ⟨.printIssues, hsame hreport⟩
  | requireClean message =>
    by_cases hissues : c.report.issues = []
    · rw [work, perform_requireClean_of_nil hissues]
      exact ⟨.clean message hissues, hsame rfl⟩
    · obtain ⟨words, c', hwork, hreport⟩ := perform_requireClean_of_ne_nil hissues message
      rw [work, hwork]
      exact ⟨.unclean message words hissues, hsame hreport⟩

variable {r : Report} {call : Call} {result : Except Interruption Unit}

/-- A call is interrupted by a full report exactly if it records the issue that makes them as many
as the limit. -/
theorem Comes.eq_reportFull_iff (h : Comes r call result) :
    result = .error .reportFull ↔
      call.issue?.isSome ∧ (r.issues.length : Int) + 1 = r.limit := by
  cases h with
  | full i hfull => simp [hfull, issue?]
  | recorded i hfull => simp [hfull]
  | note line => simp [issue?]
  | printIssues => simp [issue?]
  | clean message hissues => simp [issue?]
  | unclean message words hissues => simp [issue?]

/-- A call is interrupted by unresolved issues exactly if it requires a clean report that has
issues. -/
theorem Comes.eq_unresolved_iff (h : Comes r call result) :
    (∃ text, result = .error (.unresolved text)) ↔
      (∃ message, call = .requireClean message) ∧ r.issues ≠ [] := by
  cases h with
  | full i hfull => simp
  | recorded i hfull => simp
  | note line => simp
  | printIssues => simp
  | clean message hissues => simp [hissues]
  | unclean message words hissues => simp [hissues]

/-- A call is interrupted by a full report or by unresolved issues, or not at all. -/
theorem Comes.eq_or (h : Comes r call result) :
    result = .ok () ∨ result = .error .reportFull ∨
      ∃ text, result = .error (.unresolved text) := by
  cases h with
  | full i hfull => exact .inr (.inl rfl)
  | recorded i hfull => exact .inl rfl
  | note line => exact .inl rfl
  | printIssues => exact .inl rfl
  | clean message hissues => exact .inl rfl
  | unclean message words hissues => exact .inr (.inr ⟨_, rfl⟩)

end Call

/-! ### Many calls -/

namespace Console

open Call

/-- The console after calls, whether or not they were interrupted. -/
def after (c : Console) (calls : List Call) : Console :=
  calls.foldl (fun c call ↦ (perform call.work c).2) c

/-- What comes of calls that are made one after another, whether or not those before were
interrupted. -/
def outcomes : Console → List Call → List (Except Interruption Unit)
  | _, [] => []
  | c, call :: calls => (perform call.work c).1 :: outcomes (perform call.work c).2 calls

/-- Calls append the issues that they record to the report, and change nothing else there. -/
theorem report_after (c : Console) (calls : List Call) :
    (c.after calls).report =
      { c.report with issues := c.report.issues ++ recorded calls } := by
  induction calls generalizing c with
  | nil => rw [recorded, List.filterMap_nil, List.append_nil]; rfl
  | cons call calls ih =>
    rw [after, List.foldl_cons, ← after, ih, (perform_work call c).2, recorded_cons,
      List.append_assoc]

/-- The outcome of a call is that on the console which the calls before it leave behind. -/
theorem outcomes_getElem? (c : Console) (calls : List Call) (n : Nat) :
    (c.outcomes calls)[n]? =
      calls[n]?.map fun call ↦ (perform call.work (c.after (calls.take n))).1 := by
  induction calls generalizing c n with
  | nil => rfl
  | cons call calls ih =>
    cases n with
    | zero => rfl
    | succ n => exact ih (perform call.work c).2 n

/-- A full report interrupts exactly one of the calls if these take the number of issues from below
the limit to it, and none otherwise. -/
theorem count_reportFull (c : Console) (calls : List Call) :
    (c.outcomes calls).count (.error .reportFull) =
      if (c.report.issues.length : Int) < c.report.limit ∧
        c.report.limit ≤ c.report.issues.length + (recorded calls).length then 1 else 0 := by
  induction calls generalizing c with
  | nil =>
    rw [outcomes, List.count_nil, recorded, List.filterMap_nil, List.length_nil, if_neg (by omega)]
  | cons call calls ih =>
    -- A call adds one issue at most, so the number of them cannot get past the limit unmet.
    obtain ⟨hcomes, hreport⟩ := perform_work call c
    have hlimit : (perform call.work c).2.report.limit = c.report.limit := by rw [hreport]
    have hlength : (perform call.work c).2.report.issues.length =
        c.report.issues.length + call.issue?.toList.length := by
      rw [hreport, List.length_append]
    rw [outcomes, List.count_cons, ih, hlimit, hlength, recorded_cons, List.length_append]
    cases hissue : call.issue? with
    | none =>
      have hother : (perform call.work c).1 ≠ .error .reportFull := by
        simp [hcomes.eq_reportFull_iff, hissue]
      rw [if_neg (mt beq_iff_eq.mp hother), Option.toList_none, List.length_nil, Nat.add_zero,
        Nat.add_zero, Nat.zero_add]
    | some i =>
      have hfull : (perform call.work c).1 == .error .reportFull ↔
          (c.report.issues.length : Int) + 1 = c.report.limit := by
        simp [hcomes.eq_reportFull_iff, hissue]
      rw [if_congr hfull rfl rfl, Option.toList_some, List.length_singleton]
      split_ifs <;> omega

/-- Every call has an outcome, determined by the report that the calls before it leave behind. -/
theorem exists_outcome (c : Console) {calls : List Call} {n : Nat} {call : Call}
    (h : calls[n]? = some call) :
    ∃ result, (c.outcomes calls)[n]? = some result ∧
      Comes (c.after (calls.take n)).report call result :=
  ⟨_, by rw [outcomes_getElem?, h]; rfl, (perform_work call _).1⟩

/-- There are no outcomes beyond the last call. -/
theorem outcomes_eq_none (c : Console) {calls : List Call} {n : Nat} (h : calls[n]? = none) :
    (c.outcomes calls)[n]? = none := by
  rw [outcomes_getElem?, h]
  rfl

/-- A call is interrupted by a full report exactly if it records the issue that makes those of all
calls so far as many as the limit. -/
theorem outcome_eq_reportFull_iff (c : Console) (calls : List Call) (n : Nat) :
    (c.outcomes calls)[n]? = some (.error .reportFull) ↔
      (∃ i, calls[n]? = some (.record i)) ∧
        ((c.after (calls.take (n + 1))).report.issues.length : Int) = c.report.limit := by
  cases h : calls[n]? with
  | none => simp [outcomes_eq_none c h]
  | some call =>
    obtain ⟨result, hresult, hcomes⟩ := c.exists_outcome h
    rw [hresult, Option.some_inj, hcomes.eq_reportFull_iff, report_after, report_after,
      recorded_take_succ h]
    simp only [Option.some_inj, Option.isSome_iff_exists, issue?_eq_some_iff]
    refine and_congr_right fun ⟨i, hi⟩ ↦ ?_
    simp only [hi, issue?, Option.toList_some, List.length_append, List.length_singleton]
    omega

/-- A call is interrupted by unresolved issues exactly if it requires a clean report and there are
issues before it. -/
theorem outcome_eq_unresolved_iff (c : Console) (calls : List Call) (n : Nat) :
    (∃ text, (c.outcomes calls)[n]? = some (.error (.unresolved text))) ↔
      (∃ message, calls[n]? = some (.requireClean message)) ∧
        (c.after (calls.take n)).report.issues ≠ [] := by
  cases h : calls[n]? with
  | none => simp [outcomes_eq_none c h]
  | some call =>
    obtain ⟨result, hresult, hcomes⟩ := c.exists_outcome h
    rw [hresult]
    simp only [Option.some_inj]
    exact hcomes.eq_unresolved_iff

/-- Every call is uninterrupted or interrupted by one of the two causes. -/
theorem lt_length_iff_outcome (c : Console) (calls : List Call) (n : Nat) :
    n < calls.length ↔ (c.outcomes calls)[n]? = some (.ok ()) ∨
      (c.outcomes calls)[n]? = some (.error .reportFull) ∨
      ∃ text, (c.outcomes calls)[n]? = some (.error (.unresolved text)) := by
  cases h : calls[n]? with
  | none => simp [outcomes_eq_none c h, List.getElem?_eq_none_iff.mp h]
  | some call =>
    obtain ⟨result, hresult, hcomes⟩ := c.exists_outcome h
    rw [hresult]
    simp only [Option.some_inj]
    exact iff_of_true (List.getElem?_eq_some_iff.mp h).1 hcomes.eq_or

/-- The second of two issues interrupts the work, and a third one does not. -/
example (dice : Dice) :
    (fresh (.empty false 2) dice).outcomes
        [.requireClean "Ready?", .record (.unbound "x"), .record (.unbound "y"), .note "Go on.",
          .record (.unbound "x")] =
      [.ok (), .ok (), .error .reportFull, .ok (), .ok ()] := by cbv

end Console

end Backtrack
