import Backtrack.Proofs.Report.Outcome

/-!
# What is printed on a console

Printing adds lines to the output and leaves everything else as it is; telling an issue adds lines
besides the output. So work that prints one thing after another leaves a console behind on which
all these lines are `shown`, and work that gives up one on which its issue is `explained`.
-/

namespace Backtrack.Console

variable {α β : Type}

/-- Texts in order, each on a line of its own. -/
def lines : List String → String
  | [] => ""
  | text :: texts => text ++ "\n" ++ lines texts

/-- The lines of two lists are those of the first and then those of the second. -/
theorem lines_append (texts texts' : List String) :
    lines (texts ++ texts') = lines texts ++ lines texts' := by
  induction texts with
  | nil => exact String.empty_append.symm
  | cons text texts ih =>
    rw [List.cons_append, lines, lines, ih]
    simp only [String.append_assoc]

/-! ### Output -/

/-- The console with more lines of output. -/
def shown (texts : List String) (c : Console) : Console := { c with out := c.out ++ lines texts }

/-- Showing no lines leaves the console unchanged. -/
theorem shown_nil (c : Console) : c.shown [] = c := by
  rw [shown, lines, String.append_empty]

/-- Showing lines twice shows both in order. -/
theorem shown_shown (texts texts' : List String) (c : Console) :
    (c.shown texts).shown texts' = c.shown (texts ++ texts') := by
  simp only [shown, lines_append, String.append_assoc]

/-- Printing shows the line. -/
theorem perform_print (line : String) (c : Console) :
    perform (print line) c = (.ok (), c.shown [line]) := by
  rw [shown, lines, lines, String.append_empty, ← String.append_assoc]
  rfl

/-- Printing shows the line, and the work goes on. -/
theorem perform_print_bind (line : String) (next : Unit → Working β) (c : Console) :
    perform (print line >>= next) c = perform (next ()) (c.shown [line]) := by
  rw [perform_bind, perform_print]

/-- Printing a line for each of some values shows these lines. -/
theorem perform_forM_print (f : α → String) (xs : List α) (c : Console) :
    perform (xs.forM fun x ↦ print (f x)) c = (.ok (), c.shown (xs.map f)) := by
  induction xs generalizing c with
  | nil =>
    rw [List.map_nil, shown_nil]
    rfl
  | cons x xs ih =>
    refine (perform_print_bind (f x) (fun _ ↦ xs.forM fun x ↦ print (f x)) c).trans ?_
    rw [ih, shown_shown]
    rfl

/-- Lines that can all be written are printed as they are. -/
theorem forM_printWritten {line? : α → Option String} {line : α → String} {xs : List α}
    (h : ∀ x ∈ xs, line? x = some (line x)) :
    (xs.forM fun x ↦ printWritten (line? x)) = xs.forM fun x ↦ print (line x) := by
  induction xs with
  | nil => rfl
  | cons x xs ih =>
    change (printWritten (line? x) >>= fun _ ↦ xs.forM fun x ↦ printWritten (line? x)) =
      (print (line x) >>= fun _ ↦ xs.forM fun x ↦ print (line x))
    rw [h x List.mem_cons_self, ih fun y hy ↦ h y (List.mem_cons_of_mem x hy), printWritten]

/-- Printing a line for each of some values on request shows these lines or none, and the work goes
on. -/
theorem perform_ite_forM_print (asked : Bool) (f : α → String) (xs : List α) (work : Working β)
    (c : Console) :
    perform (if asked = true then (xs.forM fun x ↦ print (f x)) >>= fun _ ↦ work else work) c =
      perform work (c.shown (if asked = true then xs.map f else [])) := by
  cases asked with
  | false => exact congrArg (perform work) (shown_nil c).symm
  | true =>
    rw [if_pos rfl, if_pos rfl, perform_bind, perform_forM_print]

/-! ### Issues -/

/-- How a single issue is told, if there is one: under a ruler and an exclamation. -/
def told (d : Dice) : Option Issue → String
  | none => ""
  | some i => lines [ruler, (Exclamation.draw d).1, divider, i.text]

/-- The console on which all issues have been told, if there are any: under a ruler and an
exclamation, and each of them under a divider. -/
def issuesTold (c : Console) : Console :=
  if c.report.issues.isEmpty then c
  else
    { c with
      err := c.err ++ lines (ruler :: (Exclamation.draw c.dice).1 ::
        c.report.issues.flatMap fun i ↦ [divider, i.text])
      dice := (Exclamation.draw c.dice).2 }

/-- Telling each issue prints it under a divider. -/
private theorem perform_forM_tell (issues : List Issue) (c : Console) :
    perform (issues.forM fun i ↦ do
      printAside divider
      printAside i.text) c =
      (.ok (), { c with err := c.err ++ lines (issues.flatMap fun i ↦ [divider, i.text]) }) := by
  induction issues generalizing c with
  | nil =>
    rw [List.flatMap_nil, lines, String.append_empty]
    rfl
  | cons i issues ih =>
    refine (perform_bind _ _ c).trans ?_
    refine (ih { c with err := c.err ++ divider ++ "\n" ++ i.text ++ "\n" }).trans ?_
    simp only [List.flatMap_cons, List.cons_append, List.nil_append, lines, String.append_assoc]

/-- Printing the issues tells them. -/
theorem perform_printIssues (c : Console) : perform printIssues c = (.ok (), c.issuesTold) := by
  rw [printIssues, perform_bind, issuesTold]
  change perform (if c.report.issues.isEmpty = true then pure () else _) c = _
  cases c.report.issues.isEmpty with
  | true => rfl
  | false =>
    refine (perform_forM_tell c.report.issues { c with
      err := c.err ++ ruler ++ "\n" ++ (Exclamation.draw c.dice).1 ++ "\n"
      dice := (Exclamation.draw c.dice).2 }).trans ?_
    simp only [lines, String.append_assoc]
    rfl

/-- Telling the issues changes neither the issues nor the output. -/
theorem issuesTold_eq (c : Console) :
    c.issuesTold.report = c.report ∧ c.issuesTold.out = c.out := by
  rw [issuesTold]
  split <;> exact ⟨rfl, rfl⟩

/-- The console on which the first issue has been recorded and told. -/
def explained (i : Issue) (c : Console) : Console :=
  { c with
    report := c.report.add i
    err := c.err ++ told c.dice (some i)
    dice := (Exclamation.draw c.dice).2 }

/-- A console on which no issue has been recorded, and which allows for one. -/
structure Ready (c : Console) : Prop where
  /-- No issue has been recorded. -/
  issues : c.report.issues = []
  /-- The first issue is not one too many. -/
  limit : c.report.limit ≠ 1

variable {c : Console}

/-- Showing lines keeps a console ready. -/
theorem Ready.shown (h : c.Ready) (texts : List String) : (c.shown texts).Ready := ⟨h.1, h.2⟩

/-- Printing besides the output keeps a console ready. -/
theorem Ready.aside (h : c.Ready) (text : String) : (c.aside text).Ready := by
  rw [aside_eq]
  exact ⟨h.1, h.2⟩

/-- Printing the issues of a ready console does nothing. -/
theorem Ready.perform_printIssues (h : c.Ready) : perform printIssues c = (.ok (), c) := by
  rw [Console.perform_printIssues, issuesTold, h.issues]
  rfl

/-- Printing the only issue of a console tells it. -/
theorem Ready.perform_printIssues_add (h : c.Ready) (i : Issue) :
    perform printIssues { c with report := c.report.add i } = (.ok (), c.explained i) := by
  have hissues : (c.report.add i).issues = [i] := by
    rw [Report.issues_add, h.issues]
    rfl
  simp only [Console.perform_printIssues, issuesTold, hissues]
  rfl

/-- The first issue of a ready console does not fill the report. -/
theorem Ready.isFull_add (h : c.Ready) (i : Issue) : (c.report.add i).isFull = false := by
  rw [Report.isFull, Report.issues_add, h.issues, (Report.limit_add c.report i).1]
  exact beq_eq_false_iff_ne.mpr h.limit.symm

/-! ### Work as a whole -/

/-- The work comes to this result, with these lines of output and this text besides. -/
structure Ends (work : Working α) (c : Console) (result : Except Interruption α)
    (texts : List String) (said : String) : Prop where
  /-- The result of the work. -/
  result : (perform work c).1 = result
  /-- The lines printed by the work. -/
  out : (perform work c).2.out = c.out ++ lines texts
  /-- The text printed by the work besides the output. -/
  err : (perform work c).2.err = c.err ++ said

variable {work work' : Working α} {result : Except Interruption α} {texts : List String}
  {said : String}

/-- Work that leaves the console unchanged ends without lines. -/
theorem ends_of_eq (h : perform work c = (result, c)) : Ends work c result [] "" := by
  constructor
  · rw [h]
  · rw [h, lines, String.append_empty]
  · rw [h, String.append_empty]

/-- Work that shows lines ends with these lines. -/
theorem ends_of_shown (h : perform work c = (result, c.shown texts)) :
    Ends work c result texts "" := by
  constructor
  · rw [h]
  · rw [h]
    rfl
  · rw [h, String.append_empty]
    rfl

/-- Showing lines in front of work puts them in front of its lines. -/
theorem Ends.of_shown {first : List String} (h : Ends work (c.shown first) result texts said)
    (hwork : perform work' c = perform work (c.shown first)) :
    Ends work' c result (first ++ texts) said := by
  constructor
  · rw [hwork, h.result]
  · rw [hwork, h.out, lines_append, ← String.append_assoc]
    rfl
  · rw [hwork, h.err]
    rfl

/-- Printing besides the output in front of work puts the text in front of its own. -/
theorem Ends.of_aside {first : String} (h : Ends work (c.aside first) result texts said)
    (hwork : perform work' c = perform work (c.aside first)) :
    Ends work' c result texts ((if c.report.verbose = true then first else "") ++ said) := by
  constructor
  · rw [hwork, h.result]
  · rw [hwork, h.out, aside_eq]
  · rw [hwork, h.err, aside_eq, String.append_assoc]

/-- Work that gives up with an issue ends with the issue told. -/
theorem ends_of_explained {i : Issue} (h : perform work c = (result, c.explained i)) :
    Ends work c result [] (told c.dice (some i)) := by
  constructor
  · rw [h]
  · rw [h, lines, String.append_empty]
    rfl
  · rw [h]
    rfl

end Backtrack.Console
