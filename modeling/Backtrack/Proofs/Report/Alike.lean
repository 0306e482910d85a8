import Backtrack.Proofs.Report.Printing

/-!
# Work whose issues are told in other words

An issue may quote the text that is read, but how the work goes on depends on the number of issues
alone. Consoles are `Alike` if they have the same output and as many issues, and work is alike if it
comes to the same on such consoles and leaves such consoles behind. Reading two texts with the same
tokens is work of this kind: `worksAlike_read`.
-/

namespace Backtrack

/-- Whether an outcome has an issue does not depend on the text that the issue would quote. -/
theorem Outcome.isSome_issue? {α : Type} (o : Outcome α) (text text' : String) :
    (o.issue? text').isSome = (o.issue? text).isSome := by
  cases o <;> rfl

/-- Texts with the same tokens have the same outcome. -/
theorem Outcome.of_eq_of_scan_eq {α : Type} {text text' : String}
    (h : Token.scan text' = Token.scan text) (entry : Parser Token α) :
    of entry text' = of entry text := by
  rw [of, of, h]

namespace Console

variable {α β : Type}

/-! ### Consoles -/

/-- The consoles show the same output, and a further issue is one too many for both or for
neither. -/
structure Alike (c c' : Console) : Prop where
  /-- The output is the same. -/
  out : c'.out = c.out
  /-- The limit of issues is the same. -/
  limit : c'.report.limit = c.report.limit
  /-- The number of issues is the same. -/
  count : c'.report.issues.length = c.report.issues.length

variable {c c' : Console}

/-- Showing the same lines keeps consoles alike. -/
theorem Alike.shown (h : Alike c c') (texts : List String) :
    Alike (c.shown texts) (c'.shown texts) :=
  ⟨congrArg (· ++ lines texts) h.out, h.limit, h.count⟩

/-- Saying anything besides the output keeps consoles alike. -/
theorem Alike.aside (h : Alike c c') (text text' : String) :
    Alike (c.aside text) (c'.aside text') := by
  rw [aside_eq, aside_eq]
  exact ⟨h.out, h.limit, h.count⟩

/-- Telling the issues keeps consoles alike, whatever their texts. -/
theorem Alike.issuesTold (h : Alike c c') : Alike c.issuesTold c'.issuesTold := by
  obtain ⟨hreport, hout⟩ := c.issuesTold_eq
  obtain ⟨hreport', hout'⟩ := c'.issuesTold_eq
  constructor
  · rw [hout', hout, h.out]
  · rw [hreport', hreport, h.limit]
  · rw [hreport', hreport, h.count]

/-- Recording one issue on each keeps consoles alike, whichever issues they are. -/
theorem Alike.add (h : Alike c c') (i i' : Issue) :
    Alike { c with report := c.report.add i } { c' with report := c'.report.add i' } := by
  refine ⟨h.out, h.limit, ?_⟩
  rw [Report.issues_add, Report.issues_add, List.length_append, List.length_append, h.count]
  rfl

/-- A further issue fills both of two consoles that are alike, or neither. -/
theorem Alike.isFull_add (h : Alike c c') (i i' : Issue) :
    (c'.report.add i').isFull = (c.report.add i).isFull := by
  rw [Bool.eq_iff_iff, Report.isFull_add_iff, Report.isFull_add_iff, h.count, h.limit]

/-! ### Work -/

/-- On consoles that are alike the work comes to the same, and it leaves such consoles behind. -/
def WorksAlike (work work' : Working α) : Prop :=
  ∀ c c', Alike c c' →
    (perform work' c').1 = (perform work c).1 ∧ Alike (perform work c).2 (perform work' c').2

/-- Work in sequence works alike if each part does. -/
theorem WorksAlike.bind {work work' : Working α} {next next' : α → Working β}
    (h : WorksAlike work work') (hnext : ∀ a, WorksAlike (next a) (next' a)) :
    WorksAlike (work >>= next) (work' >>= next') := by
  intro c c' hc
  obtain ⟨hresult, hc₁⟩ := h c c' hc
  rw [perform_bind, perform_bind]
  revert hresult hc₁
  rcases perform work c with ⟨r, c₁⟩
  rcases perform work' c' with ⟨r', c₁'⟩
  rintro rfl hc₁
  cases r' with
  | error i => exact ⟨rfl, hc₁⟩
  | ok a => exact hnext a c₁ c₁' hc₁

/-- Returning a value works alike. -/
theorem worksAlike_pure (a : α) : WorksAlike (pure a) (pure a) := fun _ _ hc ↦ ⟨rfl, hc⟩

/-- Interrupting with the same cause works alike. -/
theorem worksAlike_throw (i : Interruption) : WorksAlike (throw i : Working α) (throw i) :=
  fun _ _ hc ↦ ⟨rfl, hc⟩

/-- Printing the same line works alike. -/
theorem worksAlike_print (line : String) : WorksAlike (print line) (print line) := by
  intro c c' hc
  rw [perform_print, perform_print]
  exact ⟨rfl, hc.shown [line]⟩

/-- A line that may not be writable is printed, or interrupts the work, on both consoles. -/
theorem worksAlike_printWritten (line? : Option String) :
    WorksAlike (printWritten line?) (printWritten line?) := by
  cases line? with
  | none => exact worksAlike_throw .longResult
  | some line => exact worksAlike_print line

/-- A row of lines that may not be writable is printed first, if it is asked for. -/
theorem WorksAlike.behind_lines {work work' : Working β} (h : WorksAlike work work') (asked : Bool)
    (line? : α → Option String) (xs : List α) :
    WorksAlike
      (if asked = true then (xs.forM fun x ↦ printWritten (line? x)) >>= fun _ ↦ work else work)
      (if asked = true then (xs.forM fun x ↦ printWritten (line? x)) >>= fun _ ↦ work'
        else work') := by
  have hlines : WorksAlike (xs.forM fun x ↦ printWritten (line? x))
      (xs.forM fun x ↦ printWritten (line? x)) := by
    induction xs with
    | nil => exact worksAlike_pure ()
    | cons x xs ih => exact (worksAlike_printWritten (line? x)).bind fun _ ↦ ih
  cases asked with
  | false => exact h
  | true => exact hlines.bind fun _ ↦ h

/-- Recording an issue works alike, whichever issues they are. -/
theorem worksAlike_record (i i' : Issue) : WorksAlike (record i) (record i') := by
  intro c c' hc
  rw [perform_record, perform_record, hc.isFull_add i i']
  exact ⟨rfl, hc.add i i'⟩

/-- Printing the issues works alike. -/
theorem worksAlike_printIssues : WorksAlike printIssues printIssues := by
  intro c c' hc
  rw [perform_printIssues, perform_printIssues]
  exact ⟨rfl, hc.issuesTold⟩

/-! ### Texts with the same tokens -/

variable {text text' : String}

/-- Scanning texts with the same tokens works alike. -/
theorem worksAlike_scan (h : Token.scan text' = Token.scan text) :
    WorksAlike (scan text) (scan text') := by
  intro c c' hc
  rw [perform_scan, perform_scan, h]
  exact ⟨rfl, hc⟩

/-- Settling an outcome keeps consoles alike, whichever text its issue quotes. -/
theorem Alike.settle (h : Alike c c') (o : Outcome α) (text text' : String) :
    (o.settle text' c').1 = (o.settle text c).1 ∧
      Alike (o.settle text c).2 (o.settle text' c').2 := by
  have hsome := o.isSome_issue? text text'
  have hlength : (o.issue? text').toList.length = (o.issue? text).toList.length := by
    rw [Option.length_toList, Option.length_toList, hsome]
  rw [Outcome.settle, Outcome.settle, hsome, h.count, h.limit]
  refine ⟨rfl, h.out, h.limit, ?_⟩
  rw [List.length_append, List.length_append, h.count, hlength]

/-- Reading texts with the same tokens works alike. -/
theorem worksAlike_read (h : Token.scan text' = Token.scan text) (entry : Parser Token α) :
    WorksAlike (read entry text) (read entry text') := by
  intro c c' hc
  rw [perform_read, perform_read, Outcome.of_eq_of_scan_eq h]
  exact (hc.aside _ _).settle _ text text'

end Console
end Backtrack
