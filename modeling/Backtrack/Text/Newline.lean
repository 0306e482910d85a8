/-!
# Line ends

Every line end becomes a line feed: a carriage return with the line feed after it, and a
carriage return alone.
-/

namespace Backtrack.Text

/-- What becomes of a character, given the one before it: a carriage return ends a line, and a
line feed right after one adds nothing. -/
def newlineStep (before c : Char) : List Char :=
  if c = '\r' then ['\n'] else if before = '\r' ∧ c = '\n' then [] else [c]

/-- A text with line feeds for line ends. -/
def unifyNewlines (cs : List Char) : List Char :=
  (List.zip (' ' :: cs) cs).flatMap fun (before, c) ↦ newlineStep before c

/-- A text without carriage returns stays as it is. -/
theorem unifyNewlines_of_not_mem {cs : List Char} (h : '\r' ∉ cs) : unifyNewlines cs = cs := by
  have go (before : Char) (hb : before ≠ '\r') :
      (List.zip (before :: cs) cs).flatMap (fun (before, c) ↦ newlineStep before c) = cs := by
    induction cs generalizing before with
    | nil => rfl
    | cons c cs ih =>
      have hc : c ≠ '\r' := fun e ↦ h (by simp [e])
      have ht : '\r' ∉ cs := fun e ↦ h (List.mem_cons_of_mem c e)
      rw [List.zip_cons_cons, List.flatMap_cons, ih ht c hc]
      simp [newlineStep, hc, hb]
  exact go ' ' (by decide)

end Backtrack.Text
