import Backtrack.Trace.Basic

/-!
# Asking a trace

What a run answers when it is asked for one result after another: its results in order, then the
fault that stops it if one does, and then that there is nothing more. `answer_eq_first` says that
the answer to a later asking is the first one of what is still to come by then.
-/

namespace Backtrack.Trace

variable {α : Type}

/-- The answer number `k` of a run, counted from zero. -/
def answer (t : Trace α) (k : Nat) : Except Fault (Option α) :=
  match t.entries[k]?, t.ending with
  | some a, _ => .ok (some a)
  | none, some fault => if k = t.entries.length then .error fault else .ok none
  | none, none => .ok none

/-- The first answer of a run. -/
def first : Trace α → Except Fault (Option α)
  | done => .ok none
  | raised fault => .error fault
  | yield a _ => .ok (some a)

/-- What is still to come of a run that has been asked once. Nothing comes after a fault. -/
def later : Trace α → Trace α
  | done => done
  | raised _ => done
  | yield _ more => more ()

/-- What is still to come of a run that has been asked so many times. -/
def laterBy (t : Trace α) : Nat → Trace α
  | 0 => t
  | n + 1 => t.later.laterBy n

/-- The answer number zero is the first answer. -/
theorem answer_zero (t : Trace α) : t.answer 0 = t.first := by
  cases t <;> rfl

/-- Each later answer is one of what is still to come after the first. -/
theorem answer_succ (t : Trace α) (k : Nat) : t.answer (k + 1) = t.later.answer k := by
  cases t with
  | done => rfl
  | raised fault => simp [answer, later, entries, ending]
  | yield a more =>
    simp only [answer, later, entries, ending, List.getElem?_cons_succ, List.length_cons,
      Nat.add_right_cancel_iff]
    rfl

/-- The answer number `k` is the first answer of what is still to come after `k` askings. -/
theorem answer_eq_first (t : Trace α) (k : Nat) : t.answer k = (t.laterBy k).first := by
  induction k generalizing t with
  | zero => exact answer_zero t
  | succ k ih => rw [answer_succ, ih, laterBy]

/-- Asking `m + n` times is asking `m` times and then `n` times. -/
theorem laterBy_add (t : Trace α) (m n : Nat) : t.laterBy (m + n) = (t.laterBy m).laterBy n := by
  induction m generalizing t with
  | zero => rw [Nat.zero_add, laterBy]
  | succ m ih => rw [Nat.succ_add, laterBy, ih, laterBy]

/-- Nothing is still to come of a run that is over. -/
theorem laterBy_done (n : Nat) : (done : Trace α).laterBy n = done := by
  induction n with
  | zero => rfl
  | succ n ih => exact ih

end Backtrack.Trace
