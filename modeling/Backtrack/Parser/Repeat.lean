import Backtrack.Parser.Combinators

/-!
# Repetition

A parser any number of times in a row, the longest run first and then each shorter one. The
search goes depth first through the results of every repetition and carries what is still to
be tried as a continuation, so a long run needs no deep recursion. It ends because each
repetition has to leave fewer tokens than it found; one that does not would repeat without
end, which shows as an overflow.
-/

namespace Backtrack.Parser

variable {τ α : Type}

/-- The runs that go on from `here`, where `found` has been read so far, latest first:
`options` are the results of the next repetition that are still to be tried, and `after` is
what follows when they and the run that stops here are through. -/
def repeatFrom (p : Parser τ α) (found : List α) (here : List τ)
    (options : Trace (α × List τ)) (after : Unit → Trace (List α × List τ)) :
    Trace (List α × List τ) :=
  match options with
  | .done => .yield (found.reverse, here) after
  | .raised fault => .raised fault
  | .yield (a, rest) more =>
    if rest.length < here.length then
      repeatFrom p (a :: found) rest (p.run rest) fun _ ↦
        repeatFrom p found here (more ()) after
    else .raised .overflow
termination_by (here.length, options.length)
decreasing_by
  · exact Prod.Lex.right _ (Nat.lt_succ_self _)
  · exact Prod.Lex.left _ _ (by assumption)

/-- Zero or more in a row: the longest run first, down to the empty one. -/
def many (p : Parser τ α) : Parser τ (List α) :=
  ⟨fun ts ↦ repeatFrom p [] ts (p.run ts) fun _ ↦ .done⟩

/-- One or more in a row. -/
def some (p : Parser τ α) : Parser τ (List α) := seq (map List.cons p) (many p)

/-- One `term` and any number of `op` and `term` in turn, grouped to the left: for a left
recursive production `X → X op term | term`. -/
def chainl (term : Parser τ α) (op : Parser τ (α → α → α)) : Parser τ α :=
  map₂ (List.foldl fun sofar step ↦ step.1 sofar step.2) term (many (pair op term))

end Backtrack.Parser
