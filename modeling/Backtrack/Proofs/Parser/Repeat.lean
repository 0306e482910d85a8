import Backtrack.Parser.Repeat
import Backtrack.Proofs.Parser.Combinators

/-!
# Repetition by recursion

The search behind `many` carries what is left to be tried as a continuation. Here it is brought
into the form of a recursion on what is left over: one repetition, then any number of them on
its leftover, and last the empty run.
-/

namespace Backtrack.Parser

variable {τ α : Type}

/-- What follows a repetition that is read in front of `here`: any number of others, provided
that it leaves fewer tokens. -/
def repeatAfter (p : Parser τ α) (here : List τ) (x : α × List τ) : Trace (List α × List τ) :=
  if x.2.length < here.length then ((many p).run x.2).map fun y ↦ (x.1 :: y.1, y.2)
  else .raised .overflow

private theorem run_many_eq_repeatFrom (p : Parser τ α) (ts : List τ) :
    (many p).run ts = repeatFrom p [] ts (p.run ts) fun _ ↦ .done := rfl

/-- The search goes on from each of the options, then stops where it is, and then does what is
to be done afterwards. -/
theorem repeatFrom_eq (p : Parser τ α) (found : List α) (here : List τ)
    (options : Trace (α × List τ)) (after : Unit → Trace (List α × List τ)) :
    repeatFrom p found here options after =
      ((options.flatMap (repeatAfter p here)).map fun y ↦ (found.reverse ++ y.1, y.2)).append
        fun _ ↦ .yield (found.reverse, here) after := by
  -- The measure of the search: first the tokens that are left, then the options.
  induction hn : here.length using Nat.strongRecOn generalizing found here options after with
  | ind n ih =>
    subst hn
    induction options generalizing found after with
    | done => rw [repeatFrom]; rfl
    | raised fault => rw [repeatFrom]; rfl
    | yield x more ihm =>
      obtain ⟨a, rest⟩ := x
      rw [repeatFrom, Trace.flatMap_yield, repeatAfter]
      split
      · next hlt =>
        rw [ih _ hlt _ rest _ _ rfl, ihm () found after, run_many_eq_repeatFrom,
          ih _ hlt [] rest _ _ rfl]
        simp only [Trace.map_append, Trace.map_map, Trace.append_assoc, Trace.map, Trace.append,
          List.reverse_cons, List.reverse_nil, List.nil_append, List.append_assoc,
          List.cons_append]
      · rfl

/-- Any number in a row: one and what follows it, for each result of one in turn, and last none
at all. -/
theorem run_many (p : Parser τ α) (ts : List τ) :
    (many p).run ts =
      ((p.run ts).flatMap (repeatAfter p ts)).append fun _ ↦ .yield ([], ts) fun _ ↦ .done := by
  rw [run_many_eq_repeatFrom, repeatFrom_eq]
  exact congrArg (Trace.append · _) (Trace.map_id _)

/-- Any number of mapped parsers in a row is a mapped row. -/
theorem many_map {β : Type} (f : α → β) (p : Parser τ α) :
    many (map f p) = map (List.map f) (many p) := by
  refine Parser.ext (funext fun ts ↦ ?_)
  induction hn : ts.length using Nat.strongRecOn generalizing ts with
  | ind n ih =>
    have hafter (x : α × List τ) : repeatAfter (map f p) ts (f x.1, x.2) =
        (repeatAfter p ts x).map fun y ↦ (y.1.map f, y.2) := by
      rw [repeatAfter, repeatAfter]
      split
      · next hlt =>
        rw [ih _ (hn ▸ hlt) x.2 rfl, run_map, Trace.map_map, Trace.map_map]
        rfl
      · rfl
    rw [run_many, run_map, Trace.flatMap_map, run_map, run_many, Trace.map_append,
      Trace.map_flatMap]
    simp only [hafter]
    rfl

end Backtrack.Parser
