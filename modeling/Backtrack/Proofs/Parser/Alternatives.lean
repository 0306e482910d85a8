import Backtrack.Proofs.Parser.Bracketing
import Backtrack.Proofs.Parser.Language
import Mathlib.Data.List.Perm.Basic
import Mathlib.Data.List.ReduceOption

/-!
# Alternatives

Alternatives show the results of one parser after those of another, and so brackets around them and
parsers that never match are of no account: `fold_orElse`. A sequence whose first part is made of
alternatives is one sequence after the other. If it is the second part that is made of them, each
result of the first part is followed by the results of all the alternatives before the next one is
looked at; without a fault the results are the same, but they can come in another order
(`sameResults_pair_orElse`).
-/

namespace Backtrack

namespace Trace

variable {α β : Type}

/-- Traces in order, up to the first that a fault stops. -/
def upToFault : List (Trace α) → List (Trace α)
  | [] => []
  | s :: ss => if s.ending.isNone then s :: upToFault ss else [s]

/-- `t` shows the traces `ss` one after another, up to the first that a fault stops. -/
structure RunsThrough (t : Trace α) (ss : List (Trace α)) : Prop where
  /-- The results are those of the traces. -/
  entries : t.entries = (upToFault ss).flatMap Trace.entries
  /-- The fault is the first that is met. -/
  ending : t.ending = ss.findSome? Trace.ending

/-- Both traces end without a fault, and they have the same results, each of them as often. -/
structure SameResults (s t : Trace α) : Prop where
  /-- The first ends without a fault. -/
  ending_left : s.ending = none
  /-- The second ends without a fault. -/
  ending_right : t.ending = none
  /-- The results are the same up to the order. -/
  perm : s.entries.Perm t.entries

/-- Mapping preserves having the same results. -/
theorem SameResults.map {s t : Trace α} (h : s.SameResults t) (f : α → β) :
    (s.map f).SameResults (t.map f) where
  ending_left := (ending_map f s).trans h.ending_left
  ending_right := (ending_map f t).trans h.ending_right
  perm := by
    rw [entries_map, entries_map]
    exact h.perm.map f

/-- Going through results with two traces for each has the same results as going through them twice,
with one trace each. -/
theorem sameResults_flatMap_append {s : Trace α} {f g : α → Trace β} (hs : s.ending = none)
    (hf : ∀ a ∈ s.entries, (f a).ending = none) (hg : ∀ a ∈ s.entries, (g a).ending = none) :
    (s.flatMap fun a ↦ (f a).append fun _ ↦ g a).SameResults
      ((s.flatMap f).append fun _ ↦ s.flatMap g) := by
  have hsf : (s.flatMap f).ending = none := ending_flatMap_eq_none_iff.mpr ⟨hs, hf⟩
  have hsg : (s.flatMap g).ending = none := ending_flatMap_eq_none_iff.mpr ⟨hs, hg⟩
  have hboth : (s.flatMap fun a ↦ (f a).append fun _ ↦ g a).ending = none :=
    ending_flatMap_eq_none_iff.mpr
      ⟨hs, fun a ha ↦ ending_append_eq_none_iff.mpr ⟨hf a ha, hg a ha⟩⟩
  have hentries : (s.flatMap fun a ↦ (f a).append fun _ ↦ g a).entries =
      s.entries.flatMap fun a ↦ (f a).entries ++ (g a).entries := by
    rw [entries_flatMap_of_ending hboth]
    exact List.flatMap_congr fun a ha ↦ entries_append_of_ending (hf a ha) _
  refine ⟨hboth, ending_append_eq_none_iff.mpr ⟨hsf, hsg⟩, ?_⟩
  rw [hentries, entries_append_of_ending hsf, entries_flatMap_of_ending hsf,
    entries_flatMap_of_ending hsg]
  exact (List.flatMap_append_perm _ _ _).symm

/-- Going through at most one result with two traces for each is going through it twice, with one
trace each. -/
theorem flatMap_append_of_length_le_one {s : Trace α} {f g : α → Trace β} (hs : s.ending = none)
    (hlength : s.entries.length ≤ 1) :
    (s.flatMap fun a ↦ (f a).append fun _ ↦ g a) =
      (s.flatMap f).append fun _ ↦ s.flatMap g := by
  cases s with
  | done => rfl
  | raised e => cases hs
  | yield a more =>
    have hmore : more () = done := by
      cases hm : more () with
      | done => rfl
      | raised e =>
        rw [ending, hm] at hs
        cases hs
      | yield b more' =>
        rw [entries, hm, entries, List.length_cons, List.length_cons] at hlength
        omega
    have hone (h : α → Trace β) : (yield a more).flatMap h = h a := by
      rw [flatMap_yield, hmore]
      exact append_done (h a)
    rw [hone, hone, hone]

end Trace

namespace Parser

variable {τ α β : Type}

/-! ### Rows of alternatives -/

/-- A choice is its first alternative or the choice of the others. -/
theorem choice_cons (p : Parser τ α) (ps : List (Parser τ α)) :
    choice (p :: ps) = orElse p (choice ps) := by
  have hfold (q : Parser τ α) : ps.foldl orElse q = orElse q (choice ps) := by
    rw [choice]
    induction ps generalizing q with
    | nil => exact (orElse_fail q).symm
    | cons p ps ih => rw [List.foldl_cons, List.foldl_cons, ih, ih (orElse fail p), fail_orElse,
        orElse_assoc]
  exact hfold p

/-- A choice of two lists is the choice of the first or the choice of the second. -/
theorem choice_append (ps qs : List (Parser τ α)) :
    choice (ps ++ qs) = orElse (choice ps) (choice qs) := by
  induction ps with
  | nil => rfl
  | cons p ps ih => rw [List.cons_append, choice_cons, choice_cons, ih, orElse_assoc]

/-- Alternatives in any bracketing, with parsers that never match anywhere among them, are the
choice of the others. -/
theorem fold_orElse (f : α → Parser τ β) (b : Bracketing (Option α)) :
    b.fold (fun a? ↦ (a?.map f).getD fail) orElse = choice (b.items.reduceOption.map f) := by
  induction b with
  | item a? => cases a? <;> rfl
  | join l r ihl ihr =>
    rw [Bracketing.fold, ihl, ihr, Bracketing.items, List.reduceOption_append, List.map_append,
      choice_append]

/-- A choice runs through its alternatives in order. -/
theorem runsThrough_choice (ps : List (Parser τ α)) (ts : List τ) :
    ((choice ps).run ts).RunsThrough (ps.map (·.run ts)) := by
  induction ps with
  | nil => exact ⟨rfl, rfl⟩
  | cons p ps ih =>
    rw [choice_cons, run_orElse, List.map_cons]
    constructor
    · rw [Trace.entries_append, ih.entries, Trace.upToFault]
      split
      · rw [List.flatMap_cons]
      · rw [List.flatMap_singleton, List.append_nil]
    · rw [Trace.ending_append, ih.ending, List.findSome?_cons]
      cases (p.run ts).ending <;> rfl

/-! ### Alternatives in a sequence -/

/-- Alternatives paired with a parser are the alternative pairs. -/
theorem orElse_pair (p q : Parser τ α) (r : Parser τ β) :
    pair (orElse p q) r = orElse (pair p r) (pair q r) := by
  refine Parser.ext (funext fun ts ↦ ?_)
  rw [run_pair, run_orElse, Trace.flatMap_append, run_orElse, run_pair, run_pair]

/-- A parser paired with alternatives goes through both of them for each of its results. -/
theorem run_pair_orElse (p : Parser τ α) (q r : Parser τ β) (ts : List τ) :
    (pair p (orElse q r)).run ts = (p.run ts).flatMap fun x ↦
      ((q.run x.2).map fun y ↦ ((x.1, y.1), y.2)).append fun _ ↦
        (r.run x.2).map fun y ↦ ((x.1, y.1), y.2) := by
  rw [run_pair]
  simp only [run_orElse, Trace.map_append]

variable {p : Parser τ α} {q r : Parser τ β} {ts : List τ}

/-- Where no run faults, a parser paired with alternatives has the same results as the alternative
pairs. -/
theorem sameResults_pair_orElse (hp : p.EndsOn ts) (hq : ∀ x ∈ (p.run ts).entries, q.EndsOn x.2)
    (hr : ∀ x ∈ (p.run ts).entries, r.EndsOn x.2) :
    ((pair p (orElse q r)).run ts).SameResults ((orElse (pair p q) (pair p r)).run ts) := by
  rw [run_pair_orElse, run_orElse, run_pair, run_pair]
  refine Trace.sameResults_flatMap_append hp (fun x hx ↦ ?_) fun x hx ↦ ?_
  · rw [Trace.ending_map]
    exact hq x hx
  · rw [Trace.ending_map]
    exact hr x hx

/-- A parser with at most one result, paired with alternatives, runs like the alternative pairs. -/
theorem run_pair_orElse_of_length_le_one (hp : p.EndsOn ts)
    (hlength : (p.run ts).entries.length ≤ 1) :
    (pair p (orElse q r)).run ts = (orElse (pair p q) (pair p r)).run ts := by
  rw [run_pair_orElse, run_orElse, run_pair, run_pair]
  exact Trace.flatMap_append_of_length_le_one hp hlength

end Parser
end Backtrack
