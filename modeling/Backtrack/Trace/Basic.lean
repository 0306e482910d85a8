import Backtrack.Fault

/-!
# Traces

A trace is what a run shows when its results are asked for one after another: results in
order, and then either an ordinary end or a fault. Each result is worked out only when it is
asked for. A trace is finite, so every question about it can be answered by recursion; its
two views are `entries`, the results in order, and `ending`, the fault that stops it if one
does. Every operation here has a lemma for each view, and `ext` says that the views determine
the trace.
-/

namespace Backtrack

/-- Results in order, ended by nothing more or by a fault. -/
inductive Trace (α : Type) where
  /-- There are no more results. -/
  | done
  /-- The run stops with a fault. -/
  | raised (fault : Fault)
  /-- A result, and what follows it once somebody asks. -/
  | yield (result : α) (more : Unit → Trace α)

namespace Trace

variable {α β γ : Type}

/-- The results in order, up to the end or the fault. -/
def entries : Trace α → List α
  | done => []
  | raised _ => []
  | yield a more => a :: (more ()).entries

/-- The fault that stops the trace, if it does not end by itself. -/
def ending : Trace α → Option Fault
  | done => none
  | raised f => some f
  | yield _ more => (more ()).ending

/-- Two traces with the same results and the same ending are one trace. -/
theorem ext {s t : Trace α} (he : s.entries = t.entries) (hf : s.ending = t.ending) :
    s = t := by
  induction s generalizing t with
  | done => cases t <;> simp_all [entries, ending]
  | raised f => cases t <;> simp_all [entries, ending]
  | yield a more ih =>
    cases t with
    | done => simp [entries] at he
    | raised f => simp [entries] at he
    | yield b more' =>
      simp only [entries, List.cons.injEq] at he
      obtain ⟨rfl, he⟩ := he
      have h : more = more' := funext fun _ ↦ ih () he hf
      rw [h]

/-- How many results a trace has. -/
def length : Trace α → Nat
  | done => 0
  | raised _ => 0
  | yield _ more => (more ()).length + 1

/-- The trace with these results and an ordinary end. -/
def ofList : List α → Trace α
  | [] => done
  | a :: as => yield a fun _ ↦ ofList as

/-- First one trace, then another, which is not begun before the first has ended. -/
def append : Trace α → (Unit → Trace α) → Trace α
  | done, next => next ()
  | raised f, _ => raised f
  | yield a more, next => yield a fun _ ↦ (more ()).append next

/-- A trace that ends by itself is followed by the next one's results. -/
theorem entries_append (s : Trace α) (next : Unit → Trace α) :
    (s.append next).entries =
      s.entries ++ if s.ending.isNone then (next ()).entries else [] := by
  induction s with
  | done => simp [append, entries, ending]
  | raised f => simp [append, entries, ending]
  | yield a more ih => simp [append, entries, ending, ih ()]

/-- The first fault met is the one that stops the whole. -/
theorem ending_append (s : Trace α) (next : Unit → Trace α) :
    (s.append next).ending = s.ending.or (next ()).ending := by
  induction s with
  | done => simp [append, ending]
  | raised f => simp [append, ending]
  | yield a more ih => simpa [append, ending] using ih ()

/-- Nothing after a trace changes nothing. -/
theorem append_done (s : Trace α) : s.append (fun _ ↦ done) = s := by
  induction s with
  | done => rfl
  | raised f => rfl
  | yield a more ih => simp [append, ih]

/-- Appending does not depend on how it is bracketed. -/
theorem append_assoc (s : Trace α) (t u : Unit → Trace α) :
    (s.append t).append u = s.append fun _ ↦ (t ()).append u := by
  induction s with
  | done => rfl
  | raised f => rfl
  | yield a more ih => simp [append, ih]

/-- Every result through `f`. -/
def map (f : α → β) : Trace α → Trace β
  | done => done
  | raised e => raised e
  | yield a more => yield (f a) fun _ ↦ (more ()).map f

/-- Mapping a trace maps its results. -/
theorem entries_map (f : α → β) (s : Trace α) : (s.map f).entries = s.entries.map f := by
  induction s with
  | done => rfl
  | raised e => rfl
  | yield a more ih => simp [map, entries, ih ()]

/-- Mapping a trace keeps its ending. -/
theorem ending_map (f : α → β) (s : Trace α) : (s.map f).ending = s.ending := by
  induction s with
  | done => rfl
  | raised e => rfl
  | yield a more ih => simpa [map, ending] using ih ()

/-- Every result through `f`; the first result that `f` refuses stops the trace. -/
def tryMap (f : α → Except Fault β) : Trace α → Trace β
  | done => done
  | raised e => raised e
  | yield a more =>
    match f a with
    | .error e => raised e
    | .ok b => yield b fun _ ↦ (more ()).tryMap f

/-- A function that refuses nothing maps the trace. -/
theorem tryMap_ok (f : α → β) (s : Trace α) : s.tryMap (fun a ↦ .ok (f a)) = s.map f := by
  induction s with
  | done => rfl
  | raised e => rfl
  | yield a more ih => simp [tryMap, map, ih]

/-- For every result in turn, the trace that `f` gives for it. -/
def flatMap : Trace α → (α → Trace β) → Trace β
  | done, _ => done
  | raised e, _ => raised e
  | yield a more, f =>
    match f a with
    | done => (more ()).flatMap f
    | raised e => raised e
    | yield b more' => yield b fun _ ↦ (more' ()).append fun _ ↦ (more ()).flatMap f

/-- A result contributes its own trace in front of what the later results contribute. -/
theorem flatMap_yield (a : α) (more : Unit → Trace α) (f : α → Trace β) :
    (yield a more).flatMap f = (f a).append fun _ ↦ (more ()).flatMap f := by
  rw [flatMap]
  cases f a <;> rfl

/-- Going through a concatenation goes through its parts in turn. -/
theorem flatMap_append (s : Trace α) (next : Unit → Trace α) (f : α → Trace β) :
    (s.append next).flatMap f = (s.flatMap f).append fun _ ↦ (next ()).flatMap f := by
  induction s with
  | done => rfl
  | raised e => rfl
  | yield a more ih =>
    simp only [append, flatMap_yield, append_assoc]
    congr 1
    exact funext fun _ ↦ ih ()

/-- Going through the results twice is going through them once with both steps. -/
theorem flatMap_flatMap (s : Trace α) (f : α → Trace β) (g : β → Trace γ) :
    (s.flatMap f).flatMap g = s.flatMap fun a ↦ (f a).flatMap g := by
  induction s with
  | done => rfl
  | raised e => rfl
  | yield a more ih =>
    simp only [flatMap_yield, flatMap_append]
    congr 1
    exact funext fun _ ↦ ih ()

/-- The results of a run in order, or the fault that stops it. -/
def toList (s : Trace α) : Except Fault (List α) :=
  collect [] s
where
  /-- The rest of a run, after results that are `found` already, latest first. -/
  collect (found : List α) : Trace α → Except Fault (List α)
    | done => .ok found.reverse
    | raised e => .error e
    | yield a more => collect (a :: found) (more ())

/-- Collecting keeps what is found and adds the entries. -/
private theorem collect_eq (found : List α) (s : Trace α) :
    toList.collect found s =
      match s.ending with
      | none => .ok (found.reverse ++ s.entries)
      | some e => .error e := by
  induction s generalizing found with
  | done => simp [toList.collect, entries, ending]
  | raised e => simp [toList.collect, ending]
  | yield a more ih =>
    rw [toList.collect, ih () (a :: found)]
    simp [entries, ending]

/-- A run that ends by itself gives its entries; another one gives its fault. -/
theorem toList_eq (s : Trace α) :
    s.toList = match s.ending with
      | none => .ok s.entries
      | some e => .error e := by
  simp [toList, collect_eq]

/-- At most the first `n` results; what comes after the last of them is not looked at. -/
def take (n : Nat) (s : Trace α) : Except Fault (List α) :=
  collect [] n s
where
  /-- At most `n` more results, after those that are `found` already, latest first. -/
  collect (found : List α) : Nat → Trace α → Except Fault (List α)
    | 0, _ => .ok found.reverse
    | _ + 1, done => .ok found.reverse
    | _ + 1, raised e => .error e
    | n + 1, yield a more => collect (a :: found) n (more ())

end Trace
end Backtrack
