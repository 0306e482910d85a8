import Backtrack.Proofs.Parser.Repeat

/-!
# A repetition unrolled

`many` searches with what is still to be tried in a continuation. The same search can be kept on
a stack of suspended runs, one for each repetition that is open, and it can be told by recursion:
once and then any number more, or else not at all. Where each repetition leaves fewer tokens than
it finds, all of these show the same results in the same order and stop with the same fault. This
is `many_unrolled`.
-/

namespace Backtrack

/-- A repetition that is open: what has been read so far, the results of one more that are still
to be tried, and the tokens that these begin on. -/
structure Frame (τ α : Type) where
  /-- The values of the repetitions so far. -/
  found : List α
  /-- One more, as far as it is not tried yet. -/
  options : Trace (α × List τ)
  /-- The tokens behind the repetitions so far. -/
  here : List τ

namespace Parser

variable {τ α : Type}

/-! ### The stack -/

/-- The trace of the search from a stack of open repetitions, the innermost of them first. -/
inductive Unwinds (p : Parser τ α) : List (Frame τ α) → Trace (List α × List τ) → Prop
  /-- The search is over when no repetition is open. -/
  | finish : Unwinds p [] .done
  /-- With nothing more to try, the innermost repetition is a result and is closed. -/
  | close {found : List α} {here : List τ} {stack : List (Frame τ α)}
      {more : Unit → Trace (List α × List τ)} :
    Unwinds p stack (more ()) →
    Unwinds p (⟨found, .done, here⟩ :: stack) (.yield (found, here) more)
  /-- A fault leaves nothing of the stack. -/
  | stop {found : List α} {fault : Fault} {here : List τ} {stack : List (Frame τ α)} :
    Unwinds p (⟨found, .raised fault, here⟩ :: stack) (.raised fault)
  /-- What is to be tried next is one repetition more, opened inside the innermost one. -/
  | enter {found : List α} {a : α} {rest here : List τ} {more : Unit → Trace (α × List τ)}
      {stack : List (Frame τ α)} {t : Trace (List α × List τ)} :
    Unwinds p (⟨found ++ [a], p.run rest, rest⟩ :: ⟨found, more (), here⟩ :: stack) t →
    Unwinds p (⟨found, .yield (a, rest) more, here⟩ :: stack) t

/-- A stack unwinds to at most one trace. -/
theorem Unwinds.unique {p : Parser τ α} {stack : List (Frame τ α)}
    {t t' : Trace (List α × List τ)} (h : Unwinds p stack t) (h' : Unwinds p stack t') :
    t = t' := by
  induction h generalizing t' with
  | finish =>
    cases h'
    rfl
  | close _ ih =>
    cases h' with
    | close h' =>
      have hmore := ih h'
      congr 1
      exact funext fun _ ↦ hmore
  | stop =>
    cases h'
    rfl
  | enter _ ih =>
    cases h' with
    | enter h' => exact ih h'

/-- On every end of the tokens, each result leaves a shorter end over. -/
def Shortens (p : Parser τ α) (ts : List τ) : Prop :=
  ∀ vs, vs <:+ ts → ∀ x ∈ (p.run vs).entries, x.2 <:+ vs ∧ x.2.length < vs.length

/-- A parser that shortens the tokens shortens every suffix. -/
theorem Shortens.of_suffix {p : Parser τ α} {ts us : List τ} (h : p.Shortens ts)
    (hu : us <:+ ts) : p.Shortens us :=
  fun vs hv ↦ h vs (hv.trans hu)

/-- The stack of open repetitions unwinds to the trace of `repeatFrom`. -/
theorem unwinds_repeatFrom {p : Parser τ α} (found : List α) {here : List τ}
    {options : Trace (α × List τ)} (after : Unit → Trace (List α × List τ))
    {stack : List (Frame τ α)} (hp : p.Shortens here)
    (ho : ∀ x ∈ options.entries, x.2 <:+ here ∧ x.2.length < here.length)
    (hs : Unwinds p stack (after ())) :
    Unwinds p (⟨found.reverse, options, here⟩ :: stack)
      (repeatFrom p found here options after) := by
  -- The measure of the search: first the tokens that are left, then the options.
  induction hn : here.length using Nat.strongRecOn
    generalizing found here options after stack with
  | ind n ih =>
    subst hn
    induction options generalizing after stack with
    | done =>
      rw [repeatFrom]
      exact .close hs
    | raised fault =>
      rw [repeatFrom]
      exact .stop
    | yield x more ihm =>
      obtain ⟨a, rest⟩ := x
      obtain ⟨hsuffix, hlt⟩ := ho (a, rest) List.mem_cons_self
      have hrest : p.Shortens rest := hp.of_suffix hsuffix
      have hmore : Unwinds p (⟨found.reverse, more (), here⟩ :: stack)
          (repeatFrom p found here (more ()) after) :=
        ihm () after (fun x hx ↦ ho x (List.mem_cons_of_mem _ hx)) hs
      have hinner := ih rest.length hlt (a :: found)
        (fun _ ↦ repeatFrom p found here (more ()) after) hrest (hrest rest List.suffix_rfl)
        hmore rfl
      rw [List.reverse_cons] at hinner
      rw [repeatFrom, if_pos hlt]
      exact .enter hinner

/-! ### The recursion -/

/-- Once and then `m`, or else not at all. -/
def repeatStep (p : Parser τ α) (m : Parser τ (List α)) : Parser τ (List α) :=
  orElse (seq (map List.cons p) m) (Parser.pure [])

/-- Any number in a row by recursion, where at most `room` of them may be open inside one
another. -/
def unrolled (p : Parser τ α) : (room : Nat) → Parser τ (List α)
  | 0 => .failing .overflow
  | room + 1 => .defer fun _ ↦ repeatStep p (unrolled p room)

/-- A step goes on from each result in turn, and then reads nothing. -/
theorem run_repeatStep (p : Parser τ α) (m : Parser τ (List α)) (ts : List τ) :
    (repeatStep p m).run ts =
      ((p.run ts).flatMap fun x ↦ (m.run x.2).map fun y ↦ (x.1 :: y.1, y.2)).append
        fun _ ↦ .yield ([], ts) fun _ ↦ .done := by
  simp only [repeatStep, orElse, seq, map, Parser.pure, Trace.flatMap_map]

/-- A step depends on what goes on from its results only. -/
theorem run_repeatStep_congr {p : Parser τ α} {m m' : Parser τ (List α)} {ts : List τ}
    (h : ∀ x ∈ (p.run ts).entries, m.run x.2 = m'.run x.2) :
    (repeatStep p m).run ts = (repeatStep p m').run ts := by
  have hflat := Trace.flatMap_congr
    (f := fun x : α × List τ ↦ (m.run x.2).map fun y ↦ (x.1 :: y.1, y.2))
    (g := fun x ↦ (m'.run x.2).map fun y ↦ (x.1 :: y.1, y.2))
    fun x hx ↦ by rw [h x hx]
  rw [run_repeatStep, run_repeatStep, hflat]

/-- A repetition satisfies its recursive equation. -/
theorem run_many_eq_repeatStep {p : Parser τ α} {ts : List τ} (hp : p.Shortens ts) :
    (many p).run ts = (repeatStep p (many p)).run ts := by
  have hafter : (p.run ts).flatMap (repeatAfter p ts) =
      (p.run ts).flatMap fun x ↦ ((many p).run x.2).map fun y ↦ (x.1 :: y.1, y.2) := by
    apply Trace.flatMap_congr
    intro x hx
    have hlt : x.2.length < ts.length := (hp ts List.suffix_rfl x hx).2
    rw [repeatAfter, if_pos hlt]
  rw [run_many, run_repeatStep, hafter]

/-- A parser that satisfies the recursive equation on every suffix runs like the repetition. -/
theorem run_eq_run_many {p : Parser τ α} {m : Parser τ (List α)} {ts : List τ}
    (hp : p.Shortens ts) (hm : ∀ vs, vs <:+ ts → m.run vs = (repeatStep p m).run vs) :
    m.run ts = (many p).run ts := by
  induction hn : ts.length using Nat.strongRecOn generalizing ts with
  | ind n ih =>
    subst hn
    rw [hm ts List.suffix_rfl, run_many_eq_repeatStep hp]
    apply run_repeatStep_congr
    intro x hx
    obtain ⟨hsuffix, hlt⟩ := hp ts List.suffix_rfl x hx
    exact ih x.2.length hlt (hp.of_suffix hsuffix) (fun vs hv ↦ hm vs (hv.trans hsuffix)) rfl

/-- The recursion with room for one step more than there are tokens runs like the repetition. -/
theorem run_unrolled {p : Parser τ α} {ts : List τ} {room : Nat} (hp : p.Shortens ts)
    (hroom : ts.length < room) : (unrolled p room).run ts = (many p).run ts := by
  induction room generalizing ts with
  | zero => exact absurd hroom (Nat.not_lt_zero _)
  | succ room ih =>
    rw [run_many_eq_repeatStep hp]
    apply run_repeatStep_congr
    intro x hx
    obtain ⟨hsuffix, hlt⟩ := hp ts List.suffix_rfl x hx
    have hlt' : x.2.length < room := by omega
    exact ih (hp.of_suffix hsuffix) hlt'

/-- A fault of a repetition is a fault of `p` on some suffix. -/
theorem ending_run_many {p : Parser τ α} {ts : List τ} {fault : Fault} (hp : p.Shortens ts)
    (h : ((many p).run ts).ending = .some fault) :
    ∃ vs, vs <:+ ts ∧ (p.run vs).ending = .some fault := by
  induction hn : ts.length using Nat.strongRecOn generalizing ts with
  | ind n ih =>
    subst hn
    rw [run_many_eq_repeatStep hp, run_repeatStep, Trace.ending_append,
      Option.or_eq_some_iff] at h
    rcases h with h | ⟨-, h⟩
    · rcases Trace.ending_flatMap_eq_some h with h | ⟨x, hx, h⟩
      · exact ⟨ts, List.suffix_rfl, h⟩
      · obtain ⟨hsuffix, hlt⟩ := hp ts List.suffix_rfl x hx
        rw [Trace.ending_map] at h
        obtain ⟨vs, hvs, hf⟩ := ih x.2.length hlt (hp.of_suffix hsuffix) h rfl
        exact ⟨vs, hvs.trans hsuffix, hf⟩
    · cases h

/-! ### All forms together -/

/-- Where each result of `p` leaves fewer tokens than it finds, the search for any number in a row
is the work of the stack, it is the one solution of the recursion and the recursion itself with
enough room, it is one or more or else none, and it is stopped by the faults of `p` only. -/
theorem many_unrolled {p : Parser τ α} {ts : List τ} (hp : p.Shortens ts) :
    (∀ t, Unwinds p [⟨[], p.run ts, ts⟩] t ↔ t = (many p).run ts) ∧
      (∀ m : Parser τ (List α), (∀ vs, vs <:+ ts → m.run vs = (repeatStep p m).run vs) →
        m.run ts = (many p).run ts) ∧
      (∀ room, ts.length < room → (unrolled p room).run ts = (many p).run ts) ∧
      (many p).run ts = (orElse (some p) (Parser.pure [])).run ts ∧
      ∀ fault, ((many p).run ts).ending = .some fault →
        ∃ vs, vs <:+ ts ∧ (p.run vs).ending = .some fault := by
  have hstack : Unwinds p [⟨[], p.run ts, ts⟩] ((many p).run ts) :=
    unwinds_repeatFrom [] (fun _ ↦ .done) hp (hp ts List.suffix_rfl) .finish
  refine ⟨?_, ?_, ?_, ?_, ?_⟩
  · intro t
    constructor
    · intro h
      exact h.unique hstack
    · rintro rfl
      exact hstack
  · intro m hm
    exact run_eq_run_many hp hm
  · intro room hroom
    exact run_unrolled hp hroom
  · exact run_many_eq_repeatStep hp
  · intro fault h
    exact ending_run_many hp h

/-- The token 1 in two ways, and then a fault instead of a third one. -/
def faultyOne : Parser Nat Nat :=
  orElse (single 1) (orElse (map (· + 9) (single 1))
    (bind (single 1) fun _ ↦ failing (.failure "no third way")))

/-- The search through the two ways is cut off by the fault before the empty run is reached. -/
theorem many_faultyOne :
    faultyOne.Shortens [1, 2] ∧
      ((many faultyOne).run [1, 2]).entries = [([1], [2]), ([10], [2])] ∧
      ((many faultyOne).run [1, 2]).ending = .some (.failure "no third way") := by
  have hp : faultyOne.Shortens [1, 2] := by
    intro vs _ x hx
    cases vs with
    | nil => exact absurd hx List.not_mem_nil
    | cons v vs =>
      by_cases hv : v = 1
      · subst hv
        have he : (faultyOne.run (1 :: vs)).entries = [(1, vs), (10, vs)] := rfl
        have hx2 : x.2 = vs := by
          rw [he] at hx
          rcases List.mem_cons.mp hx with rfl | hx
          · rfl
          · rw [List.mem_singleton.mp hx]
        rw [hx2]
        exact ⟨List.suffix_cons 1 vs, Nat.lt_succ_self _⟩
      · have he : (faultyOne.run (v :: vs)).entries = [] := by
          simp [faultyOne, orElse, single, satisfy, token, map, bind, hv, Trace.append,
            Trace.map, Trace.flatMap, Trace.entries]
        rw [he] at hx
        exact absurd hx List.not_mem_nil
  have hrun : (unrolled faultyOne 3).run [1, 2] = (many faultyOne).run [1, 2] :=
    (many_unrolled hp).2.2.1 3 (by decide)
  rw [← hrun]
  exact ⟨hp, rfl, rfl⟩

end Parser
end Backtrack
