import Backtrack.Proofs.Parser.Unrolling

/-!
# Runs that do not depend on the room

The room for nested definitions makes every run end. A run that would end without a limit is one
that more room does not change: such a run `Settles`. What settles is kept by all combinators, for
a repetition if each of its parts leaves fewer tokens than it finds.
-/

namespace Backtrack.Parser

variable {τ α β : Type}

/-- From this room on the run does not change, and its fault, if any, is one of `faults`. -/
def Settles (p : Nat → Parser τ α) (faults : Fault → Prop) (room : Nat) (ts : List τ) : Prop :=
  ∃ t : Trace (α × List τ), (∀ more, room ≤ more → (p more).run ts = t) ∧
    ∀ fault, t.ending = .some fault → faults fault

variable {p q : Nat → Parser τ α} {faults : Fault → Prop} {room : Nat} {ts : List τ}

/-- A run that settles at a room settles at any larger one. -/
theorem Settles.mono {room' : Nat} (h : Settles p faults room ts) (hle : room ≤ room') :
    Settles p faults room' ts := by
  obtain ⟨t, hrun, hfaults⟩ := h
  exact ⟨t, fun more hmore ↦ hrun more (Nat.le_trans hle hmore), hfaults⟩

/-- Parsers with the same runs settle alike. -/
theorem Settles.congr (h : Settles q faults room ts)
    (hrun : ∀ more, room ≤ more → (p more).run ts = (q more).run ts) :
    Settles p faults room ts := by
  obtain ⟨t, ht, hfaults⟩ := h
  exact ⟨t, fun more hmore ↦ (hrun more hmore).trans (ht more hmore), hfaults⟩

/-- A settled run equals the run at the room where it settles. -/
theorem Settles.run_eq (h : Settles p faults room ts) {more : Nat} (hmore : room ≤ more) :
    (p more).run ts = (p room).run ts := by
  obtain ⟨t, hrun, -⟩ := h
  rw [hrun more hmore, hrun room (Nat.le_refl room)]

/-- The fault of a settled run is one of `faults`. -/
theorem Settles.fault (h : Settles p faults room ts) {fault : Fault}
    (hf : ((p room).run ts).ending = .some fault) : faults fault := by
  obtain ⟨t, hrun, hfaults⟩ := h
  rw [hrun room (Nat.le_refl room)] at hf
  exact hfaults fault hf

/-- A parser that does not depend on the room settles if its faults are among `faults`. -/
theorem settles_const {p : Parser τ α}
    (h : ∀ fault, (p.run ts).ending = .some fault → faults fault) :
    Settles (fun _ ↦ p) faults room ts :=
  ⟨p.run ts, fun _ _ ↦ rfl, h⟩

/-- A value that reads nothing settles. -/
theorem settles_pure (a : α) : Settles (fun _ ↦ Parser.pure a) faults room ts :=
  settles_const fun _ h ↦ nomatch h

/-- Alternatives settle if both do. -/
theorem Settles.orElse (hp : Settles p faults room ts) (hq : Settles q faults room ts) :
    Settles (fun more ↦ orElse (p more) (q more)) faults room ts := by
  refine ⟨(Parser.orElse (p room) (q room)).run ts, ?_, ?_⟩
  · intro more hmore
    simp only [Parser.orElse, hp.run_eq hmore, hq.run_eq hmore]
  · intro fault h
    rw [Parser.orElse, Trace.ending_append, Option.or_eq_some_iff] at h
    rcases h with h | ⟨-, h⟩
    · exact hp.fault h
    · exact hq.fault h

/-- A dependent step settles if its first part does, and each continuation does behind the results
of the first part. -/
theorem Settles.bind {next : Nat → α → Parser τ β} (hp : Settles p faults room ts)
    (hnext : ∀ x ∈ ((p room).run ts).entries,
      Settles (fun more ↦ next more x.1) faults room x.2) :
    Settles (fun more ↦ bind (p more) (next more)) faults room ts := by
  refine ⟨(Parser.bind (p room) (next room)).run ts, ?_, ?_⟩
  · intro more hmore
    simp only [Parser.bind, hp.run_eq hmore]
    exact Trace.flatMap_congr fun x hx ↦ (hnext x hx).run_eq hmore
  · intro fault h
    rcases Trace.ending_flatMap_eq_some h with h | ⟨x, hx, h⟩
    · exact hp.fault h
    · exact (hnext x hx).fault h

/-- Mapping preserves settling. -/
theorem Settles.map (f : α → β) (hp : Settles p faults room ts) :
    Settles (fun more ↦ map f (p more)) faults room ts := by
  simp only [map_eq_bind]
  exact hp.bind fun x _ ↦ settles_pure (f x.1)

/-- Mapping preserves settling if every refusal that the run meets is one of `faults`. -/
theorem Settles.tryMap {f : α → Except Fault β} (hp : Settles p faults room ts)
    (hf : ∀ x ∈ ((p room).run ts).entries, ∀ fault, f x.1 = .error fault → faults fault) :
    Settles (fun more ↦ tryMap f (p more)) faults room ts := by
  simp only [tryMap_eq_bind]
  apply hp.bind
  intro x hx
  apply settles_const
  intro fault h
  cases hfx : f x.1 with
  | ok b =>
    rw [hfx] at h
    cases h
  | error e =>
    rw [hfx] at h
    obtain rfl := Option.some.inj h
    exact hf x hx e hfx

/-- A pair settles if its first part does, and its second part does on every leftover. -/
theorem Settles.pair {q : Nat → Parser τ β} (hp : Settles p faults room ts)
    (hq : ∀ x ∈ ((p room).run ts).entries, Settles q faults room x.2) :
    Settles (fun more ↦ pair (p more) (q more)) faults room ts := by
  simp only [pair_eq_bind]
  exact hp.bind fun x hx ↦ (hq x hx).map (Prod.mk x.1)

/-- A repetition settles if its part settles on every suffix and leaves fewer tokens. -/
theorem Settles.many (hp : ∀ vs, vs <:+ ts → Settles p faults room vs)
    (hshort : (p room).Shortens ts) :
    Settles (fun more ↦ many (p more)) faults room ts := by
  induction hn : ts.length using Nat.strongRecOn generalizing ts with
  | ind n ih =>
    subst hn
    -- With more room each part leaves the same tokens over, so the repetition is unrolled, too.
    have hunroll (more : Nat) (hmore : room ≤ more) :
        (Parser.many (p more)).run ts =
          (repeatStep (p more) (Parser.many (p more))).run ts := by
      apply run_many_eq_repeatStep
      intro vs hvs x hx
      rw [(hp vs hvs).run_eq hmore] at hx
      exact hshort vs hvs x hx
    refine Settles.congr (Settles.orElse ?_ (settles_pure [])) hunroll
    simp only [seq_eq_bind]
    apply ((hp ts List.suffix_rfl).map List.cons).bind
    intro x hx
    rw [run_map, Trace.entries_map, List.mem_map] at hx
    obtain ⟨y, hy, rfl⟩ := hx
    obtain ⟨hsuffix, hlt⟩ := hshort ts List.suffix_rfl y hy
    have hrest := ih y.2.length hlt (fun vs hvs ↦ hp vs (hvs.trans hsuffix))
      (hshort.of_suffix hsuffix) rfl
    exact hrest.map _

end Backtrack.Parser
