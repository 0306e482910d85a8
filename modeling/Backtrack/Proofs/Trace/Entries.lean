import Backtrack.Trace.Basic

/-!
# The results of composed traces

What the results and the ending of a composed trace say about its parts. A fault hides whatever
comes after it, so the results of a composition are in general only a beginning of what the
parts have to offer; they are all of it when the composition ends by itself. The laws of `map`
let a composition be brought into another form without looking at its results.
-/

namespace Backtrack.Trace

variable {α β γ : Type}

/-! ### One trace after another -/

/-- A concatenation ends without a fault exactly if both parts do. -/
theorem ending_append_eq_none_iff {s : Trace α} {next : Unit → Trace α} :
    (s.append next).ending = none ↔ s.ending = none ∧ (next ()).ending = none := by
  rw [ending_append, Option.or_eq_none_iff]

/-- The entries of a concatenation whose first part ends without a fault are those of both parts. -/
theorem entries_append_of_ending {s : Trace α} (h : s.ending = none) (next : Unit → Trace α) :
    (s.append next).entries = s.entries ++ (next ()).entries := by
  rw [entries_append, h, Option.isNone_none, if_pos rfl]

/-- The entries of a concatenation are a prefix of those of both parts. -/
theorem isPrefix_entries_append (s : Trace α) (next : Unit → Trace α) :
    (s.append next).entries <+: s.entries ++ (next ()).entries := by
  rw [entries_append]
  split
  · exact List.prefix_rfl
  · exact (List.prefix_append_right_inj s.entries).mpr List.nil_prefix

/-- Every entry of a concatenation is one of the first or of the second part. -/
theorem mem_or_mem_of_append {s : Trace α} {next : Unit → Trace α} {a : α}
    (h : a ∈ (s.append next).entries) : a ∈ s.entries ∨ a ∈ (next ()).entries :=
  List.mem_append.mp ((isPrefix_entries_append s next).subset h)

/-! ### One trace for each result of another -/

/-- A flat map ends without a fault exactly if the trace does and each of its entries leads to a
trace that does. -/
theorem ending_flatMap_eq_none_iff {s : Trace α} {f : α → Trace β} :
    (s.flatMap f).ending = none ↔ s.ending = none ∧ ∀ a ∈ s.entries, (f a).ending = none := by
  induction s with
  | done => simp [flatMap, ending, entries]
  | raised e => simp [flatMap, ending]
  | yield a more ih =>
    rw [flatMap_yield, ending_append_eq_none_iff, ih ()]
    simp only [ending, entries, List.mem_cons, forall_eq_or_imp]
    exact and_left_comm

/-- A fault of a flat map is that of the trace or of what one of its entries leads to. -/
theorem ending_flatMap_eq_some {s : Trace α} {f : α → Trace β} {e : Fault}
    (h : (s.flatMap f).ending = some e) :
    s.ending = some e ∨ ∃ a ∈ s.entries, (f a).ending = some e := by
  induction s with
  | done => exact .inl h
  | raised e' => exact .inl h
  | yield a more ih =>
    rw [flatMap_yield, ending_append, Option.or_eq_some_iff] at h
    rcases h with ha | ⟨-, hm⟩
    · exact .inr ⟨a, List.mem_cons_self, ha⟩
    · apply (ih () hm).imp_right
      rintro ⟨b, hb, he⟩
      exact ⟨b, List.mem_cons_of_mem a hb, he⟩

/-- The entries of a flat map are a prefix of those that the entries lead to. -/
theorem isPrefix_entries_flatMap (s : Trace α) (f : α → Trace β) :
    (s.flatMap f).entries <+: s.entries.flatMap fun a ↦ (f a).entries := by
  induction s with
  | done => exact List.prefix_rfl
  | raised e => exact List.prefix_rfl
  | yield a more ih =>
    rw [flatMap_yield, entries, List.flatMap_cons]
    exact (isPrefix_entries_append _ _).trans ((List.prefix_append_right_inj _).mpr (ih ()))

/-- Every entry of a flat map is one that some entry leads to. -/
theorem exists_of_mem_flatMap {s : Trace α} {f : α → Trace β} {b : β}
    (h : b ∈ (s.flatMap f).entries) : ∃ a ∈ s.entries, b ∈ (f a).entries :=
  List.mem_flatMap.mp ((isPrefix_entries_flatMap s f).subset h)

/-- The entries of a flat map without a fault are those that the entries lead to. -/
theorem entries_flatMap_of_ending {s : Trace α} {f : α → Trace β}
    (h : (s.flatMap f).ending = none) :
    (s.flatMap f).entries = s.entries.flatMap fun a ↦ (f a).entries := by
  induction s with
  | done => rfl
  | raised e => rfl
  | yield a more ih =>
    rw [flatMap_yield] at h ⊢
    obtain ⟨ha, hm⟩ := ending_append_eq_none_iff.mp h
    rw [entries_append_of_ending ha, ih () hm, entries, List.flatMap_cons]

/-- A flat map depends on what the entries lead to only. -/
theorem flatMap_congr {s : Trace α} {f g : α → Trace β} (h : ∀ a ∈ s.entries, f a = g a) :
    s.flatMap f = s.flatMap g := by
  induction s with
  | done => rfl
  | raised e => rfl
  | yield a more ih =>
    have ha : f a = g a := h a List.mem_cons_self
    have hm : (more ()).flatMap f = (more ()).flatMap g :=
      ih () fun b hb ↦ h b (List.mem_cons_of_mem a hb)
    rw [flatMap_yield, flatMap_yield, ha, hm]

/-! ### The laws of `map` -/

/-- Mapping every result to itself changes nothing. -/
theorem map_id (s : Trace α) : (s.map fun a ↦ a) = s := by
  induction s with
  | done => rfl
  | raised e => rfl
  | yield a more ih => simp only [map, ih]

/-- Mapping twice is mapping once with both functions. -/
theorem map_map (f : α → β) (g : β → γ) (s : Trace α) :
    (s.map f).map g = s.map fun a ↦ g (f a) := by
  induction s with
  | done => rfl
  | raised e => rfl
  | yield a more ih => simp only [map, ih]

/-- Mapping a concatenation maps its parts. -/
theorem map_append (f : α → β) (s : Trace α) (next : Unit → Trace α) :
    (s.append next).map f = (s.map f).append fun _ ↦ (next ()).map f := by
  induction s with
  | done => rfl
  | raised e => rfl
  | yield a more ih => simp only [map, append, ih]

/-- A flat map of a mapped trace composes the functions. -/
theorem flatMap_map (f : α → β) (g : β → Trace γ) (s : Trace α) :
    (s.map f).flatMap g = s.flatMap fun a ↦ g (f a) := by
  induction s with
  | done => rfl
  | raised e => rfl
  | yield a more ih => simp only [map, flatMap_yield, ih]

/-- Mapping a flat map maps what the entries lead to. -/
theorem map_flatMap (f : α → Trace β) (g : β → γ) (s : Trace α) :
    (s.flatMap f).map g = s.flatMap fun a ↦ (f a).map g := by
  induction s with
  | done => rfl
  | raised e => rfl
  | yield a more ih => simp only [flatMap_yield, map_append, ih]

/-! ### Values that may be refused -/

/-- Mapping twice, refusals included, is mapping once with both functions. -/
theorem tryMap_map (f : α → β) (g : β → Except Fault γ) (s : Trace α) :
    (s.map f).tryMap g = s.tryMap fun a ↦ g (f a) := by
  induction s with
  | done => rfl
  | raised e => rfl
  | yield a more ih => simp only [map, tryMap, ih]

/-- Mapping a concatenation maps its parts, refusals included. -/
theorem tryMap_append (f : α → Except Fault β) (s : Trace α) (next : Unit → Trace α) :
    (s.append next).tryMap f = (s.tryMap f).append fun _ ↦ (next ()).tryMap f := by
  induction s with
  | done => rfl
  | raised e => rfl
  | yield a more ih =>
    rw [append, tryMap, tryMap]
    cases f a with
    | error e => rfl
    | ok b => simp only [append, ih]

/-- Mapping a flat map maps what the entries lead to, refusals included. -/
theorem tryMap_flatMap (f : α → Trace β) (g : β → Except Fault γ) (s : Trace α) :
    (s.flatMap f).tryMap g = s.flatMap fun a ↦ (f a).tryMap g := by
  induction s with
  | done => rfl
  | raised e => rfl
  | yield a more ih => simp only [flatMap_yield, tryMap_append, ih]

end Backtrack.Trace
