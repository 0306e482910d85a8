import Backtrack.Proofs.Trace.Entries

/-!
# Traces that go on where others stop

One trace extends another if it shows the same results up to the fault that stops the other one,
and is the same where no fault does. What is composed of extensions extends what is composed of
the originals, since no part of a composition is looked at before a result needs it. So the first
results, as many as are asked for, do not change (`Extends.take`).
-/

namespace Backtrack.Trace

variable {α β : Type}

/-- `t` shows what `s` shows, and goes on only where a fault stops `s`. -/
structure Extends (t s : Trace α) : Prop where
  /-- The entries of `s` are a prefix of those of `t`. -/
  results : s.entries <+: t.entries
  /-- A trace that ends without a fault is extended by itself only. -/
  eq_of_ends : s.ending = none → t = s

/-- Every trace extends itself. -/
theorem extends_refl (s : Trace α) : s.Extends s := ⟨List.prefix_rfl, fun _ ↦ rfl⟩

/-- Every trace extends a trace that is stopped at once. -/
theorem extends_raised (t : Trace α) (fault : Fault) : t.Extends (raised fault) where
  results := List.nil_prefix
  eq_of_ends he := nomatch he

/-- A common first entry preserves extension. -/
theorem Extends.yield (a : α) {more more' : Unit → Trace α} (h : (more' ()).Extends (more ())) :
    (yield a more').Extends (yield a more) where
  results := List.cons_prefix_cons.mpr ⟨rfl, h.results⟩
  eq_of_ends he := by
    have hmore : more' = more := funext fun _ ↦ h.eq_of_ends he
    rw [hmore]

/-- An extension of a trace with a first entry has the same first entry. -/
theorem Extends.exists_of_yield {a : α} {more : Unit → Trace α} {t : Trace α}
    (h : t.Extends (Trace.yield a more)) :
    ∃ more', t = Trace.yield a more' ∧ (more' ()).Extends (more ()) := by
  have hresults := h.results
  cases t with
  | done => exact absurd (List.prefix_nil.mp hresults) (List.cons_ne_nil _ _)
  | raised fault => exact absurd (List.prefix_nil.mp hresults) (List.cons_ne_nil _ _)
  | yield b more' =>
    obtain ⟨rfl, hmore⟩ := List.cons_prefix_cons.mp hresults
    refine ⟨more', rfl, hmore, fun he ↦ ?_⟩
    have heq : more' = more := (Trace.yield.inj (h.eq_of_ends he)).2
    rw [heq]

/-- Concatenation preserves extension of both parts. -/
theorem Extends.append {s t : Trace α} {next next' : Unit → Trace α} (h : t.Extends s)
    (hnext : (next' ()).Extends (next ())) : (t.append next').Extends (s.append next) := by
  induction s generalizing t with
  | done =>
    obtain rfl := h.eq_of_ends rfl
    exact hnext
  | raised fault => exact extends_raised _ fault
  | yield a more ih =>
    obtain ⟨more', rfl, hmore⟩ := h.exists_of_yield
    exact (ih () hmore).yield a

/-- A flat map extends if the trace and what its entries lead to do. -/
theorem Extends.flatMap {s t : Trace α} {f g : α → Trace β} (h : t.Extends s)
    (hfg : ∀ a, (g a).Extends (f a)) : (t.flatMap g).Extends (s.flatMap f) := by
  induction s generalizing t with
  | done =>
    obtain rfl := h.eq_of_ends rfl
    exact extends_refl .done
  | raised fault => exact extends_raised _ fault
  | yield a more ih =>
    obtain ⟨more', rfl, hmore⟩ := h.exists_of_yield
    rw [flatMap_yield, flatMap_yield]
    exact (hfg a).append (ih () hmore)

/-- Mapping preserves extension. -/
theorem Extends.map {s t : Trace α} (f : α → β) (h : t.Extends s) :
    (t.map f).Extends (s.map f) where
  results := by
    rw [entries_map, entries_map]
    exact h.results.map f
  eq_of_ends he := by
    rw [ending_map] at he
    rw [h.eq_of_ends he]

private theorem collect_of_extends {s t : Trace α} (h : t.Extends s) {found : List α} {n : Nat}
    {as : List α} (hs : take.collect found n s = .ok as) : take.collect found n t = .ok as := by
  induction s generalizing t found n with
  | done =>
    obtain rfl := h.eq_of_ends rfl
    exact hs
  | raised fault =>
    cases n with
    | zero => exact hs
    | succ n => cases hs
  | yield a more ih =>
    obtain ⟨more', rfl, hmore⟩ := h.exists_of_yield
    cases n with
    | zero => exact hs
    | succ n => exact ih () hmore hs

/-- Entries taken before a fault are taken from every extension. -/
theorem Extends.take {s t : Trace α} (h : t.Extends s) {n : Nat} {as : List α}
    (hs : s.take n = .ok as) : t.take n = .ok as :=
  collect_of_extends h hs

end Backtrack.Trace
