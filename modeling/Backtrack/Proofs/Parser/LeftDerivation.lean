import Backtrack.Parser.Combinators
import Mathlib.Data.Set.Insert

/-!
# Derivations by a left recursive production

The production `X → X op term | term` begins with itself, so it cannot be run as it stands, but its
derivations are data: a result of `term`, and then any number of steps, each a result of `op` and a
result of `term` behind it. Results are told apart by their place in the run that shows them, so
that equal results of an ambiguous part make different derivations. `Enumerates` says that a list
of results is that of all derivations of some kind, each once and the longer ones first;
enumerations of kinds that have nothing to do with each other can be put together.
-/

namespace Backtrack

/-- A derivation by `X → X op term | term`. -/
inductive LeftDerivation where
  /-- The result of `term` at place `i`. -/
  | term (i : Nat)
  /-- A shorter derivation, the result of `op` at place `j` behind it and the result of `term` at
  place `k` behind that. -/
  | step (d : LeftDerivation) (j k : Nat)
  deriving DecidableEq, Repr

namespace LeftDerivation

/-- The number of operators of a derivation. -/
def steps : LeftDerivation → Nat
  | term _ => 0
  | step d _ _ => d.steps + 1

/-- The derivation begins with `d` and has one or more further steps. -/
def Extends : LeftDerivation → LeftDerivation → Prop
  | term _, _ => False
  | step e _ _, d => e = d ∨ e.Extends d

/-- The derivations that begin with `d`, including `d`. -/
def onwards (d : LeftDerivation) : Set LeftDerivation := {e | e = d ∨ e.Extends d}

/-- Every derivation begins with itself. -/
theorem self_mem_onwards (d : LeftDerivation) : d ∈ d.onwards := .inl rfl

/-- Adding a step to a derivation preserves its beginnings. -/
theorem step_mem_onwards {d e : LeftDerivation} (h : e ∈ d.onwards) (j k : Nat) :
    step e j k ∈ d.onwards := .inr h

/-- Beginning with a derivation is transitive. -/
theorem onwards_subset {d e : LeftDerivation} (h : e ∈ d.onwards) : e.onwards ⊆ d.onwards := by
  intro c hc
  induction c with
  | term i =>
    obtain rfl := hc.resolve_right id
    exact h
  | step c j k ih =>
    rcases hc with rfl | hc
    · exact h
    · exact step_mem_onwards (ih hc) j k

/-- A derivation has at least as many steps as each of its beginnings. -/
theorem steps_le_of_mem_onwards {d e : LeftDerivation} (h : e ∈ d.onwards) :
    d.steps ≤ e.steps := by
  induction e with
  | term i =>
    obtain rfl := h.resolve_right id
    exact Nat.le_refl _
  | step e j k ih =>
    rcases h with rfl | h
    · exact Nat.le_refl _
    · exact Nat.le_succ_of_le (ih h)

/-- Two beginnings of a derivation with equally many steps are equal. -/
theorem eq_of_mem_onwards {d d' e : LeftDerivation} (h : e ∈ d.onwards) (h' : e ∈ d'.onwards)
    (hsteps : d.steps = d'.steps) : d = d' := by
  induction e with
  | term i => exact (h.resolve_right id).symm.trans (h'.resolve_right id)
  | step e j k ih =>
    rcases h with rfl | h <;> rcases h' with rfl | h'
    · rfl
    · have hle := steps_le_of_mem_onwards h'
      rw [steps] at hsteps
      omega
    · have hle := steps_le_of_mem_onwards h
      rw [steps] at hsteps
      omega
    · exact ih h h'

/-- A derivation that properly extends `d` begins with `d` and one more step. -/
theorem Extends.exists_step {d e : LeftDerivation} (h : e.Extends d) :
    ∃ j k, e ∈ (step d j k).onwards := by
  induction e with
  | term i => exact absurd h id
  | step e j k ih =>
    rcases h with rfl | h
    · exact ⟨j, k, self_mem_onwards _⟩
    · obtain ⟨j', k', he⟩ := ih h
      exact ⟨j', k', step_mem_onwards he j k⟩

/-- Every derivation begins with a first operand. -/
theorem exists_term (e : LeftDerivation) : ∃ i, e ∈ (term i).onwards := by
  induction e with
  | term i => exact ⟨i, self_mem_onwards _⟩
  | step e j k ih =>
    obtain ⟨i, he⟩ := ih
    exact ⟨i, step_mem_onwards he j k⟩

/-! ### Enumerations -/

section

variable {ρ : Type} {result? : LeftDerivation → Option ρ}

/-- The derivations `ds` are those of the kind `S` that have a result, each once and before the
shorter ones that it goes on from, and `rs` are their results in the same order. -/
structure Enumerates (result? : LeftDerivation → Option ρ) (S : Set LeftDerivation)
    (ds : List LeftDerivation) (rs : List ρ) : Prop where
  /-- The results belong to the derivations. -/
  results : ds.map result? = rs.map some
  /-- No derivation of the kind is missing. -/
  mem_iff : ∀ d, d ∈ ds ↔ d ∈ S ∧ (result? d).isSome
  /-- No derivation occurs twice. -/
  nodup : ds.Nodup
  /-- No derivation properly extends an earlier one. -/
  longerFirst : ds.Pairwise fun d e ↦ ¬e.Extends d

/-- The empty lists enumerate a kind without results. -/
theorem enumerates_nil : Enumerates result? ∅ [] [] where
  results := rfl
  mem_iff d := by simp
  nodup := .nil
  longerFirst := .nil

/-- A single derivation with its result enumerates its own kind. -/
theorem enumerates_singleton {d : LeftDerivation} {x : ρ} (h : result? d = some x) :
    Enumerates result? {d} [d] [x] where
  results := by rw [List.map_singleton, List.map_singleton, h]
  mem_iff e := by
    rw [List.mem_singleton, Set.mem_singleton_iff]
    refine ⟨?_, And.left⟩
    rintro rfl
    exact ⟨rfl, Option.isSome_of_eq_some h⟩
  nodup := List.pairwise_singleton _ d
  longerFirst := List.pairwise_singleton _ d

/-- Two enumerated kinds are enumerated in sequence, if no derivation of the second properly extends
one of the first. -/
theorem Enumerates.append {S S' : Set LeftDerivation} {ds ds' : List LeftDerivation}
    {rs rs' : List ρ} (h : Enumerates result? S ds rs) (h' : Enumerates result? S' ds' rs')
    (hapart : ∀ d ∈ S, ∀ e ∈ S', e ∉ d.onwards) :
    Enumerates result? (S ∪ S') (ds ++ ds') (rs ++ rs') where
  results := by rw [List.map_append, List.map_append, h.results, h'.results]
  mem_iff d := by
    rw [List.mem_append, h.mem_iff, h'.mem_iff, Set.mem_union]
    exact or_and_right.symm
  nodup := by
    refine List.nodup_append.mpr ⟨h.nodup, h'.nodup, ?_⟩
    rintro d hd e he rfl
    exact hapart d ((h.mem_iff d).mp hd).1 d ((h'.mem_iff d).mp he).1 (self_mem_onwards d)
  longerFirst := by
    refine List.pairwise_append.mpr ⟨h.longerFirst, h'.longerFirst, fun d hd e he hext ↦ ?_⟩
    exact hapart d ((h.mem_iff d).mp hd).1 e ((h'.mem_iff e).mp he).1 (.inr hext)

/-- Kinds that agree on the derivations with results have the same enumerations. -/
theorem Enumerates.congr {S S' : Set LeftDerivation} {ds : List LeftDerivation} {rs : List ρ}
    (h : Enumerates result? S ds rs) (hS : ∀ d, (result? d).isSome → (d ∈ S ↔ d ∈ S')) :
    Enumerates result? S' ds rs where
  results := h.results
  mem_iff d := (h.mem_iff d).trans (and_congr_left (hS d))
  nodup := h.nodup
  longerFirst := h.longerFirst

/-- Enumerations of the continuations of several equally long derivations combine into one. -/
theorem exists_enumerates_flatMap {β : Type} (g : β → List ρ) {n : Nat}
    {os : List (LeftDerivation × β)} (hsteps : ∀ o ∈ os, o.1.steps = n)
    (hne : os.Pairwise fun o o' ↦ o.1 ≠ o'.1)
    (h : ∀ o ∈ os, ∃ ds, Enumerates result? o.1.onwards ds (g o.2)) :
    ∃ ds, Enumerates result? {e | ∃ o ∈ os, e ∈ o.1.onwards} ds (os.flatMap fun o ↦ g o.2) := by
  induction os with
  | nil => exact ⟨[], enumerates_nil.congr fun d _ ↦ by simp⟩
  | cons o os ih =>
    obtain ⟨hfirst, hrest⟩ := List.pairwise_cons.mp hne
    obtain ⟨ds, hds⟩ := h o List.mem_cons_self
    obtain ⟨ds', hds'⟩ := ih (fun o' ho' ↦ hsteps o' (List.mem_cons_of_mem o ho')) hrest
      fun o' ho' ↦ h o' (List.mem_cons_of_mem o ho')
    refine ⟨ds ++ ds', (hds.append hds' ?_).congr fun d _ ↦ by simp⟩
    -- A common continuation would make two beginnings of one length the same.
    rintro d hd e ⟨o', ho', he⟩ hmem
    have hlen : o.1.steps = o'.1.steps :=
      (hsteps o List.mem_cons_self).trans (hsteps o' (List.mem_cons_of_mem o ho')).symm
    exact hfirst o' ho' (eq_of_mem_onwards (onwards_subset hd hmem) he hlen)

end

end LeftDerivation
end Backtrack
