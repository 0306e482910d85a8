import Backtrack.Proofs.Parser.Language
import Backtrack.Proofs.Parser.LeftDerivation

/-!
# Left recursion by repetition

`chainl` reads a `term` and then any number of `op` and `term` in turn, and folds the values to the
left. Its results are those of the derivations by `X → X op term | term`, each once and the longer
ones first: `enumerates_chainlWith`. The functions that `op` gives may be of any kind, and applying
them may fail, as long as it does not for the values that are met.
-/

namespace Backtrack

variable {τ α φ : Type}

namespace LeftDerivation

variable (apply : φ → α → α → Except Fault α) (term : Parser τ α) (op : Parser τ φ)

/-- One step from a value and what it leaves over: the function at place `j`, behind it the operand
at place `k`, and the function of the value and the operand. -/
def next? (x : α × List τ) (j k : Nat) : Option (α × List τ) := do
  let f ← (op.run x.2).entries[j]?
  let y ← (term.run f.2).entries[k]?
  let a ← (apply f.1 x.1 y.1).toOption
  return (a, y.2)

/-- The value of a derivation in front of the tokens, and what it leaves over. -/
def result? (ts : List τ) : LeftDerivation → Option (α × List τ)
  | .term i => (term.run ts).entries[i]?
  | .step d j k => do
    let x ← d.result? ts
    next? apply term op x j k

/-- No run of a part stops with a fault wherever a derivation leads, nor does applying what it finds
there, and there a step leaves fewer tokens. -/
structure Steady (ts : List τ) : Prop where
  /-- The first run of `term` ends without a fault. -/
  first : term.EndsOn ts
  /-- The runs of `op`, and then of `term`, behind a derivation end without a fault. -/
  further : ∀ d x, result? apply term op ts d = some x → (Parser.pair op term).EndsOn x.2
  /-- Every step leaves fewer tokens. -/
  shorter : ∀ d x, result? apply term op ts d = some x →
    ∀ y ∈ ((Parser.pair op term).run x.2).entries, y.2.length < x.2.length
  /-- The values of every step can be applied. -/
  applied : ∀ d x, result? apply term op ts d = some x →
    ∀ y ∈ ((Parser.pair op term).run x.2).entries, ∃ a, apply y.1.1 x.1 y.1.2 = .ok a

/-! ### Parts with the derivations that they belong to -/

/-- The results of `term` as derivations. -/
def firsts (ts : List τ) : List (LeftDerivation × (α × List τ)) :=
  (term.run ts).entries.zipIdx.map fun x ↦ (.term x.2, x.1)

/-- The results of `op` and then `term` as steps behind `d`. -/
def furthers (d : LeftDerivation) (us : List τ) :
    List (LeftDerivation × ((φ × α) × List τ)) :=
  (op.run us).entries.zipIdx.flatMap fun f ↦
    (term.run f.1.2).entries.zipIdx.map fun y ↦ (.step d f.2 y.2, ((f.1.1, y.1.1), y.1.2))

section

variable {β γ : Type}

private theorem pairwise_zipIdx (xs : List β) : xs.zipIdx.Pairwise fun a b ↦ a.2 ≠ b.2 := by
  have hnodup : (xs.zipIdx.map Prod.snd).Nodup := by
    rw [List.zipIdx_map_snd]
    exact List.nodup_range'
  exact List.pairwise_map.mp hnodup

private theorem map_zipIdx (g : β → γ) (xs : List β) :
    (xs.zipIdx.map fun x ↦ g x.1) = xs.map g := by
  have h := congrArg (List.map g) (List.zipIdx_map_fst 0 xs)
  rwa [List.map_map] at h

private theorem flatMap_zipIdx (g : β → List γ) (xs : List β) :
    (xs.zipIdx.flatMap fun x ↦ g x.1) = xs.flatMap g := by
  rw [List.flatMap_def, map_zipIdx, List.flatMap_def]

end

variable {apply term op}

/-- The results at the derivations of a first operand are those of `term`. -/
theorem map_snd_firsts (ts : List τ) : (firsts term ts).map Prod.snd = (term.run ts).entries := by
  rw [firsts, List.map_map]
  exact List.zipIdx_map_fst 0 _

/-- The results at the steps behind a derivation are those of `op` and then `term`. -/
theorem map_snd_furthers (d : LeftDerivation) {us : List τ}
    (h : (Parser.pair op term).EndsOn us) :
    (furthers term op d us).map Prod.snd = ((Parser.pair op term).run us).entries := by
  rw [Parser.EndsOn, Parser.run_pair] at h
  rw [Parser.run_pair, Trace.entries_flatMap_of_ending h, furthers, List.map_flatMap]
  have hpart (f : (φ × List τ) × Nat) :
      (((term.run f.1.2).entries.zipIdx.map fun y ↦
        (step d f.2 y.2, ((f.1.1, y.1.1), y.1.2))).map Prod.snd) =
        ((term.run f.1.2).map fun y ↦ ((f.1.1, y.1), y.2)).entries := by
    rw [List.map_map, Trace.entries_map]
    exact map_zipIdx (fun y : α × List τ ↦ ((f.1.1, y.1), y.2)) _
  simp only [hpart]
  exact flatMap_zipIdx
    (fun f : φ × List τ ↦ ((term.run f.2).map fun y ↦ ((f.1, y.1), y.2)).entries) _

/-- Distinct results of `term` give distinct derivations. -/
theorem pairwise_firsts (ts : List τ) : (firsts term ts).Pairwise fun o o' ↦ o.1 ≠ o'.1 := by
  refine List.pairwise_map.mpr ((pairwise_zipIdx _).imp fun hne he ↦ ?_)
  exact hne (LeftDerivation.term.inj he)

/-- Distinct results of `op` and `term` give distinct steps. -/
theorem pairwise_furthers (d : LeftDerivation) (us : List τ) :
    (furthers term op d us).Pairwise fun o o' ↦ o.1 ≠ o'.1 := by
  refine List.pairwise_flatMap.mpr ⟨fun f _ ↦ ?_, (pairwise_zipIdx _).imp ?_⟩
  · refine List.pairwise_map.mpr ((pairwise_zipIdx _).imp fun hne he ↦ ?_)
    exact hne (LeftDerivation.step.inj he).2.2
  · intro f f' hne o ho o' ho' he
    obtain ⟨y, -, rfl⟩ := List.mem_map.mp ho
    obtain ⟨y', -, rfl⟩ := List.mem_map.mp ho'
    exact hne (LeftDerivation.step.inj he).2.1

/-- The derivations of a first operand correspond to the results of `term`. -/
theorem mem_firsts_iff {ts : List τ} {o : LeftDerivation × (α × List τ)} :
    o ∈ firsts term ts ↔ ∃ i, o.1 = .term i ∧ (term.run ts).entries[i]? = some o.2 := by
  constructor
  · intro ho
    obtain ⟨x, hx, rfl⟩ := List.mem_map.mp ho
    exact ⟨x.2, rfl, List.mem_zipIdx_iff_getElem?.mp hx⟩
  · rintro ⟨i, ho, hi⟩
    exact List.mem_map.mpr ⟨(o.2, i), List.mem_zipIdx_iff_getElem?.mpr hi, Prod.ext ho.symm rfl⟩

/-- The steps behind a derivation correspond to the results of `op` and then `term`. -/
theorem mem_furthers_iff {d : LeftDerivation} {us : List τ}
    {o : LeftDerivation × ((φ × α) × List τ)} :
    o ∈ furthers term op d us ↔ ∃ j k f y, (op.run us).entries[j]? = some f ∧
      (term.run f.2).entries[k]? = some y ∧ o = (.step d j k, ((f.1, y.1), y.2)) := by
  constructor
  · intro ho
    obtain ⟨f, hf, ho⟩ := List.mem_flatMap.mp ho
    obtain ⟨y, hy, rfl⟩ := List.mem_map.mp ho
    exact ⟨f.2, y.2, f.1, y.1, List.mem_zipIdx_iff_getElem?.mp hf,
      List.mem_zipIdx_iff_getElem?.mp hy, rfl⟩
  · rintro ⟨j, k, f, y, hf, hy, rfl⟩
    refine List.mem_flatMap.mpr ⟨(f, j), List.mem_zipIdx_iff_getElem?.mpr hf, ?_⟩
    exact List.mem_map.mpr ⟨(y, k), List.mem_zipIdx_iff_getElem?.mpr hy, rfl⟩

/-- A step adds one to the number of steps of a derivation. -/
theorem steps_of_mem_furthers {d : LeftDerivation} {us : List τ}
    {o : LeftDerivation × ((φ × α) × List τ)} (ho : o ∈ furthers term op d us) :
    o.1.steps = d.steps + 1 := by
  obtain ⟨j, k, f, y, -, -, rfl⟩ := mem_furthers_iff.mp ho
  rfl

/-! ### Results and beginnings -/

/-- Every beginning of a derivation with a result has a result. -/
theorem isSome_of_mem_onwards {ts : List τ} {d e : LeftDerivation} (he : e ∈ d.onwards)
    (h : (result? apply term op ts e).isSome) : (result? apply term op ts d).isSome := by
  induction e with
  | term i =>
    obtain rfl := he.resolve_right id
    exact h
  | step e j k ih =>
    rcases he with rfl | he
    · exact h
    · refine ih he ?_
      rw [result?] at h
      exact Option.isSome_of_isSome_bind h

/-- The result of a step is the next step from the result of the derivation in front. -/
theorem result?_step {ts : List τ} {d : LeftDerivation} {x : α × List τ}
    (hx : result? apply term op ts d = some x) (j k : Nat) :
    result? apply term op ts (.step d j k) = next? apply term op x j k := by
  rw [result?, hx]
  rfl

/-- A step with a result is among the results of `op` and then `term`. -/
theorem exists_mem_furthers {ts : List τ} {d : LeftDerivation} {x : α × List τ} {j k : Nat}
    (hx : result? apply term op ts d = some x)
    (h : (result? apply term op ts (.step d j k)).isSome) :
    ∃ o ∈ furthers term op d x.2, o.1 = .step d j k := by
  rw [result?_step hx, next?] at h
  cases hf : (op.run x.2).entries[j]? with
  | none =>
    rw [hf] at h
    cases h
  | some f =>
    cases hy : (term.run f.2).entries[k]? with
    | none => simp [hf, hy] at h
    | some y => exact ⟨_, mem_furthers_iff.mpr ⟨j, k, f, y, hf, hy, rfl⟩, rfl⟩

/-- A derivation with a result properly extends `d` exactly if it begins with a step behind `d`. -/
theorem exists_furthers_iff {ts : List τ} {d e : LeftDerivation} {x : α × List τ}
    (hx : result? apply term op ts d = some x) (he : (result? apply term op ts e).isSome) :
    (∃ o ∈ furthers term op d x.2, e ∈ o.1.onwards) ↔ e.Extends d := by
  constructor
  · rintro ⟨o, ho, he⟩
    have hstep : o.1 ∈ d.onwards := by
      obtain ⟨j, k, f, y, -, -, rfl⟩ := mem_furthers_iff.mp ho
      exact step_mem_onwards (self_mem_onwards d) j k
    have hlt := Nat.lt_of_lt_of_le (Nat.lt_succ_self d.steps)
      (steps_of_mem_furthers ho ▸ steps_le_of_mem_onwards he)
    rcases onwards_subset hstep he with rfl | hext
    · exact absurd hlt (Nat.lt_irrefl _)
    · exact hext
  · intro hext
    obtain ⟨j, k, hstep⟩ := hext.exists_step
    obtain ⟨o, ho, hoj⟩ := exists_mem_furthers hx (isSome_of_mem_onwards hstep he)
    exact ⟨o, ho, hoj ▸ hstep⟩

end LeftDerivation

namespace Parser

variable (apply : φ → α → α → Except Fault α) (term : Parser τ α) (op : Parser τ φ)

/-- A value and any number of functions with their right operands, folded to the left. -/
def fold (a : α) (steps : List (φ × α)) : Except Fault α :=
  steps.foldlM (fun sofar s ↦ apply s.1 sofar s.2) a

/-- One `term` and any number of `op` and `term` in turn, folded to the left. -/
def chainlWith : Parser τ α := tryMap (fun c ↦ fold apply c.1 c.2) (pair term (many (pair op term)))

/-- The results that go on from a value and what it leaves over, the value itself last. -/
def chainFrom (x : α × List τ) : Trace (α × List τ) :=
  ((many (pair op term)).run x.2).tryMap fun c ↦ (fold apply x.1 c.1).map (·, c.2)

/-- The results that go on with the step `y`. -/
def chainAfter (x : α × List τ) (y : (φ × α) × List τ) : Trace (α × List τ) :=
  (repeatAfter (pair op term) x.2 y).tryMap fun c ↦ (fold apply x.1 c.1).map (·, c.2)

/-- A chain goes through the results of its first operand. -/
theorem run_chainlWith (ts : List τ) :
    (chainlWith apply term op).run ts = (term.run ts).flatMap (chainFrom apply term op) := by
  change ((pair term (many (pair op term))).run ts).tryMap _ = _
  rw [run_pair, Trace.tryMap_flatMap]
  simp only [Trace.tryMap_map]
  rfl

/-- A chain goes on with every step in turn, and then stops where it is. -/
theorem chainFrom_eq (x : α × List τ) :
    chainFrom apply term op x =
      (((pair op term).run x.2).flatMap (chainAfter apply term op x)).append
        fun _ ↦ .yield x fun _ ↦ .done := by
  rw [chainFrom, run_many, Trace.tryMap_append, Trace.tryMap_flatMap]
  rfl

variable {apply term op}

/-- Going on with a step continues from the value that the step makes. -/
theorem chainAfter_eq {x : α × List τ} {y : (φ × α) × List τ} {a : α}
    (hlt : y.2.length < x.2.length) (ha : apply y.1.1 x.1 y.1.2 = .ok a) :
    chainAfter apply term op x y = chainFrom apply term op (a, y.2) := by
  have hfold (steps : List (φ × α)) : fold apply x.1 (y.1 :: steps) = fold apply a steps := by
    rw [fold, List.foldlM_cons, ha]
    rfl
  rw [chainAfter, repeatAfter, if_pos hlt, Trace.tryMap_map, chainFrom]
  simp only [hfold]

end Parser

namespace LeftDerivation

/-- If the continuations of each of several equally long derivations are enumerated, so are those of
all of them. -/
theorem enumerates_flatMap {ρ β : Type} {result? : LeftDerivation → Option ρ} {n : Nat}
    {s : Trace β} (go : β → Trace ρ) {os : List (LeftDerivation × β)} (hs : s.ending = none)
    (hmap : os.map Prod.snd = s.entries) (hsteps : ∀ o ∈ os, o.1.steps = n)
    (hne : os.Pairwise fun o o' ↦ o.1 ≠ o'.1)
    (h : ∀ o ∈ os, (go o.2).ending = none ∧
      ∃ ds, Enumerates result? o.1.onwards ds (go o.2).entries) :
    (s.flatMap go).ending = none ∧
      ∃ ds, Enumerates result? {e | ∃ o ∈ os, e ∈ o.1.onwards} ds (s.flatMap go).entries := by
  have hends : (s.flatMap go).ending = none := by
    refine Trace.ending_flatMap_eq_none_iff.mpr ⟨hs, fun b hb ↦ ?_⟩
    rw [← hmap] at hb
    obtain ⟨o, ho, rfl⟩ := List.mem_map.mp hb
    exact (h o ho).1
  rw [Trace.entries_flatMap_of_ending hends, ← hmap, List.flatMap_map]
  exact ⟨hends, exists_enumerates_flatMap (fun b ↦ (go b).entries) hsteps hne fun o ho ↦ (h o ho).2⟩

variable {apply : φ → α → α → Except Fault α} {term : Parser τ α} {op : Parser τ φ} {ts : List τ}

/-- A step whose values can be applied has the applied value as its result. -/
theorem result?_of_mem_furthers {d : LeftDerivation} {x : α × List τ}
    (hx : result? apply term op ts d = some x) {o : LeftDerivation × ((φ × α) × List τ)}
    (ho : o ∈ furthers term op d x.2) {a : α} (ha : apply o.2.1.1 x.1 o.2.1.2 = .ok a) :
    result? apply term op ts o.1 = some (a, o.2.2) := by
  obtain ⟨j, k, f, y, hf, hy, rfl⟩ := mem_furthers_iff.mp ho
  have ha' : apply f.1 x.1 y.1 = .ok a := ha
  simp [result?_step hx, next?, hf, hy, ha', Except.toOption]

/-- The results that go on from a derivation enumerate the derivations that begin with it. -/
theorem enumerates_chainFrom (h : Steady apply term op ts) {d : LeftDerivation} {x : α × List τ}
    (hx : result? apply term op ts d = some x) :
    (Parser.chainFrom apply term op x).ending = none ∧
      ∃ ds, Enumerates (result? apply term op ts) d.onwards ds
        (Parser.chainFrom apply term op x).entries := by
  -- A step leaves fewer tokens than the derivation behind which it stands.
  induction hn : x.2.length using Nat.strongRecOn generalizing d x with
  | ind n ih =>
    subst hn
    have hpair := h.further d x hx
    have hmap := map_snd_furthers d hpair
    have hafter : ∀ o ∈ furthers term op d x.2,
        (Parser.chainAfter apply term op x o.2).ending = none ∧
          ∃ ds, Enumerates (result? apply term op ts) o.1.onwards ds
            (Parser.chainAfter apply term op x o.2).entries := by
      intro o ho
      have hmem : o.2 ∈ ((Parser.pair op term).run x.2).entries := hmap ▸ List.mem_map_of_mem ho
      have hlt := h.shorter d x hx o.2 hmem
      obtain ⟨a, ha⟩ := h.applied d x hx o.2 hmem
      rw [Parser.chainAfter_eq hlt ha]
      exact ih _ hlt (result?_of_mem_furthers hx ho ha) rfl
    obtain ⟨hends, ds, hds⟩ := enumerates_flatMap _ hpair hmap
      (fun _ ↦ steps_of_mem_furthers) (pairwise_furthers d x.2) hafter
    rw [Parser.chainFrom_eq, Trace.entries_append_of_ending hends]
    refine ⟨Trace.ending_append_eq_none_iff.mpr ⟨hends, rfl⟩, ds ++ [d],
      (hds.append (enumerates_singleton hx) ?_).congr fun e he ↦ ?_⟩
    · rintro e ⟨o, ho, he⟩ d' rfl hd
      have hle := steps_le_of_mem_onwards hd
      have hle' := steps_le_of_mem_onwards he
      rw [steps_of_mem_furthers ho] at hle'
      omega
    · rw [Set.union_singleton, Set.mem_insert_iff, Set.mem_ofPred_eq, exists_furthers_iff hx he]
      rfl

/-- The results of a chain enumerate all derivations. -/
theorem enumerates_chainlWith (h : Steady apply term op ts) :
    ∃ ds rs, (Parser.chainlWith apply term op).results ts = .ok rs ∧
      Enumerates (result? apply term op ts) Set.univ ds rs := by
  have hsteps : ∀ o ∈ firsts term ts, o.1.steps = 0 := by
    intro o ho
    obtain ⟨i, hi, -⟩ := mem_firsts_iff.mp ho
    rw [hi, steps]
  have hfrom : ∀ o ∈ firsts term ts, (Parser.chainFrom apply term op o.2).ending = none ∧
      ∃ ds, Enumerates (result? apply term op ts) o.1.onwards ds
        (Parser.chainFrom apply term op o.2).entries := by
    intro o ho
    obtain ⟨i, hi, hres⟩ := mem_firsts_iff.mp ho
    rw [hi]
    exact enumerates_chainFrom h hres
  obtain ⟨hends, ds, hds⟩ :=
    enumerates_flatMap _ h.first (map_snd_firsts ts) hsteps (pairwise_firsts ts) hfrom
  rw [← Parser.run_chainlWith] at hends hds
  refine ⟨ds, _, Parser.results_eq_ok_iff.mpr ⟨hends, rfl⟩, hds.congr fun e he ↦ ?_⟩
  refine iff_of_true ?_ (Set.mem_univ e)
  obtain ⟨i, hi⟩ := e.exists_term
  obtain ⟨x, hx⟩ := Option.isSome_iff_exists.mp (isSome_of_mem_onwards hi he)
  exact ⟨(.term i, x), mem_firsts_iff.mpr ⟨i, rfl, hx⟩, hi⟩

/-- Parts that read languages are steady where their runs end without a fault, if `term` reads at
least one token and the functions of `op` can be applied. -/
theorem steady_of_reads {D : Language τ α} {E : Language τ φ} (hterm : term.Reads D)
    (hop : op.Reads E) (hD : ∀ u a, D u a → u ≠ [])
    (hE : ∀ u f, E u f → ∀ a b, ∃ c, apply f a b = .ok c) (hterm' : ∀ us, term.EndsOn us)
    (hop' : ∀ us, op.EndsOn us) : Steady apply term op ts where
  first := hterm' ts
  further d x _ := Parser.endsOn_pair_iff.mpr ⟨hop' x.2, fun f _ ↦ hterm' f.2⟩
  shorter d x _ y hy := by
    obtain ⟨w, hw, u, v, rfl, -, hv⟩ := (Parser.reads_pair hop hterm).sound hy
    have hpos := List.length_pos_iff.mpr (hD v _ hv)
    rw [hw, List.length_append, List.length_append]
    omega
  applied d x _ y hy := by
    obtain ⟨w, -, u, v, -, hu, -⟩ := (Parser.reads_pair hop hterm).sound hy
    exact hE u _ hu x.1 y.1.2

end LeftDerivation

/-- A chain of functions is one that applies them and refuses nothing. -/
theorem Parser.chainl_eq (term : Parser τ α) (op : Parser τ (α → α → α)) :
    chainl term op = chainlWith (fun f a b ↦ .ok (f a b)) term op := by
  let folded (c : α × List ((α → α → α) × α)) : α :=
    c.2.foldl (fun sofar step ↦ step.1 sofar step.2) c.1
  have hfold (c : α × List ((α → α → α) × α)) :
      fold (fun f a b ↦ .ok (f a b)) c.1 c.2 = .ok (folded c) := List.foldlM_pure
  rw [chainlWith]
  simp only [hfold]
  exact (tryMap_ok folded _).symm

end Backtrack
