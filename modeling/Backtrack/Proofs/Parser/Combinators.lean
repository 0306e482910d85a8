import Backtrack.Parser.Combinators
import Backtrack.Proofs.Trace.Entries

/-!
# Sequences through pairs and through dependent steps

Every sequence of two parsers is a pair whose values are mapped. So what holds of pairs and of
mapped parsers holds of all sequences. Sequences and mapped values are dependent steps in turn,
so that what holds of these and of single values holds of both.
-/

namespace Backtrack.Parser

variable {τ α β γ : Type}

/-- A mapped parser maps the values of its results. -/
theorem run_map (f : α → β) (p : Parser τ α) (ts : List τ) :
    (map f p).run ts = (p.run ts).map fun x ↦ (f x.1, x.2) := rfl

/-- Alternatives run one after the other. -/
theorem run_orElse (p q : Parser τ α) (ts : List τ) :
    (orElse p q).run ts = (p.run ts).append fun _ ↦ q.run ts := rfl

/-- A pair runs its second part once for every result of the first. -/
theorem run_pair (p : Parser τ α) (q : Parser τ β) (ts : List τ) :
    (pair p q).run ts = (p.run ts).flatMap fun x ↦
      (q.run x.2).map fun y ↦ ((x.1, y.1), y.2) := by
  simp only [pair, seq, map, Trace.flatMap_map]

/-- Applying mapped values is mapping a pair. -/
theorem seq_map_eq_map_pair (f : α → β → γ) (p : Parser τ α) (q : Parser τ β) :
    seq (map f p) q = map (fun c ↦ f c.1 c.2) (pair p q) := by
  refine Parser.ext (funext fun ts ↦ ?_)
  rw [run_map, run_pair, Trace.map_flatMap]
  simp only [seq, map, Trace.flatMap_map, Trace.map_map]

/-- Keeping the first of two values is mapping a pair to its first component. -/
theorem seqLeft_eq_map_pair (p : Parser τ α) (q : Parser τ β) :
    seqLeft p q = map Prod.fst (pair p q) :=
  seq_map_eq_map_pair (fun a _ ↦ a) p q

/-- Keeping the second of two values is mapping a pair to its second component. -/
theorem seqRight_eq_map_pair (p : Parser τ α) (q : Parser τ β) :
    seqRight p q = map Prod.snd (pair p q) :=
  seq_map_eq_map_pair (fun _ ↦ id) p q

/-! ### Mapped values -/

/-- Mapping every value to itself changes nothing. -/
theorem map_id (p : Parser τ α) : map (fun a ↦ a) p = p :=
  Parser.ext (funext fun _ ↦ Trace.map_id _)

/-- Mapping twice is mapping once with both functions. -/
theorem map_map (f : α → β) (g : β → γ) (p : Parser τ α) :
    map g (map f p) = map (fun a ↦ g (f a)) p :=
  Parser.ext (funext fun _ ↦ Trace.map_map _ _ _)

/-- Mapped alternatives are alternatives with mapped values. -/
theorem map_orElse (f : α → β) (p q : Parser τ α) :
    map f (orElse p q) = orElse (map f p) (map f q) :=
  Parser.ext (funext fun _ ↦ Trace.map_append _ _ _)

/-- Mapping by a function that refuses nothing is mapping. -/
theorem tryMap_ok (f : α → β) (p : Parser τ α) : tryMap (fun a ↦ .ok (f a)) p = map f p :=
  Parser.ext (funext fun ts ↦ Trace.tryMap_ok (fun x : α × List τ ↦ (f x.1, x.2)) (p.run ts))

/-- Joining the values of a pair refuses them result by result of the first part. -/
theorem run_tryMap_pair (join : α → β → Except Fault γ) (p : Parser τ α) (q : Parser τ β)
    (ts : List τ) :
    (tryMap (fun (a, b) ↦ join a b) (pair p q)).run ts =
      (p.run ts).flatMap fun x ↦ (q.run x.2).tryMap fun r ↦ (join x.1 r.1).map (·, r.2) := by
  simp only [tryMap, run_pair, Trace.tryMap_flatMap, Trace.tryMap_map]

/-- Mapping twice, refusals included, is mapping once with both functions. -/
theorem tryMap_map (f : α → β) (g : β → Except Fault γ) (p : Parser τ α) :
    tryMap g (map f p) = tryMap (fun a ↦ g (f a)) p :=
  Parser.ext (funext fun ts ↦ Trace.tryMap_map (fun x : α × List τ ↦ (f x.1, x.2)) _ (p.run ts))

/-- Mapping the first part of a pair maps the first components. -/
theorem pair_map_left (f : α → γ) (p : Parser τ α) (q : Parser τ β) :
    pair (map f p) q = map (fun c ↦ (f c.1, c.2)) (pair p q) := by
  refine Parser.ext (funext fun ts ↦ ?_)
  rw [run_pair, run_map, Trace.flatMap_map, run_map, run_pair, Trace.map_flatMap]
  simp only [Trace.map_map]

/-- Mapping the second part of a pair maps the second components. -/
theorem pair_map_right (g : β → γ) (p : Parser τ α) (q : Parser τ β) :
    pair p (map g q) = map (fun c ↦ (c.1, g c.2)) (pair p q) := by
  refine Parser.ext (funext fun ts ↦ ?_)
  rw [run_pair, run_map, run_pair, Trace.map_flatMap]
  simp only [run_map, Trace.map_map]

/-! ### Dependent steps -/

/-- Applying functions is a dependent step to the mapped arguments. -/
theorem seq_eq_bind (fs : Parser τ (α → β)) (xs : Parser τ α) :
    seq fs xs = bind fs fun f ↦ map f xs := rfl

/-- Mapping values is a dependent step to the image of each. -/
theorem map_eq_bind (f : α → β) (p : Parser τ α) :
    map f p = bind p fun a ↦ Parser.pure (f a) := by
  refine Parser.ext (funext fun ts ↦ ?_)
  simp only [map, bind, Parser.pure]
  induction p.run ts with
  | done => rfl
  | raised e => rfl
  | yield x more ih => rw [Trace.map, Trace.flatMap_yield, ih ()]; rfl

/-- Mapping by a function that may refuse is a dependent step to the image or to a fault. -/
theorem tryMap_eq_bind (f : α → Except Fault β) (p : Parser τ α) :
    tryMap f p = bind p fun a ↦
      match f a with
      | .ok b => Parser.pure b
      | .error e => failing e := by
  refine Parser.ext (funext fun ts ↦ ?_)
  simp only [tryMap, bind]
  induction p.run ts with
  | done => rfl
  | raised e => rfl
  | yield x more ih =>
    rw [Trace.tryMap, Trace.flatMap_yield, ← ih ()]
    cases f x.1 <;> rfl

/-- A pair is a dependent step to its second part. -/
theorem pair_eq_bind (p : Parser τ α) (q : Parser τ β) :
    pair p q = bind p fun a ↦ map (Prod.mk a) q :=
  Parser.ext (funext fun ts ↦ run_pair p q ts)

/-- Pairing a value that reads nothing in front adds it as the first component. -/
theorem pair_pure (a : α) (q : Parser τ β) : pair (Parser.pure a) q = map (Prod.mk a) q := by
  rw [pair_eq_bind, pure_bind]

/-- Pairing a value that reads nothing behind adds it as the second component. -/
theorem pair_pure_right (p : Parser τ α) (b : β) :
    pair p (Parser.pure b) = map (fun a ↦ (a, b)) p := by
  rw [pair_eq_bind, map_eq_bind]
  rfl

/-- Pairing is associative up to regrouping the components. -/
theorem pair_assoc (p : Parser τ α) (q : Parser τ β) (r : Parser τ γ) :
    pair (pair p q) r = map (fun c ↦ ((c.1, c.2.1), c.2.2)) (pair p (pair q r)) := by
  refine Parser.ext (funext fun ts ↦ ?_)
  simp only [run_map, run_pair, Trace.map_flatMap, Trace.flatMap_flatMap, Trace.flatMap_map,
    Trace.map_map]

/-- A result of a dependent step goes on from a result of its first part. -/
theorem exists_of_mem_bind {p : Parser τ α} {next : α → Parser τ β} {ts : List τ}
    {y : β × List τ} (h : y ∈ ((bind p next).run ts).entries) :
    ∃ x ∈ (p.run ts).entries, y ∈ ((next x.1).run x.2).entries :=
  Trace.exists_of_mem_flatMap h

/-- A mapped result comes from a result with the same leftover. -/
theorem exists_of_mem_tryMap {f : α → Except Fault β} {p : Parser τ α} {ts : List τ}
    {y : β × List τ} (h : y ∈ ((tryMap f p).run ts).entries) :
    ∃ x ∈ (p.run ts).entries, f x.1 = .ok y.1 ∧ y.2 = x.2 := by
  rw [tryMap_eq_bind] at h
  obtain ⟨x, hx, hy⟩ := exists_of_mem_bind h
  cases hf : f x.1 with
  | error e =>
    rw [hf] at hy
    exact absurd hy List.not_mem_nil
  | ok b =>
    rw [hf] at hy
    obtain rfl := List.mem_singleton.mp hy
    exact ⟨x, hx, hf, rfl⟩

/-- A result of a pair goes on from a result of its first part. -/
theorem exists_of_mem_pair {p : Parser τ α} {q : Parser τ β} {ts : List τ}
    {y : (α × β) × List τ} (h : y ∈ ((pair p q).run ts).entries) :
    ∃ x ∈ (p.run ts).entries, ∃ z ∈ (q.run x.2).entries, y = ((x.1, z.1), z.2) := by
  rw [pair_eq_bind] at h
  obtain ⟨x, hx, hy⟩ := exists_of_mem_bind h
  rw [run_map, Trace.entries_map, List.mem_map] at hy
  obtain ⟨z, hz, rfl⟩ := hy
  exact ⟨x, hx, z, hz, rfl⟩

end Backtrack.Parser
