import Backtrack.Proofs.Parser.Repeat

/-!
# The language of a parser

A language says which rows of tokens are phrases and what their values are. `Reads` ties a
parser to a language: its results are the phrases that the tokens begin with, each with the
tokens behind it, and a run that ends by itself misses none of them. Every combinator has the
language that its name suggests, and a run of a combination ends by itself when the runs of its
parts do. The main statement is `Reads.mem_results_iff`.
-/

namespace Backtrack

/-- A relation between phrases and their values. -/
abbrev Language (τ α : Type) := List τ → α → Prop

namespace Language

variable {τ α β : Type}

/-- Single tokens on which `image?` is defined. -/
def token (image? : τ → Option α) : Language τ α := fun u a ↦ ∃ t, u = [t] ∧ image? t = some a

/-- The empty phrase, with one value. -/
protected def pure (a : α) : Language τ α := fun u b ↦ u = [] ∧ b = a

/-- The phrases of either language. -/
def orElse (D E : Language τ α) : Language τ α := fun u a ↦ D u a ∨ E u a

/-- The same phrases with their values through `f`. -/
def map (f : α → β) (D : Language τ α) : Language τ β := fun u b ↦ ∃ a, D u a ∧ f a = b

/-- A phrase of `D` and then one of `E`, with both values. -/
def pair (D : Language τ α) (E : Language τ β) : Language τ (α × β) :=
  fun w c ↦ ∃ u v, w = u ++ v ∧ D u c.1 ∧ E v c.2

/-- The token `t` and then a phrase of `D`. -/
def after (t : τ) (D : Language τ α) : Language τ α := fun w a ↦ ∃ v, w = t :: v ∧ D v a

/-- A phrase of `D` and then the token `t`. -/
def before (t : τ) (D : Language τ α) : Language τ α := fun w a ↦ ∃ u, w = u ++ [t] ∧ D u a

/-- Any number of phrases in a row. -/
inductive Many (D : Language τ α) : List τ → List α → Prop
  /-- None at all. -/
  | nil : Many D [] []
  /-- One, and any number after it. -/
  | cons {u v : List τ} {a : α} {as : List α} :
    D u a → Many D v as → Many D (u ++ v) (a :: as)

end Language

namespace Parser

variable {τ α β γ : Type}

/-- The run of `p` ends without a fault. -/
def EndsOn (p : Parser τ α) (ts : List τ) : Prop := (p.run ts).ending = none

/-- The results of `p` are the phrases of `D` that the tokens begin with. -/
structure Reads (p : Parser τ α) (D : Language τ α) : Prop where
  /-- A result is a phrase in front of what is left over. -/
  sound : ∀ {ts r a}, (a, r) ∈ (p.run ts).entries → ∃ u, ts = u ++ r ∧ D u a
  /-- A run that ends without a fault has found every phrase. -/
  complete : ∀ {u r a}, p.EndsOn (u ++ r) → D u a → (a, r) ∈ (p.run (u ++ r)).entries

/-- All results are available exactly if the run ends without a fault. -/
theorem results_eq_ok_iff {p : Parser τ α} {ts : List τ} {rs : List (α × List τ)} :
    p.results ts = .ok rs ↔ p.EndsOn ts ∧ (p.run ts).entries = rs := by
  rw [results, Trace.toList_eq, EndsOn]
  cases (p.run ts).ending <;> simp

/-- The results are withheld exactly by the fault that stops the run. -/
theorem results_eq_error_iff {p : Parser τ α} {ts : List τ} {fault : Fault} :
    p.results ts = .error fault ↔ (p.run ts).ending = .some fault := by
  rw [results, Trace.toList_eq]
  cases (p.run ts).ending <;> simp

/-- The complete values are those of the results without leftover tokens, if all results are
available. -/
theorem complete_eq_ok_iff {p : Parser τ α} {ts : List τ} {as : List α} :
    p.complete ts = .ok as ↔
      ∃ rs, p.results ts = .ok rs ∧ (rs.filter (·.2.isEmpty)).map (·.1) = as := by
  rw [complete]
  cases p.results ts <;> simp [Except.map]

/-- The complete values are withheld exactly by the fault that withholds the results. -/
theorem complete_eq_error_iff {p : Parser τ α} {ts : List τ} {fault : Fault} :
    p.complete ts = .error fault ↔ p.results ts = .error fault := by
  rw [complete]
  cases p.results ts <;> simp [Except.map]

/-- The leftover of a result is a suffix of the tokens. -/
theorem Reads.suffix {p : Parser τ α} {D : Language τ α} (hp : p.Reads D) {ts : List τ}
    {x : α × List τ} (hx : x ∈ (p.run ts).entries) : x.2 <:+ ts := by
  obtain ⟨u, rfl, -⟩ := hp.sound hx
  exact List.suffix_append u x.2

/-- The leftover of a result is shorter than the tokens if no phrase is empty. -/
theorem Reads.length_lt {p : Parser τ α} {D : Language τ α} (hp : p.Reads D)
    (hD : ∀ u a, D u a → u ≠ []) {ts : List τ} {x : α × List τ} (hx : x ∈ (p.run ts).entries) :
    x.2.length < ts.length := by
  obtain ⟨u, hu, hphrase⟩ := hp.sound hx
  have hpos : 0 < u.length := List.length_pos_iff.mpr (hD u x.1 hphrase)
  rw [hu, List.length_append]
  omega

/-- The results on given tokens are the phrases that begin the tokens. -/
theorem Reads.mem_results_iff {p : Parser τ α} {D : Language τ α} (hp : p.Reads D)
    {ts r : List τ} {rs : List (α × List τ)} {a : α} (h : p.results ts = .ok rs) :
    (a, r) ∈ rs ↔ ∃ u, ts = u ++ r ∧ D u a := by
  obtain ⟨he, rfl⟩ := results_eq_ok_iff.mp h
  constructor
  · exact hp.sound
  · rintro ⟨u, rfl, hD⟩
    exact hp.complete he hD

/-- The complete values are those of the tokens as a phrase. -/
theorem Reads.mem_complete_iff {p : Parser τ α} {D : Language τ α} (hp : p.Reads D)
    {ts : List τ} {as : List α} {a : α} (h : p.complete ts = .ok as) : a ∈ as ↔ D ts a := by
  obtain ⟨rs, hrs, rfl⟩ := complete_eq_ok_iff.mp h
  rw [List.mem_map]
  constructor
  · rintro ⟨⟨b, r⟩, hb, rfl⟩
    obtain ⟨hb, hr⟩ := List.mem_filter.mp hb
    obtain rfl := List.isEmpty_iff.mp hr
    obtain ⟨u, rfl, hD⟩ := (hp.mem_results_iff hrs).mp hb
    rw [List.append_nil]
    exact hD
  · intro hD
    have ha : (a, []) ∈ rs := (hp.mem_results_iff hrs).mpr ⟨ts, (List.append_nil ts).symm, hD⟩
    exact ⟨(a, []), List.mem_filter.mpr ⟨ha, rfl⟩, rfl⟩

/-- A parser reads every language with the same phrases. -/
theorem Reads.congr {p : Parser τ α} {D E : Language τ α} (hp : p.Reads D)
    (h : ∀ u a, D u a ↔ E u a) : p.Reads E where
  sound hm := by
    obtain ⟨u, hu, hD⟩ := hp.sound hm
    exact ⟨u, hu, (h _ _).mp hD⟩
  complete he hE := hp.complete he ((h _ _).mpr hE)

/-! ### Runs without a fault -/

/-- A single token ends without a fault. -/
theorem endsOn_token (image? : τ → Option α) (ts : List τ) : (token image?).EndsOn ts := by
  cases ts with
  | nil => rfl
  | cons t ts =>
    simp only [EndsOn, token]
    split <;> rfl

/-- A value that reads nothing ends without a fault. -/
theorem endsOn_pure (a : α) (ts : List τ) : (Parser.pure a : Parser τ α).EndsOn ts := rfl

/-- Alternatives end without a fault exactly if both do. -/
theorem endsOn_orElse_iff {p q : Parser τ α} {ts : List τ} :
    (orElse p q).EndsOn ts ↔ p.EndsOn ts ∧ q.EndsOn ts := Trace.ending_append_eq_none_iff

/-- Mapping preserves ending without a fault. -/
theorem endsOn_map_iff {f : α → β} {p : Parser τ α} {ts : List τ} :
    (map f p).EndsOn ts ↔ p.EndsOn ts := by
  rw [EndsOn, run_map, Trace.ending_map, EndsOn]

/-- A pair ends without a fault exactly if its first part does, and its second part does on every
leftover. -/
theorem endsOn_pair_iff {p : Parser τ α} {q : Parser τ β} {ts : List τ} :
    (pair p q).EndsOn ts ↔ p.EndsOn ts ∧ ∀ x ∈ (p.run ts).entries, q.EndsOn x.2 := by
  simp only [EndsOn, run_pair, Trace.ending_flatMap_eq_none_iff, Trace.ending_map]

/-- A repetition ends without a fault exactly if the part does, and every leftover is shorter and
ends the repetition without a fault. -/
theorem endsOn_many_iff {p : Parser τ α} {ts : List τ} :
    (many p).EndsOn ts ↔ p.EndsOn ts ∧
      ∀ x ∈ (p.run ts).entries, x.2.length < ts.length ∧ (many p).EndsOn x.2 := by
  have hafter (x : α × List τ) : (repeatAfter p ts x).ending = none ↔
      x.2.length < ts.length ∧ (many p).EndsOn x.2 := by
    rw [repeatAfter]
    split
    · next h => rw [Trace.ending_map, EndsOn, and_iff_right h]
    · next h => simp [Trace.ending, h]
  rw [EndsOn, run_many, Trace.ending_append_eq_none_iff, Trace.ending_flatMap_eq_none_iff]
  simp only [hafter, Trace.ending, and_true]
  rfl

/-- A repetition of a part that always reads something ends without a fault if the part does on
every suffix. -/
theorem endsOn_many {p : Parser τ α} {D : Language τ α} (hp : p.Reads D)
    (hD : ∀ u a, D u a → u ≠ []) {ts : List τ} (h : ∀ vs, vs <:+ ts → p.EndsOn vs) :
    (many p).EndsOn ts := by
  induction hn : ts.length using Nat.strongRecOn generalizing ts with
  | ind n ih =>
    refine endsOn_many_iff.mpr ⟨h ts List.suffix_rfl, fun x hx ↦ ?_⟩
    have hlt : x.2.length < ts.length := hp.length_lt hD hx
    exact ⟨hlt, ih _ (hn ▸ hlt) (fun vs hv ↦ h vs (hv.trans (hp.suffix hx))) rfl⟩

/-! ### Runs with one kind of fault -/

/-- No run of `p` stops with a fault other than an overflow. -/
def OnlyOverflows (p : Parser τ α) : Prop :=
  ∀ ts fault, (p.run ts).ending = .some fault → fault = .overflow

/-- A parser that never faults overflows only. -/
theorem onlyOverflows_of_endsOn {p : Parser τ α} (h : ∀ ts, p.EndsOn ts) : p.OnlyOverflows := by
  intro ts fault hf
  rw [h ts] at hf
  cases hf

/-- Alternatives preserve faulting on overflow only. -/
theorem onlyOverflows_orElse {p q : Parser τ α} (hp : p.OnlyOverflows) (hq : q.OnlyOverflows) :
    (orElse p q).OnlyOverflows := by
  intro ts fault h
  rw [orElse, Trace.ending_append, Option.or_eq_some_iff] at h
  rcases h with h | ⟨-, h⟩
  · exact hp _ _ h
  · exact hq _ _ h

/-- Mapping preserves faulting on overflow only. -/
theorem onlyOverflows_map (f : α → β) {p : Parser τ α} (hp : p.OnlyOverflows) :
    (map f p).OnlyOverflows := by
  intro ts fault h
  rw [run_map, Trace.ending_map] at h
  exact hp _ _ h

/-- Pairing preserves faulting on overflow only. -/
theorem onlyOverflows_pair {p : Parser τ α} {q : Parser τ β} (hp : p.OnlyOverflows)
    (hq : q.OnlyOverflows) : (pair p q).OnlyOverflows := by
  intro ts fault h
  rw [run_pair] at h
  rcases Trace.ending_flatMap_eq_some h with h | ⟨x, -, h⟩
  · exact hp _ _ h
  · rw [Trace.ending_map] at h
    exact hq _ _ h

/-- Combining two values preserves faulting on overflow only. -/
theorem onlyOverflows_map₂ (f : α → β → γ) {p : Parser τ α} {q : Parser τ β}
    (hp : p.OnlyOverflows) (hq : q.OnlyOverflows) : (map₂ f p q).OnlyOverflows :=
  onlyOverflows_map _ (onlyOverflows_pair hp hq)

/-- A repetition faults on overflow only if its part does; a repetition that reads nothing is an
overflow. -/
theorem onlyOverflows_many {p : Parser τ α} (hp : p.OnlyOverflows) : (many p).OnlyOverflows := by
  intro ts fault h
  induction hn : ts.length using Nat.strongRecOn generalizing ts with
  | ind n ih =>
    rw [run_many, Trace.ending_append, Option.or_eq_some_iff] at h
    rcases h with h | ⟨-, h⟩
    · rcases Trace.ending_flatMap_eq_some h with h | ⟨x, -, h⟩
      · exact hp _ _ h
      · rw [repeatAfter] at h
        split at h
        · next hlt =>
          rw [Trace.ending_map] at h
          exact ih _ (hn ▸ hlt) _ h rfl
        · exact (Option.some.inj h).symm
    · cases h

/-! ### The languages of the combinators -/

/-- A single token reads the language of its images. -/
theorem reads_token (image? : τ → Option α) : (token image?).Reads (.token image?) where
  sound {ts r a} hm := by
    cases ts with
    | nil => simp [token, Trace.entries] at hm
    | cons t ts =>
      simp only [token] at hm
      cases ht : image? t with
      | none => simp [ht, Trace.entries] at hm
      | some b =>
        simp only [ht, Trace.entries, List.mem_singleton, Prod.mk.injEq] at hm
        obtain ⟨rfl, rfl⟩ := hm
        exact ⟨[t], rfl, t, rfl, ht⟩
  complete := by
    rintro u r a - ⟨t, rfl, ht⟩
    simp [token, ht, Trace.entries]

/-- A value that reads nothing reads the language of the empty phrase. -/
theorem reads_pure (a : α) : (Parser.pure a : Parser τ α).Reads (.pure a) where
  sound hm := by
    simp only [Parser.pure, Trace.entries, List.mem_singleton, Prod.mk.injEq] at hm
    exact ⟨[], hm.2.symm, rfl, hm.1⟩
  complete := by
    rintro u r b - ⟨rfl, rfl⟩
    simp [Parser.pure, Trace.entries]

/-- Alternatives read the phrases of either language. -/
theorem reads_orElse {p q : Parser τ α} {D E : Language τ α} (hp : p.Reads D) (hq : q.Reads E) :
    (orElse p q).Reads (.orElse D E) where
  sound hm := by
    rcases Trace.mem_or_mem_of_append hm with hm | hm
    · obtain ⟨u, hu, hD⟩ := hp.sound hm
      exact ⟨u, hu, .inl hD⟩
    · obtain ⟨u, hu, hE⟩ := hq.sound hm
      exact ⟨u, hu, .inr hE⟩
  complete {u r a} he hDE := by
    obtain ⟨hp', hq'⟩ := Trace.ending_append_eq_none_iff.mp he
    rw [orElse, Trace.entries_append_of_ending hp', List.mem_append]
    exact hDE.imp (hp.complete hp') (hq.complete hq')

/-- Mapping reads the mapped language. -/
theorem reads_map (f : α → β) {p : Parser τ α} {D : Language τ α} (hp : p.Reads D) :
    (map f p).Reads (.map f D) where
  sound hm := by
    rw [run_map, Trace.entries_map, List.mem_map] at hm
    obtain ⟨⟨a, r⟩, ha, hr⟩ := hm
    obtain ⟨rfl, rfl⟩ := Prod.mk.inj hr
    obtain ⟨u, hu, hD⟩ := hp.sound ha
    exact ⟨u, hu, a, hD, rfl⟩
  complete := by
    rintro u r b he ⟨a, hD, rfl⟩
    rw [EndsOn, run_map, Trace.ending_map] at he
    rw [run_map, Trace.entries_map, List.mem_map]
    exact ⟨(a, r), hp.complete he hD, rfl⟩

/-- A pair reads two phrases in sequence. -/
theorem reads_pair {p : Parser τ α} {q : Parser τ β} {D : Language τ α} {E : Language τ β}
    (hp : p.Reads D) (hq : q.Reads E) : (pair p q).Reads (.pair D E) where
  sound {ts r c} hm := by
    rw [run_pair] at hm
    obtain ⟨⟨a, m⟩, ha, hm⟩ := Trace.exists_of_mem_flatMap hm
    rw [Trace.entries_map, List.mem_map] at hm
    obtain ⟨⟨b, r'⟩, hb, hr⟩ := hm
    obtain ⟨rfl, rfl⟩ := Prod.mk.inj hr
    obtain ⟨u, rfl, hD⟩ := hp.sound ha
    obtain ⟨v, rfl, hE⟩ := hq.sound hb
    exact ⟨u ++ v, (List.append_assoc u v r').symm, u, v, rfl, hD, hE⟩
  complete := by
    rintro w r ⟨a, b⟩ he ⟨u, v, rfl, hD, hE⟩
    rw [List.append_assoc] at he ⊢
    rw [EndsOn, run_pair] at he
    obtain ⟨hp', hq'⟩ := Trace.ending_flatMap_eq_none_iff.mp he
    have ha := hp.complete hp' hD
    have hb := hq' _ ha
    rw [Trace.ending_map] at hb
    rw [run_pair, Trace.entries_flatMap_of_ending he, List.mem_flatMap]
    refine ⟨_, ha, ?_⟩
    rw [Trace.entries_map, List.mem_map]
    exact ⟨(b, r), hq.complete hb hE, rfl⟩

/-- Combining two values reads two phrases in sequence. -/
theorem reads_map₂ (f : α → β → γ) {p : Parser τ α} {q : Parser τ β} {D : Language τ α}
    {E : Language τ β} (hp : p.Reads D) (hq : q.Reads E) :
    (map₂ f p q).Reads (.map (fun c ↦ f c.1 c.2) (.pair D E)) := reads_map _ (reads_pair hp hq)

section Single

variable [BEq τ]

/-- A fixed token reads the phrase of that token. -/
theorem reads_single [LawfulBEq τ] (t : τ) :
    (single t).Reads fun u a ↦ u = [t] ∧ a = t := by
  refine (reads_token _).congr fun u a ↦ ⟨?_, ?_⟩
  · rintro ⟨t', rfl, h⟩
    simp only [beq_iff_eq, Option.ite_none_right_eq_some, Option.some.injEq] at h
    obtain ⟨rfl, rfl⟩ := h
    exact ⟨rfl, rfl⟩
  · rintro ⟨rfl, rfl⟩
    exact ⟨a, rfl, by simp⟩

/-- A fixed token in front reads a phrase behind that token. -/
theorem reads_after [LawfulBEq τ] (t : τ) {p : Parser τ α} {D : Language τ α} (hp : p.Reads D) :
    (seqRight (single t) p).Reads (.after t D) := by
  rw [seqRight_eq_map_pair]
  refine (reads_map _ (reads_pair (reads_single t) hp)).congr fun w b ↦ ⟨?_, ?_⟩
  · rintro ⟨_, ⟨u, v, rfl, ⟨rfl, -⟩, hD⟩, rfl⟩
    exact ⟨v, rfl, hD⟩
  · rintro ⟨v, rfl, hD⟩
    exact ⟨(t, b), ⟨[t], v, rfl, ⟨rfl, rfl⟩, hD⟩, rfl⟩

/-- A fixed token behind reads a phrase in front of that token. -/
theorem reads_before [LawfulBEq τ] (t : τ) {p : Parser τ α} {D : Language τ α} (hp : p.Reads D) :
    (seqLeft p (single t)).Reads (.before t D) := by
  rw [seqLeft_eq_map_pair]
  refine (reads_map _ (reads_pair hp (reads_single t))).congr fun w b ↦ ⟨?_, ?_⟩
  · rintro ⟨_, ⟨u, v, rfl, hD, ⟨rfl, -⟩⟩, rfl⟩
    exact ⟨u, rfl, hD⟩
  · rintro ⟨u, rfl, hD⟩
    exact ⟨(b, t), ⟨u, [t], rfl, hD, ⟨rfl, rfl⟩⟩, rfl⟩

/-- Behind a fixed token a run ends as the parser does on what follows. -/
theorem endsOn_after [LawfulBEq τ] {t : τ} {p : Parser τ α} {ts : List τ}
    (h : ∀ vs, ts = t :: vs → p.EndsOn vs) : (seqRight (single t) p).EndsOn ts := by
  rw [seqRight_eq_map_pair, endsOn_map_iff, endsOn_pair_iff]
  refine ⟨endsOn_token _ ts, fun x hx ↦ ?_⟩
  obtain ⟨u, hu, rfl, -⟩ := (reads_single t).sound hx
  exact h x.2 hu

/-- A fault behind a fixed token is a fault of the parser on what follows. -/
theorem ending_after_eq_some [LawfulBEq τ] {t : τ} {p : Parser τ α} {ts : List τ} {fault : Fault}
    (h : ((seqRight (single t) p).run ts).ending = .some fault) :
    ∃ vs, ts = t :: vs ∧ (p.run vs).ending = .some fault := by
  rw [seqRight_eq_map_pair, run_map, Trace.ending_map, run_pair] at h
  rcases Trace.ending_flatMap_eq_some h with h | ⟨x, hx, h⟩
  · rw [single, satisfy, endsOn_token] at h
    cases h
  · obtain ⟨_, hu, rfl, -⟩ := (reads_single t).sound hx
    rw [Trace.ending_map] at h
    exact ⟨x.2, hu, h⟩

/-- A fixed token in front preserves faulting on overflow only. -/
theorem onlyOverflows_after (t : τ) {p : Parser τ α} (hp : p.OnlyOverflows) :
    (seqRight (single t) p).OnlyOverflows := by
  rw [seqRight_eq_map_pair]
  exact onlyOverflows_map _ (onlyOverflows_pair (onlyOverflows_of_endsOn (endsOn_token _)) hp)

/-- A fixed token behind preserves faulting on overflow only. -/
theorem onlyOverflows_before (t : τ) {p : Parser τ α} (hp : p.OnlyOverflows) :
    (seqLeft p (single t)).OnlyOverflows := by
  rw [seqLeft_eq_map_pair]
  exact onlyOverflows_map _ (onlyOverflows_pair hp (onlyOverflows_of_endsOn (endsOn_token _)))

end Single

private theorem sound_many {p : Parser τ α} {D : Language τ α} (hp : p.Reads D) {ts r : List τ}
    {as : List α} (hm : (as, r) ∈ ((many p).run ts).entries) :
    ∃ u, ts = u ++ r ∧ Language.Many D u as := by
  induction hn : ts.length using Nat.strongRecOn generalizing ts as with
  | ind n ih =>
    rw [run_many] at hm
    rcases Trace.mem_or_mem_of_append hm with hm | hm
    · obtain ⟨x, hx, hm⟩ := Trace.exists_of_mem_flatMap hm
      rw [repeatAfter] at hm
      split at hm
      · next hlt =>
        rw [Trace.entries_map, List.mem_map] at hm
        obtain ⟨⟨bs, r'⟩, hbs, hr⟩ := hm
        obtain ⟨rfl, rfl⟩ := Prod.mk.inj hr
        obtain ⟨u, hu, hD⟩ := hp.sound hx
        obtain ⟨v, hv, hM⟩ := ih _ (hn ▸ hlt) hbs rfl
        exact ⟨u ++ v, by rw [hu, hv, List.append_assoc], .cons hD hM⟩
      · simp [Trace.entries] at hm
    · simp only [Trace.entries, List.mem_singleton, Prod.mk.injEq] at hm
      obtain ⟨rfl, rfl⟩ := hm
      exact ⟨[], rfl, .nil⟩

private theorem complete_many {p : Parser τ α} {D : Language τ α} (hp : p.Reads D)
    {u r : List τ} {as : List α} (he : (many p).EndsOn (u ++ r)) (hM : Language.Many D u as) :
    (as, r) ∈ ((many p).run (u ++ r)).entries := by
  induction hM with
  | nil =>
    rw [EndsOn, run_many] at he
    rw [run_many, Trace.entries_append_of_ending (Trace.ending_append_eq_none_iff.mp he).1]
    exact List.mem_append_right _ (List.mem_singleton_self _)
  | @cons u v a as hD _ ih =>
    rw [List.append_assoc] at he ⊢
    obtain ⟨hp', hafter⟩ := endsOn_many_iff.mp he
    have ha := hp.complete hp' hD
    obtain ⟨hlt, hv⟩ := hafter _ ha
    rw [EndsOn, run_many] at he
    have hf := (Trace.ending_append_eq_none_iff.mp he).1
    rw [run_many, Trace.entries_append_of_ending hf, Trace.entries_flatMap_of_ending hf]
    refine List.mem_append_left _ (List.mem_flatMap.mpr ⟨_, ha, ?_⟩)
    rw [repeatAfter, if_pos hlt, Trace.entries_map, List.mem_map]
    exact ⟨(as, r), ih hv, rfl⟩

/-- A repetition reads any number of phrases in sequence. -/
theorem reads_many {p : Parser τ α} {D : Language τ α} (hp : p.Reads D) :
    (many p).Reads (.Many D) := ⟨sound_many hp, complete_many hp⟩

end Parser
end Backtrack
