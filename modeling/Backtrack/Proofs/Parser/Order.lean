import Backtrack.Proofs.Parser.Language

/-!
# The order of results

A parser is `LongestFirst` if each of its results leaves more tokens over than the one before.
Then no two results read the same beginning, and a result that leaves nothing over comes first.
A sequence keeps the property if its second part can go on from one result of the first at most,
and so does a repetition of a parser with at most one result at each place.
-/

namespace Backtrack.Parser

variable {τ α β γ : Type}

/-- Each result leaves more tokens over than the one before. -/
def LongestFirst (p : Parser τ α) : Prop :=
  ∀ ts, (p.run ts).entries.Pairwise fun x y ↦ x.2.length < y.2.length

/-- There is at most one result on any tokens. -/
def AtMostOne (p : Parser τ α) : Prop := ∀ ts, (p.run ts).entries.length ≤ 1

private theorem pairwise_of_length_le_one {R : α → α → Prop} :
    ∀ {l : List α}, l.length ≤ 1 → l.Pairwise R
  | [], _ => .nil
  | [_], _ => List.pairwise_singleton _ _
  | _ :: _ :: _, h => absurd h (by simp)

private theorem eq_singleton_of_mem {x : α} :
    ∀ {l : List α}, l.length ≤ 1 → x ∈ l → l = [x]
  | [], _, hx => absurd hx List.not_mem_nil
  | [_], _, hx => by rw [List.mem_singleton.mp hx]
  | _ :: _ :: _, h, _ => absurd h (by simp)

private theorem eq_of_length_le_one {l : List α} (h : l.length ≤ 1) {x y : α} (hx : x ∈ l)
    (hy : y ∈ l) : x = y := by
  rw [eq_singleton_of_mem h hx] at hy
  exact (List.mem_singleton.mp hy).symm

private theorem length_le_one_of_pairwise {R : α → α → Prop} :
    ∀ {l : List α}, l.Pairwise R → (∀ x ∈ l, ∀ y ∈ l, ¬R x y) → l.length ≤ 1
  | [], _, _ => Nat.zero_le 1
  | [_], _, _ => Nat.le_refl 1
  | x :: y :: _, h, hn =>
    absurd ((List.pairwise_cons.mp h).1 y List.mem_cons_self)
      (hn x List.mem_cons_self y (List.mem_cons_of_mem x List.mem_cons_self))

/-- A parser with at most one result is longest first. -/
theorem AtMostOne.longestFirst {p : Parser τ α} (h : p.AtMostOne) : p.LongestFirst :=
  fun ts ↦ pairwise_of_length_le_one (h ts)

/-- A longest-first parser whose results all leave the same tokens has at most one result. -/
theorem LongestFirst.atMostOne {p : Parser τ α} (h : p.LongestFirst)
    (hsame : ∀ ts, ∀ x ∈ (p.run ts).entries, ∀ y ∈ (p.run ts).entries, x.2 = y.2) :
    p.AtMostOne := by
  refine fun ts ↦ length_le_one_of_pairwise (h ts) fun x hx y hy hlt ↦ ?_
  rw [hsame ts x hx y hy] at hlt
  exact Nat.lt_irrefl _ hlt

/-- A single token has at most one result. -/
theorem atMostOne_token (image? : τ → Option α) : (token image?).AtMostOne := by
  intro ts
  cases ts with
  | nil => exact Nat.zero_le 1
  | cons t ts =>
    simp only [token]
    split
    · exact Nat.zero_le 1
    · exact Nat.le_refl 1

/-- Mapping preserves having at most one result. -/
theorem AtMostOne.map (f : α → β) {p : Parser τ α} (hp : p.AtMostOne) :
    (map f p).AtMostOne := by
  intro ts
  rw [run_map, Trace.entries_map, List.length_map]
  exact hp ts

/-- A pair of parsers with at most one result has at most one result. -/
theorem AtMostOne.pair {p : Parser τ α} {q : Parser τ β} (hp : p.AtMostOne)
    (hq : q.AtMostOne) : (pair p q).AtMostOne := by
  intro ts
  rw [run_pair]
  apply Nat.le_trans (Trace.isPrefix_entries_flatMap _ _).length_le
  have hl := hp ts
  match (p.run ts).entries, hl with
  | [], _ => exact Nat.zero_le 1
  | [x], _ =>
    rw [List.flatMap_singleton, Trace.entries_map, List.length_map]
    exact hq x.2
  | _ :: _ :: _, hl => exact absurd hl (by simp)

/-- A fixed token in front preserves having at most one result. -/
theorem AtMostOne.after [BEq τ] (t : τ) {p : Parser τ α} (hp : p.AtMostOne) :
    (seqRight (single t) p).AtMostOne := by
  rw [seqRight_eq_map_pair]
  exact ((atMostOne_token _).pair hp).map _

/-- Alternatives are longest first if both are and every result of `p` reads more than every result
of `q`. -/
theorem longestFirst_orElse {p q : Parser τ α} (hp : p.LongestFirst) (hq : q.LongestFirst)
    (h : ∀ ts, ∀ x ∈ (p.run ts).entries, ∀ y ∈ (q.run ts).entries, x.2.length < y.2.length) :
    (orElse p q).LongestFirst := by
  intro ts
  apply List.Pairwise.sublist (Trace.isPrefix_entries_append _ _).sublist
  exact List.pairwise_append.mpr ⟨hp ts, hq ts, h ts⟩

/-- Alternatives are longest first if both are and no tokens have results of both. -/
theorem longestFirst_orElse_of_disjoint {p q : Parser τ α} {D E : Language τ α}
    (hp : p.LongestFirst) (hq : q.LongestFirst) (hD : p.Reads D) (hE : q.Reads E)
    (h : ∀ u v a b r r', D u a → E v b → u ++ r ≠ v ++ r') : (orElse p q).LongestFirst := by
  refine longestFirst_orElse hp hq fun ts x hx y hy ↦ ?_
  obtain ⟨u, hu, hu'⟩ := hD.sound hx
  obtain ⟨v, hv, hv'⟩ := hE.sound hy
  exact absurd (hu.symm.trans hv) (h u v x.1 y.1 x.2 y.2 hu' hv')

/-- Mapping preserves the longest-first order. -/
theorem longestFirst_map (f : α → β) {p : Parser τ α} (hp : p.LongestFirst) :
    (map f p).LongestFirst := by
  intro ts
  rw [run_map, Trace.entries_map, List.pairwise_map]
  exact hp ts

/-- A pair is longest first if both parts are, and the second has results behind one leftover of the
first at most. -/
theorem longestFirst_pair {p : Parser τ α} {q : Parser τ β} (hp : p.LongestFirst)
    (hq : q.LongestFirst)
    (h : ∀ ts, ∀ x ∈ (p.run ts).entries, ∀ y ∈ (p.run ts).entries,
      (q.run x.2).entries ≠ [] → (q.run y.2).entries ≠ [] → x.2 = y.2) :
    (pair p q).LongestFirst := by
  intro ts
  rw [run_pair]
  apply List.Pairwise.sublist (Trace.isPrefix_entries_flatMap _ _).sublist
  refine List.pairwise_flatMap.mpr ⟨fun x _ ↦ ?_, (hp ts).imp_of_mem fun hx hy hlt c hc d hd ↦ ?_⟩
  · rw [Trace.entries_map, List.pairwise_map]
    exact hq x.2
  · rw [Trace.entries_map] at hc hd
    have hxy := h ts _ hx _ hy (List.ne_nil_of_mem (List.mem_map.mp hc).choose_spec.1)
      (List.ne_nil_of_mem (List.mem_map.mp hd).choose_spec.1)
    rw [hxy] at hlt
    exact absurd hlt (Nat.lt_irrefl _)

/-- A pair is longest first if its first part has at most one result and its second part is longest
first. -/
theorem longestFirst_pair_of_atMostOne {p : Parser τ α} {q : Parser τ β} (hp : p.AtMostOne)
    (hq : q.LongestFirst) : (pair p q).LongestFirst :=
  longestFirst_pair hp.longestFirst hq fun ts _ hx _ hy _ _ ↦
    congrArg Prod.snd (eq_of_length_le_one (hp ts) hx hy)

/-- Each later result of a repetition with at most one result at each place stops in front of
another repetition. -/
private theorem pairwise_many {p : Parser τ α} {D : Language τ α} (hD : p.Reads D)
    (hp : p.AtMostOne) (ts : List τ) :
    ((many p).run ts).entries.Pairwise fun x y ↦
      x.2.length < y.2.length ∧ (p.run y.2).entries ≠ [] := by
  induction hn : ts.length using Nat.strongRecOn generalizing ts with
  | ind n ih =>
    rw [run_many]
    refine List.Pairwise.sublist (Trace.isPrefix_entries_append _ _).sublist
      (List.pairwise_append.mpr ⟨?_, List.pairwise_singleton _ _, fun c hc d hd ↦ ?_⟩)
    · refine List.Pairwise.sublist (Trace.isPrefix_entries_flatMap _ _).sublist
        (List.pairwise_flatMap.mpr ⟨fun x _ ↦ ?_, pairwise_of_length_le_one (hp ts)⟩)
      rw [repeatAfter]
      split
      · next hlt =>
        rw [Trace.entries_map, List.pairwise_map]
        exact ih _ (hn ▸ hlt) _ rfl
      · exact .nil
    · obtain ⟨x, hx, hc⟩ := Trace.exists_of_mem_flatMap hc
      rw [List.mem_singleton.mp hd]
      refine ⟨?_, List.ne_nil_of_mem hx⟩
      rw [repeatAfter] at hc
      split at hc
      · next hlt =>
        rw [Trace.entries_map, List.mem_map] at hc
        obtain ⟨c', hc', rfl⟩ := hc
        exact Nat.lt_of_le_of_lt ((reads_many hD).suffix hc').length_le hlt
      · exact absurd hc List.not_mem_nil

/-- A repetition with at most one result at each place, paired with a parser that reads nothing
where it could go on, is longest first. -/
theorem longestFirst_pair_many {p : Parser τ α} {q : Parser τ β} {D : Language τ α}
    {E : Language τ β} (hD : p.Reads D) (hE : q.Reads E) (hp : p.AtMostOne)
    (hq : q.LongestFirst)
    (h : ∀ ts, (p.run ts).entries ≠ [] → ∀ y ∈ (q.run ts).entries, y.2 = ts) :
    (pair (many p) q).LongestFirst := by
  intro ts
  rw [run_pair]
  refine List.Pairwise.sublist (Trace.isPrefix_entries_flatMap _ _).sublist
    (List.pairwise_flatMap.mpr ⟨fun x _ ↦ ?_, (pairwise_many hD hp ts).imp ?_⟩)
  · rw [Trace.entries_map, List.pairwise_map]
    exact hq x.2
  · rintro x y ⟨hlt, hy⟩ c hc d hd
    rw [Trace.entries_map, List.mem_map] at hc hd
    obtain ⟨c', hc', rfl⟩ := hc
    obtain ⟨d', hd', rfl⟩ := hd
    rw [h y.2 hy d' hd']
    exact Nat.lt_of_le_of_lt (hE.suffix hc').length_le hlt

/-- A fixed token in front preserves the longest-first order. -/
theorem longestFirst_after [BEq τ] (t : τ) {p : Parser τ α} (hp : p.LongestFirst) :
    (seqRight (single t) p).LongestFirst := by
  rw [seqRight_eq_map_pair]
  exact longestFirst_map _ (longestFirst_pair_of_atMostOne (atMostOne_token _) hp)

private theorem exists_of_single [BEq τ] [LawfulBEq τ] {t : τ} {ts : List τ}
    (h : ((single t).run ts).entries ≠ []) : ∃ vs, ts = t :: vs := by
  obtain ⟨x, hx⟩ := List.exists_mem_of_ne_nil _ h
  obtain ⟨_, hu, rfl, -⟩ := (reads_single t).sound hx
  exact ⟨x.2, hu⟩

/-- A fixed token behind preserves the longest-first order if at most one result stops in front of
it. -/
theorem longestFirst_before [BEq τ] [LawfulBEq τ] (t : τ) {p : Parser τ α}
    (hp : p.LongestFirst)
    (h : ∀ ts, ∀ x ∈ (p.run ts).entries, ∀ y ∈ (p.run ts).entries,
      ∀ vs ws, x.2 = t :: vs → y.2 = t :: ws → x.2 = y.2) :
    (seqLeft p (single t)).LongestFirst := by
  rw [seqLeft_eq_map_pair]
  refine longestFirst_map _ (longestFirst_pair hp (atMostOne_token _).longestFirst ?_)
  intro ts x hx y hy hx' hy'
  obtain ⟨vs, hvs⟩ := exists_of_single hx'
  obtain ⟨ws, hws⟩ := exists_of_single hy'
  exact h ts x hx y hy vs ws hvs hws

/-! ### What the order says about the results -/

/-- How many tokens a result reads. -/
def consumed (ts : List τ) (x : α × List τ) : Nat := ts.length - x.2.length

/-- The results read fewer and fewer tokens. -/
theorem LongestFirst.pairwise_consumed {p : Parser τ α} {D : Language τ α} (hp : p.LongestFirst)
    (hD : p.Reads D) {ts : List τ} {rs : List (α × List τ)} (h : p.results ts = .ok rs) :
    (rs.map (consumed ts)).Pairwise (· > ·) := by
  obtain ⟨-, rfl⟩ := results_eq_ok_iff.mp h
  rw [List.pairwise_map]
  refine (hp ts).imp_of_mem fun {x y} hx hy hlt ↦ ?_
  have hle := (hD.suffix hy).length_le
  simp only [consumed]
  omega

/-- No two results leave the same over. -/
theorem LongestFirst.nodup_leftover {p : Parser τ α} (hp : p.LongestFirst) {ts : List τ}
    {rs : List (α × List τ)} (h : p.results ts = .ok rs) : (rs.map Prod.snd).Nodup := by
  obtain ⟨-, rfl⟩ := results_eq_ok_iff.mp h
  refine List.pairwise_map.mpr ((hp ts).imp fun hlt he ↦ ?_)
  rw [he] at hlt
  exact Nat.lt_irrefl _ hlt

/-- A result that leaves nothing over is the first. -/
theorem LongestFirst.head?_of_leftover_nil {p : Parser τ α} (hp : p.LongestFirst) {ts : List τ}
    {rs : List (α × List τ)} (h : p.results ts = .ok rs) {x : α × List τ} (hx : x ∈ rs)
    (hnil : x.2 = []) : rs.head? = .some x := by
  obtain ⟨-, rfl⟩ := results_eq_ok_iff.mp h
  have hlt := hp ts
  match he : (p.run ts).entries with
  | [] => simp [he] at hx
  | y :: ys =>
    rw [he] at hx hlt
    rcases List.mem_cons.mp hx with rfl | hx
    · rfl
    · have := (List.pairwise_cons.mp hlt).1 x hx
      rw [hnil] at this
      exact absurd this (Nat.not_lt_zero _)

/-- At most one result leaves nothing over. -/
theorem LongestFirst.length_filter_le {p : Parser τ α} (hp : p.LongestFirst) {ts : List τ}
    {rs : List (α × List τ)} (h : p.results ts = .ok rs) :
    (rs.filter (·.2.isEmpty)).length ≤ 1 := by
  obtain ⟨-, rfl⟩ := results_eq_ok_iff.mp h
  refine length_le_one_of_pairwise ((hp ts).filter _) fun x _ y hy hlt ↦ ?_
  rw [List.isEmpty_iff.mp (List.mem_filter.mp hy).2] at hlt
  exact Nat.not_lt_zero _ hlt

/-- A result that leaves nothing over is the only one. -/
theorem LongestFirst.complete_eq {p : Parser τ α} (hp : p.LongestFirst) {ts : List τ}
    {rs : List (α × List τ)} (h : p.results ts = .ok rs) {a : α} (ha : (a, []) ∈ rs) :
    p.complete ts = .ok [a] := by
  have hmem : (a, []) ∈ rs.filter (·.2.isEmpty) := List.mem_filter.mpr ⟨ha, rfl⟩
  refine complete_eq_ok_iff.mpr ⟨rs, h, ?_⟩
  rw [eq_singleton_of_mem (hp.length_filter_le h) hmem]
  rfl

end Backtrack.Parser
