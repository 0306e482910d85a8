import Backtrack.Proofs.Parser.Order
import Backtrack.Proofs.Parser.Unrolling
import Mathlib.Data.List.Basic

/-!
# Locality

A parser that is made with combinators depends on nothing behind what it reads. Let two inputs
begin with the same tokens: the results that read no more than these are the same on both, in the
same order and as often, however many results that read on stand between them. `Local` says so
and that every result leaves an end of the tokens over, and `Built.isLocal` proves it of every
parser that is `Built`.

Two combinators carry the proof. A dependent step first picks the results of its first part that
stay within the common tokens, for what the others lead to reads even more (`readings_bind`). A
repetition that ends is the recursion that unrolls it, and this is made of dependent steps.
-/

namespace Backtrack.Parser

variable {τ α β γ : Type}

/-! ### Results that stay within a number of tokens -/

/-- The results that read at most `n` of the tokens, each with the number of tokens it reads. -/
def select (n : Nat) (ts : List τ) (rs : List (α × List τ)) : List (α × Nat) :=
  (rs.filter fun x ↦ consumed ts x ≤ n).map fun x ↦ (x.1, consumed ts x)

/-- The results of a run that read at most `n` tokens. -/
def readings (p : Parser τ α) (n : Nat) (ts : List τ) : List (α × Nat) :=
  select n ts (p.run ts).entries

/-- Selecting from no results gives none. -/
theorem select_nil (n : Nat) (ts : List τ) : select n ts ([] : List (α × List τ)) = [] := rfl

/-- Selecting keeps a first result that reads at most `n` tokens. -/
theorem select_cons_of_le {n : Nat} {ts : List τ} {x : α × List τ} (h : consumed ts x ≤ n)
    (rs : List (α × List τ)) :
    select n ts (x :: rs) = (x.1, consumed ts x) :: select n ts rs := by
  simp only [select, List.filter_cons, decide_eq_true h, if_true, List.map_cons]

/-- Selecting drops a first result that reads more than `n` tokens. -/
theorem select_cons_of_lt {n : Nat} {ts : List τ} {x : α × List τ} (h : n < consumed ts x)
    (rs : List (α × List τ)) : select n ts (x :: rs) = select n ts rs := by
  have hx : decide (consumed ts x ≤ n) = false := decide_eq_false (Nat.not_le_of_lt h)
  simp only [select, List.filter_cons, hx, Bool.false_eq_true, if_false]

/-- Selecting distributes over concatenation. -/
theorem select_append (n : Nat) (ts : List τ) (rs rs' : List (α × List τ)) :
    select n ts (rs ++ rs') = select n ts rs ++ select n ts rs' := by
  rw [select, List.filter_append, List.map_append, select, select]

/-- A selected entry is a result with the number of tokens it reads. -/
theorem mem_select_iff {n : Nat} {ts : List τ} {rs : List (α × List τ)} {c : α × Nat} :
    c ∈ select n ts rs ↔ ∃ x ∈ rs, consumed ts x ≤ n ∧ c = (x.1, consumed ts x) := by
  simp only [select, List.mem_map, List.mem_filter, decide_eq_true_eq, and_assoc,
    @eq_comm _ c]

/-- Dropping the consumed tokens gives the leftover of a result. -/
theorem drop_consumed {ts : List τ} {x : α × List τ} (h : x.2 <:+ ts) :
    ts.drop (consumed ts x) = x.2 :=
  (List.suffix_iff_eq_drop.mp h).symm

/-- A result that goes on from another one consumes the tokens of both. -/
theorem consumed_of_suffix {ts : List τ} {x : α × List τ} {y : β × List τ} (hx : x.2 <:+ ts)
    (hy : y.2 <:+ x.2) : consumed ts y = consumed ts x + consumed x.2 y := by
  have hxl := hx.length_le
  have hyl := hy.length_le
  simp only [consumed]
  omega

/-- Selecting among results that go on from a leftover is selecting there with the tokens left to
read. -/
theorem select_of_le {n : Nat} {ts : List τ} {x : α × List τ} {rs : List (β × List τ)}
    (hx : x.2 <:+ ts) (hle : consumed ts x ≤ n) (hrs : ∀ y ∈ rs, y.2 <:+ x.2) :
    select n ts rs =
      (select (n - consumed ts x) x.2 rs).map fun d ↦ (d.1, consumed ts x + d.2) := by
  induction rs with
  | nil => rfl
  | cons y rs ih =>
    have hy := consumed_of_suffix hx (hrs y List.mem_cons_self)
    have hrest := ih fun z hz ↦ hrs z (List.mem_cons_of_mem y hz)
    by_cases h : consumed ts y ≤ n
    · have h' : consumed x.2 y ≤ n - consumed ts x := by omega
      rw [select_cons_of_le h, select_cons_of_le h', hrest, List.map_cons, hy]
    · have h' : n - consumed ts x < consumed x.2 y := by omega
      rw [select_cons_of_lt (Nat.lt_of_not_le h), select_cons_of_lt h', hrest]

/-- Selecting drops all results that go on from one that reads more than `n` tokens. -/
theorem select_of_lt {n : Nat} {ts : List τ} {x : α × List τ} {rs : List (β × List τ)}
    (hx : x.2 <:+ ts) (hlt : n < consumed ts x) (hrs : ∀ y ∈ rs, y.2 <:+ x.2) :
    select n ts rs = [] := by
  induction rs with
  | nil => rfl
  | cons y rs ih =>
    have hy := consumed_of_suffix hx (hrs y List.mem_cons_self)
    have h : n < consumed ts y := by omega
    rw [select_cons_of_lt h]
    exact ih fun z hz ↦ hrs z (List.mem_cons_of_mem y hz)

/-- Selecting after going through results only depends on the selected ones. -/
theorem select_flatMap {n : Nat} {ts : List τ} {rs : List (α × List τ)}
    {f : α × List τ → List (β × List τ)} (hrs : ∀ x ∈ rs, x.2 <:+ ts)
    (hf : ∀ x ∈ rs, ∀ y ∈ f x, y.2 <:+ x.2) :
    select n ts (rs.flatMap f) = (select n ts rs).flatMap fun c ↦
      (select (n - c.2) (ts.drop c.2) (f (c.1, ts.drop c.2))).map fun d ↦ (d.1, c.2 + d.2) := by
  induction rs with
  | nil => rfl
  | cons x rs ih =>
    have hx := hrs x List.mem_cons_self
    have hfx := hf x List.mem_cons_self
    have hrest := ih (fun z hz ↦ hrs z (List.mem_cons_of_mem x hz))
      fun z hz ↦ hf z (List.mem_cons_of_mem x hz)
    rw [List.flatMap_cons, select_append, hrest]
    by_cases h : consumed ts x ≤ n
    · rw [select_cons_of_le h, List.flatMap_cons, drop_consumed hx, select_of_le hx h hfx]
    · have h' := Nat.lt_of_not_le h
      rw [select_cons_of_lt h', select_of_lt hx h' hfx, List.nil_append]

/-! ### Local parsers -/

/-- Every result leaves an end of the tokens over, and the results that read no more than the
first tokens do not depend on the tokens behind these. -/
structure Local (p : Parser τ α) : Prop where
  /-- The leftover of every result is a suffix of the tokens. -/
  suffix : ∀ {ts x}, x ∈ (p.run ts).entries → x.2 <:+ ts
  /-- The results that stay within `u` are the same whatever comes behind it. -/
  readings_eq : ∀ {u r r'}, p.EndsOn (u ++ r) → p.EndsOn (u ++ r') →
    p.readings u.length (u ++ r) = p.readings u.length (u ++ r')

/-- The parser that never matches is local. -/
theorem local_fail : (fail : Parser τ α).Local where
  suffix hx := absurd hx List.not_mem_nil
  readings_eq _ _ := rfl

/-- The parser that is stopped at once is local. -/
theorem local_failing (fault : Fault) : (failing fault : Parser τ α).Local where
  suffix hx := absurd hx List.not_mem_nil
  readings_eq _ _ := rfl

/-- A value that reads nothing is local. -/
theorem local_pure (a : α) : (Parser.pure a : Parser τ α).Local where
  suffix hx := by
    obtain rfl := List.mem_singleton.mp hx
    exact List.suffix_rfl
  readings_eq {u r r'} _ _ := by
    have hnone (ts : List τ) : consumed ts (a, ts) = 0 := Nat.sub_self _
    have hrun (n : Nat) (ts : List τ) : (Parser.pure a).readings n ts = [(a, 0)] := by
      rw [← hnone ts]
      exact select_cons_of_le (by rw [hnone]; exact Nat.zero_le n) []
    rw [hrun, hrun]

/-- A single token is local. -/
theorem local_token (image? : τ → Option α) : (token image?).Local where
  suffix {ts x} hx := by
    obtain ⟨u, rfl, -⟩ := (reads_token image?).sound hx
    exact List.suffix_append u x.2
  readings_eq {u r r'} _ _ := by
    have hone (t : τ) (a : α) (ts : List τ) : consumed (t :: ts) (a, ts) = 1 := by
      simp [consumed]
    cases u with
    | nil =>
      have hnil (ts : List τ) : (token image?).readings 0 ts = [] := by
        cases ts with
        | nil => rfl
        | cons t ts =>
          cases ht : image? t with
          | none => simp [readings, token, ht, Trace.entries, select_nil]
          | some a =>
            have hlt : 0 < consumed (t :: ts) (a, ts) := by rw [hone]; exact Nat.one_pos
            simp [readings, token, ht, Trace.entries, select_cons_of_lt hlt, select_nil]
      rw [List.length_nil, hnil, hnil]
    | cons t u =>
      have hcons (ts : List τ) : (token image?).readings (u.length + 1) (t :: ts) =
          (image? t).toList.map fun a ↦ (a, 1) := by
        cases ht : image? t with
        | none => simp [readings, token, ht, Trace.entries, select_nil]
        | some a =>
          have hle : consumed (t :: ts) (a, ts) ≤ u.length + 1 := by rw [hone]; omega
          simp [readings, token, ht, Trace.entries, select_cons_of_le hle, select_nil, hone]
      rw [List.length_cons, List.cons_append, List.cons_append, hcons, hcons]

/-- The readings of alternatives that end are those of the first and then those of the second. -/
theorem readings_orElse {p q : Parser τ α} {n : Nat} {ts : List τ} (hp : p.EndsOn ts) :
    (orElse p q).readings n ts = p.readings n ts ++ q.readings n ts := by
  rw [readings, orElse, Trace.entries_append_of_ending hp, select_append, readings, readings]

/-- Alternatives of local parsers are local. -/
theorem Local.orElse {p q : Parser τ α} (hp : p.Local) (hq : q.Local) :
    (orElse p q).Local where
  suffix hx := by
    rcases Trace.mem_or_mem_of_append hx with hx | hx
    · exact hp.suffix hx
    · exact hq.suffix hx
  readings_eq he he' := by
    obtain ⟨hpe, hqe⟩ := endsOn_orElse_iff.mp he
    obtain ⟨hpe', hqe'⟩ := endsOn_orElse_iff.mp he'
    rw [readings_orElse hpe, readings_orElse hpe', hp.readings_eq hpe hpe',
      hq.readings_eq hqe hqe']

/-- The readings of a dependent step that ends go on from the readings of its first part, with the
tokens left to read. -/
theorem readings_bind {p : Parser τ α} {next : α → Parser τ β} {n : Nat} {ts : List τ}
    (hp : p.Local) (hnext : ∀ a, (next a).Local) (he : (bind p next).EndsOn ts) :
    (bind p next).readings n ts = (p.readings n ts).flatMap fun c ↦
      ((next c.1).readings (n - c.2) (ts.drop c.2)).map fun d ↦ (d.1, c.2 + d.2) := by
  have hentries : ((bind p next).run ts).entries =
      (p.run ts).entries.flatMap fun x ↦ ((next x.1).run x.2).entries :=
    Trace.entries_flatMap_of_ending he
  rw [readings, hentries]
  exact select_flatMap (fun x hx ↦ hp.suffix hx) fun x _ y hy ↦ (hnext x.1).suffix hy

/-- Dependent steps of local parsers are local. -/
theorem Local.bind {p : Parser τ α} {next : α → Parser τ β} (hp : p.Local)
    (hnext : ∀ a, (next a).Local) : (bind p next).Local where
  suffix hy := by
    obtain ⟨x, hx, hy⟩ := exists_of_mem_bind hy
    exact ((hnext x.1).suffix hy).trans (hp.suffix hx)
  readings_eq {u r r'} he he' := by
    obtain ⟨hpe, hne⟩ := Trace.ending_flatMap_eq_none_iff.mp he
    obtain ⟨hpe', hne'⟩ := Trace.ending_flatMap_eq_none_iff.mp he'
    have hsame := hp.readings_eq hpe hpe'
    rw [readings_bind hp hnext he, readings_bind hp hnext he', hsame]
    apply List.flatMap_congr
    intro c hc
    -- Both runs of the first part have this result, so the second part ends behind it in both.
    obtain ⟨x, hx, hle, hcx⟩ := mem_select_iff.mp (hsame ▸ hc)
    obtain ⟨x', hx', -, hcx'⟩ := mem_select_iff.mp hc
    have hdrop (s : List τ) : (u ++ s).drop c.2 = u.drop c.2 ++ s := by
      apply List.drop_append_of_le_length
      rw [hcx]
      exact hle
    have hend : (next c.1).EndsOn (u.drop c.2 ++ r) := by
      rw [← hdrop, hcx, drop_consumed (hp.suffix hx)]
      exact hne x hx
    have hend' : (next c.1).EndsOn (u.drop c.2 ++ r') := by
      rw [← hdrop, hcx', drop_consumed (hp.suffix hx')]
      exact hne' x' hx'
    have hnextc := (hnext c.1).readings_eq hend hend'
    rw [List.length_drop] at hnextc
    rw [hdrop, hdrop, hnextc]

/-- Mapping preserves locality. -/
theorem Local.map (f : α → β) {p : Parser τ α} (hp : p.Local) : (map f p).Local := by
  rw [map_eq_bind]
  exact hp.bind fun a ↦ local_pure (f a)

/-- Mapping by a function that may refuse preserves locality. -/
theorem Local.tryMap (f : α → Except Fault β) {p : Parser τ α} (hp : p.Local) :
    (tryMap f p).Local := by
  rw [tryMap_eq_bind]
  apply hp.bind
  intro a
  cases f a with
  | ok b => exact local_pure b
  | error e => exact local_failing e

/-- Applying the values of local parsers is local. -/
theorem Local.seq {fs : Parser τ (α → β)} {xs : Parser τ α} (hfs : fs.Local) (hxs : xs.Local) :
    (seq fs xs).Local := by
  rw [seq_eq_bind]
  exact hfs.bind fun f ↦ hxs.map f

/-- The recursion that a repetition of a local parser unrolls to is local. -/
theorem local_unrolled {p : Parser τ α} (hp : p.Local) (room : Nat) :
    (unrolled p room).Local := by
  induction room with
  | zero => exact local_failing .overflow
  | succ room ih => exact ((hp.map List.cons).seq ih).orElse (local_pure [])

/-- A repetition that ends is the recursion with room for one step more than there are tokens. -/
theorem run_unrolled_of_endsOn {p : Parser τ α} {ts : List τ} {room : Nat}
    (he : (many p).EndsOn ts) (hroom : ts.length < room) :
    (unrolled p room).run ts = (many p).run ts := by
  induction room generalizing ts with
  | zero => exact absurd hroom (Nat.not_lt_zero _)
  | succ room ih =>
    have hmore := (endsOn_many_iff.mp he).2
    change (repeatStep p (unrolled p room)).run ts = _
    rw [run_repeatStep, run_many]
    congr 1
    apply Trace.flatMap_congr
    intro x hx
    obtain ⟨hlt, hex⟩ := hmore x hx
    have hlt' : x.2.length < room := by omega
    rw [repeatAfter, if_pos hlt, ih hex hlt']

/-- Every result of a repetition leaves a suffix of the tokens if the repeated parser does. -/
theorem suffix_of_mem_many {p : Parser τ α} (hp : p.Local) {ts : List τ} {x : List α × List τ}
    (hx : x ∈ ((many p).run ts).entries) : x.2 <:+ ts := by
  induction hn : ts.length using Nat.strongRecOn generalizing ts x with
  | ind n ih =>
    subst hn
    rw [run_many] at hx
    rcases Trace.mem_or_mem_of_append hx with hx | hx
    · obtain ⟨y, hy, hx⟩ := Trace.exists_of_mem_flatMap hx
      rw [repeatAfter] at hx
      split at hx
      · next hlt =>
        rw [Trace.entries_map, List.mem_map] at hx
        obtain ⟨z, hz, rfl⟩ := hx
        exact (ih y.2.length hlt hz rfl).trans (hp.suffix hy)
      · exact absurd hx List.not_mem_nil
    · obtain rfl := List.mem_singleton.mp hx
      exact List.suffix_rfl

/-- Repetition preserves locality. -/
theorem Local.many {p : Parser τ α} (hp : p.Local) : (many p).Local where
  suffix hx := suffix_of_mem_many hp hx
  readings_eq {u r r'} he he' := by
    -- Room enough for both of the inputs.
    let room := (u ++ r).length + (u ++ r').length + 1
    have hrun : (unrolled p room).run (u ++ r) = (Parser.many p).run (u ++ r) :=
      run_unrolled_of_endsOn he (by omega)
    have hrun' : (unrolled p room).run (u ++ r') = (Parser.many p).run (u ++ r') :=
      run_unrolled_of_endsOn he' (by omega)
    have hends : (unrolled p room).EndsOn (u ++ r) := by rw [EndsOn, hrun]; exact he
    have hends' : (unrolled p room).EndsOn (u ++ r') := by rw [EndsOn, hrun']; exact he'
    have hsame := (local_unrolled hp room).readings_eq hends hends'
    rw [readings, hrun, readings, hrun'] at hsame
    exact hsame

/-! ### Derived combinators -/

/-- A choice of local parsers is local. -/
theorem local_choice {ps : List (Parser τ α)} (h : ∀ p ∈ ps, p.Local) : (choice ps).Local := by
  have hfold (p : Parser τ α) (hp : p.Local) : (ps.foldl Parser.orElse p).Local := by
    induction ps generalizing p with
    | nil => exact hp
    | cons q ps ih =>
      exact ih (fun p' hp' ↦ h p' (List.mem_cons_of_mem q hp')) _
        (hp.orElse (h q List.mem_cons_self))
  exact hfold fail local_fail

/-- A pair of local parsers is local. -/
theorem Local.pair {p : Parser τ α} {q : Parser τ β} (hp : p.Local) (hq : q.Local) :
    (pair p q).Local :=
  (hp.map Prod.mk).seq hq

/-- Keeping the first of two values of local parsers is local. -/
theorem Local.seqLeft {p : Parser τ α} {q : Parser τ β} (hp : p.Local) (hq : q.Local) :
    (seqLeft p q).Local :=
  (hp.map fun a _ ↦ a).seq hq

/-- Keeping the second of two values of local parsers is local. -/
theorem Local.seqRight {p : Parser τ α} {q : Parser τ β} (hp : p.Local) (hq : q.Local) :
    (seqRight p q).Local :=
  (hp.map fun _ ↦ id).seq hq

/-- A sequence of local parsers is local. -/
theorem local_sequence {ps : List (Parser τ α)} (h : ∀ p ∈ ps, p.Local) :
    (sequence ps).Local := by
  have hfold (sofar : Parser τ (List α)) (hsofar : sofar.Local) :
      (ps.foldl (fun sofar p ↦ Parser.seq (Parser.map (fun as a ↦ as ++ [a]) sofar) p)
        sofar).Local := by
    induction ps generalizing sofar with
    | nil => exact hsofar
    | cons q ps ih =>
      exact ih (fun p' hp' ↦ h p' (List.mem_cons_of_mem q hp')) _
        ((hsofar.map fun as a ↦ as ++ [a]).seq (h q List.mem_cons_self))
  exact hfold (Parser.pure []) (local_pure [])

/-- Combining two values of local parsers is local. -/
theorem Local.map₂ (f : α → β → γ) {p : Parser τ α} {q : Parser τ β} (hp : p.Local)
    (hq : q.Local) : (map₂ f p q).Local :=
  (hp.pair hq).map _

/-- Repetition of at least one preserves locality. -/
theorem Local.some {p : Parser τ α} (hp : p.Local) : (some p).Local :=
  (hp.map List.cons).seq hp.many

/-- A chain of local parsers is local. -/
theorem Local.chainl {term : Parser τ α} {op : Parser τ (α → α → α)} (hterm : term.Local)
    (hop : op.Local) : (chainl term op).Local :=
  hterm.map₂ _ (hop.pair hterm).many

/-! ### Parsers made with combinators -/

/-- A parser that is made of the smallest ones with combinators. -/
inductive Built {τ : Type} : {α : Type} → Parser τ α → Prop
  /-- It never matches. -/
  | fail {α : Type} : Built (fail : Parser τ α)
  /-- Its every run is stopped at once. -/
  | failing {α : Type} (fault : Fault) : Built (failing fault : Parser τ α)
  /-- A value without tokens. -/
  | pure {α : Type} (a : α) : Built (Parser.pure a : Parser τ α)
  /-- A token that has an image. -/
  | token {α : Type} (image? : τ → Option α) : Built (token image?)
  /-- A token that passes a test. -/
  | satisfy (holds : τ → Bool) : Built (satisfy holds)
  /-- A fixed token. -/
  | single [BEq τ] (t : τ) : Built (single t)
  /-- One parser or the other. -/
  | orElse {α : Type} {p q : Parser τ α} : Built p → Built q → Built (orElse p q)
  /-- Mapped values. -/
  | map {α β : Type} (f : α → β) {p : Parser τ α} : Built p → Built (map f p)
  /-- Mapped values, of which some may be refused. -/
  | tryMap {α β : Type} (f : α → Except Fault β) {p : Parser τ α} : Built p → Built (tryMap f p)
  /-- A function and its argument. -/
  | seq {α β : Type} {fs : Parser τ (α → β)} {xs : Parser τ α} :
    Built fs → Built xs → Built (seq fs xs)
  /-- A parser that is chosen by the value before it. -/
  | bind {α β : Type} {p : Parser τ α} {next : α → Parser τ β} :
    Built p → (∀ a, Built (next a)) → Built (bind p next)
  /-- A parser that is worked out when it is run. -/
  | defer {α : Type} {p : Unit → Parser τ α} : Built (p ()) → Built (defer p)
  /-- Any number of alternatives. -/
  | choice {α : Type} {ps : List (Parser τ α)} : (∀ p ∈ ps, Built p) → Built (choice ps)
  /-- Two parsers in a row, with both values. -/
  | pair {α β : Type} {p : Parser τ α} {q : Parser τ β} : Built p → Built q → Built (pair p q)
  /-- Two in a row, with the value of the first. -/
  | seqLeft {α β : Type} {p : Parser τ α} {q : Parser τ β} :
    Built p → Built q → Built (seqLeft p q)
  /-- Two in a row, with the value of the second. -/
  | seqRight {α β : Type} {p : Parser τ α} {q : Parser τ β} :
    Built p → Built q → Built (seqRight p q)
  /-- Any number of parsers in a row. -/
  | sequence {α : Type} {ps : List (Parser τ α)} : (∀ p ∈ ps, Built p) → Built (sequence ps)
  /-- A function of two values. -/
  | map₂ {α β γ : Type} (f : α → β → γ) {p : Parser τ α} {q : Parser τ β} :
    Built p → Built q → Built (map₂ f p q)
  /-- A parser, or else a value without tokens. -/
  | option {α : Type} {p : Parser τ α} (default : α) : Built p → Built (option p default)
  /-- Any number in a row. -/
  | many {α : Type} {p : Parser τ α} : Built p → Built (many p)
  /-- One or more in a row. -/
  | some {α : Type} {p : Parser τ α} : Built p → Built (some p)
  /-- Terms and operators in turn. -/
  | chainl {α : Type} {term : Parser τ α} {op : Parser τ (α → α → α)} :
    Built term → Built op → Built (chainl term op)

/-- Every parser made with combinators is local. -/
theorem Built.isLocal {p : Parser τ α} (h : Built p) : p.Local := by
  induction h with
  | fail => exact local_fail
  | failing fault => exact local_failing fault
  | pure a => exact local_pure a
  | token image? => exact local_token image?
  | satisfy holds => exact local_token _
  | single t => exact local_token _
  | orElse _ _ hp hq => exact hp.orElse hq
  | map f _ hp => exact hp.map f
  | tryMap f _ hp => exact hp.tryMap f
  | seq _ _ hfs hxs => exact hfs.seq hxs
  | bind _ _ hp hnext => exact hp.bind hnext
  | defer _ hp => exact hp
  | choice _ hps => exact local_choice hps
  | pair _ _ hp hq => exact hp.pair hq
  | seqLeft _ _ hp hq => exact hp.seqLeft hq
  | seqRight _ _ hp hq => exact hp.seqRight hq
  | sequence _ hps => exact local_sequence hps
  | map₂ f _ _ hp hq => exact hp.map₂ f hq
  | option default _ hp => exact hp.orElse (local_pure default)
  | many _ hp => exact hp.many
  | some _ hp => exact hp.some
  | chainl _ _ hterm hop => exact hterm.chainl hop

end Backtrack.Parser
