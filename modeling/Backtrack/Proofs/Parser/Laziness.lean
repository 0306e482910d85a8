import Backtrack.Proofs.Parser.Combinators
import Backtrack.Proofs.Parser.Repeat
import Backtrack.Proofs.Trace.Extension

/-!
# Laziness

One parser extends another if each of its runs extends the run of the other one: it may go on where
the other one is stopped by a fault, and it is the same elsewhere. No combinator asks a part of it
for more than the next result needs, so that combinators keep this: `Context.fill_extends` says so
of whatever stands around the components that are replaced.

A dependent step keeps it because the trace of its first part is gone through lazily, and the other
combinators are made of dependent steps and alternatives. A repetition is a dependent step at every
number of tokens that are left (`Extends.many`).
-/

namespace Backtrack.Parser

variable {τ α β γ : Type}

/-- `q` shows what `p` shows on the same tokens, and goes on only where a fault stops `p`. -/
def Extends (q p : Parser τ α) : Prop := ∀ ts, (q.run ts).Extends (p.run ts)

variable {p p' : Parser τ α}

/-- Every parser extends itself. -/
theorem extends_refl (p : Parser τ α) : p.Extends p := fun ts ↦ Trace.extends_refl (p.run ts)

/-- Every parser extends the parser that is stopped at once. -/
theorem extends_failing (p : Parser τ α) (fault : Fault) : p.Extends (failing fault) :=
  fun ts ↦ Trace.extends_raised (p.run ts) fault

/-! ### Combinators -/

/-- Alternatives extend if both do. -/
theorem Extends.orElse {q q' : Parser τ α} (hp : p'.Extends p) (hq : q'.Extends q) :
    (orElse p' q').Extends (orElse p q) :=
  fun ts ↦ (hp ts).append (hq ts)

/-- Dependent steps extend if the first part and every continuation do. -/
theorem Extends.bind {next next' : α → Parser τ β} (hp : p'.Extends p)
    (hnext : ∀ a, (next' a).Extends (next a)) : (bind p' next').Extends (bind p next) :=
  fun ts ↦ (hp ts).flatMap fun x ↦ hnext x.1 x.2

/-- Mapping preserves extension. -/
theorem Extends.map (f : α → β) (hp : p'.Extends p) : (map f p').Extends (map f p) := by
  rw [map_eq_bind, map_eq_bind]
  exact hp.bind fun a ↦ extends_refl _

/-- Mapping by a function that may refuse preserves extension. -/
theorem Extends.tryMap (f : α → Except Fault β) (hp : p'.Extends p) :
    (tryMap f p').Extends (tryMap f p) := by
  rw [tryMap_eq_bind, tryMap_eq_bind]
  exact hp.bind fun a ↦ extends_refl _

/-- Applying values extends if both parts do. -/
theorem Extends.seq {fs fs' : Parser τ (α → β)} (hfs : fs'.Extends fs) (hp : p'.Extends p) :
    (seq fs' p').Extends (seq fs p) := by
  rw [seq_eq_bind, seq_eq_bind]
  exact hfs.bind fun f ↦ hp.map f

/-- Keeping the second of two values extends if both parts do. -/
theorem Extends.seqRight {q q' : Parser τ β} (hp : p'.Extends p) (hq : q'.Extends q) :
    (seqRight p' q').Extends (seqRight p q) :=
  (hp.map _).seq hq

/-- Repetition preserves extension. -/
theorem Extends.many (hp : p'.Extends p) : (many p').Extends (many p) := by
  intro ts
  induction hn : ts.length using Nat.strongRecOn generalizing ts with
  | ind n ih =>
    subst hn
    have hafter (x : α × List τ) : (repeatAfter p' ts x).Extends (repeatAfter p ts x) := by
      by_cases hlt : x.2.length < ts.length
      · rw [repeatAfter, if_pos hlt, repeatAfter, if_pos hlt]
        exact (ih x.2.length hlt x.2 rfl).map _
      · rw [repeatAfter, if_neg hlt, repeatAfter, if_neg hlt]
        exact Trace.extends_refl _
    rw [run_many, run_many]
    exact ((hp ts).flatMap hafter).append (Trace.extends_refl _)

/-- A choice extends if every alternative does. -/
theorem extends_choice {κ : Type} {ps ps' : κ → Parser τ α} (h : ∀ k, (ps' k).Extends (ps k))
    (ks : List κ) : (choice (ks.map ps')).Extends (choice (ks.map ps)) := by
  have hfold (q q' : Parser τ α) (hq : q'.Extends q) :
      ((ks.map ps').foldl Parser.orElse q').Extends ((ks.map ps).foldl Parser.orElse q) := by
    induction ks generalizing q q' with
    | nil => exact hq
    | cons k ks ih => exact ih _ _ (hq.orElse (h k))
  exact hfold fail fail (extends_refl fail)

/-- A pair extends if both parts do. -/
theorem Extends.pair {q q' : Parser τ β} (hp : p'.Extends p) (hq : q'.Extends q) :
    (pair p' q').Extends (pair p q) :=
  (hp.map Prod.mk).seq hq

/-- Combining two values extends if both parts do. -/
theorem Extends.map₂ {q q' : Parser τ β} (f : α → β → γ) (hp : p'.Extends p) (hq : q'.Extends q) :
    (map₂ f p' q').Extends (map₂ f p q) :=
  (hp.pair hq).map _

/-- A chain extends if terms and operators do. -/
theorem Extends.chainl {op op' : Parser τ (α → α → α)} (hp : p'.Extends p)
    (hop : op'.Extends op) : (chainl p' op').Extends (chainl p op) :=
  hp.map₂ _ (hop.pair hp).many

/-- A sequence extends if every parser in it does. -/
theorem extends_sequence {κ : Type} {ps ps' : κ → Parser τ α} (h : ∀ k, (ps' k).Extends (ps k))
    (ks : List κ) : (sequence (ks.map ps')).Extends (sequence (ks.map ps)) := by
  let step (sofar : Parser τ (List α)) (p : Parser τ α) : Parser τ (List α) :=
    Parser.seq (Parser.map (fun as a ↦ as ++ [a]) sofar) p
  have hfold (sofar sofar' : Parser τ (List α)) (hsofar : sofar'.Extends sofar) :
      ((ks.map ps').foldl step sofar').Extends ((ks.map ps).foldl step sofar) := by
    induction ks generalizing sofar sofar' with
    | nil => exact hsofar
    | cons k ks ih => exact ih _ _ ((hsofar.map _).seq (h k))
  exact hfold (Parser.pure []) (Parser.pure []) (extends_refl _)

/-! ### Contexts -/

/-- A parser in which some components are left open. The component of the index `i` has values of
the type `σ i`, and it may stand in as many places as one likes, behind a value too. -/
inductive Context (τ : Type) {ι : Type} (σ : ι → Type) : Type → Type 1 where
  /-- A component. -/
  | component (i : ι) : Context τ σ (σ i)
  /-- A parser that is given. -/
  | given {α : Type} (p : Parser τ α) : Context τ σ α
  /-- One parser or the other. -/
  | orElse {α : Type} (c d : Context τ σ α) : Context τ σ α
  /-- Mapped values. -/
  | map {α β : Type} (f : α → β) (c : Context τ σ α) : Context τ σ β
  /-- Mapped values, of which some may be refused. -/
  | tryMap {α β : Type} (f : α → Except Fault β) (c : Context τ σ α) : Context τ σ β
  /-- A function and its argument. -/
  | seq {α β : Type} (c : Context τ σ (α → β)) (d : Context τ σ α) : Context τ σ β
  /-- A parser that is chosen by the value before it. -/
  | bind {α β : Type} (c : Context τ σ α) (next : α → Context τ σ β) : Context τ σ β
  /-- A parser that is worked out when it is run. -/
  | defer {α : Type} (c : Unit → Context τ σ α) : Context τ σ α
  /-- Any number of alternatives. -/
  | choice {α κ : Type} (ks : List κ) (c : κ → Context τ σ α) : Context τ σ α
  /-- Two parsers in a row, with both values. -/
  | pair {α β : Type} (c : Context τ σ α) (d : Context τ σ β) : Context τ σ (α × β)
  /-- Two in a row, with the value of the first. -/
  | seqLeft {α β : Type} (c : Context τ σ α) (d : Context τ σ β) : Context τ σ α
  /-- Two in a row, with the value of the second. -/
  | seqRight {α β : Type} (c : Context τ σ α) (d : Context τ σ β) : Context τ σ β
  /-- Any number of parsers in a row. -/
  | sequence {α κ : Type} (ks : List κ) (c : κ → Context τ σ α) : Context τ σ (List α)
  /-- A function of two values. -/
  | map₂ {α β γ : Type} (f : α → β → γ) (c : Context τ σ α) (d : Context τ σ β) : Context τ σ γ
  /-- A parser, or else a value without tokens. -/
  | option {α : Type} (c : Context τ σ α) (default : α) : Context τ σ α
  /-- Any number in a row. -/
  | many {α : Type} (c : Context τ σ α) : Context τ σ (List α)
  /-- One or more in a row. -/
  | some {α : Type} (c : Context τ σ α) : Context τ σ (List α)
  /-- Terms and operators in turn. -/
  | chainl {α : Type} (term : Context τ σ α) (op : Context τ σ (α → α → α)) : Context τ σ α

/-- The parser with the components in their places. -/
def Context.fill {ι : Type} {σ : ι → Type} (ps : ∀ i, Parser τ (σ i)) {α : Type} :
    Context τ σ α → Parser τ α
  | component i => ps i
  | given p => p
  | orElse c d => .orElse (c.fill ps) (d.fill ps)
  | map f c => .map f (c.fill ps)
  | tryMap f c => .tryMap f (c.fill ps)
  | seq c d => .seq (c.fill ps) (d.fill ps)
  | bind c next => .bind (c.fill ps) fun a ↦ (next a).fill ps
  | defer c => .defer fun _ ↦ (c ()).fill ps
  | choice ks c => .choice (ks.map fun k ↦ (c k).fill ps)
  | pair c d => .pair (c.fill ps) (d.fill ps)
  | seqLeft c d => .seqLeft (c.fill ps) (d.fill ps)
  | seqRight c d => .seqRight (c.fill ps) (d.fill ps)
  | sequence ks c => .sequence (ks.map fun k ↦ (c k).fill ps)
  | map₂ f c d => .map₂ f (c.fill ps) (d.fill ps)
  | option c default => .option (c.fill ps) default
  | many c => .many (c.fill ps)
  | some c => .some (c.fill ps)
  | chainl term op => .chainl (term.fill ps) (op.fill ps)

/-- Filling a context with extended components gives an extended parser. -/
theorem Context.fill_extends {ι : Type} {σ : ι → Type} {ps ps' : ∀ i, Parser τ (σ i)}
    (h : ∀ i, (ps' i).Extends (ps i)) (c : Context τ σ α) : (c.fill ps').Extends (c.fill ps) := by
  induction c with
  | component i => exact h i
  | given p => exact extends_refl p
  | orElse c d hc hd => exact hc.orElse hd
  | map f c hc => exact hc.map f
  | tryMap f c hc => exact hc.tryMap f
  | seq c d hc hd => exact hc.seq hd
  | bind c next hc hnext => exact hc.bind hnext
  | defer c hc => exact hc ()
  | choice ks c hc => exact extends_choice hc ks
  | pair c d hc hd => exact hc.pair hd
  | seqLeft c d hc hd => exact (hc.map _).seq hd
  | seqRight c d hc hd => exact hc.seqRight hd
  | sequence ks c hc => exact extends_sequence hc ks
  | map₂ f c d hc hd => exact hc.map₂ f hd
  | option c default hc => exact hc.orElse (extends_refl _)
  | many c hc => exact hc.many
  | some c hc => exact (hc.map List.cons).seq hc.many
  | chainl term op hterm hop => exact hterm.chainl hop

end Backtrack.Parser
