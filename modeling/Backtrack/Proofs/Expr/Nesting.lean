import Backtrack.Proofs.Expr.Recognition
import Backtrack.Proofs.Report.Outcome
import Mathlib.Data.List.Chain
import Mathlib.Data.List.Forall2

/-!
# Expressions inside expressions

While an expression is read, others are begun inside it, and many of them come to nothing. Still,
each one stands behind an opening of its own: expressions are open inside one another to no more
than the number of openings, however long a sum is, and names and numbers alone begin none at all.
So reading a text does not run out of room as long as there are fewer openings than that. The main
statement is `nesting_behind_openings`.

An expression is begun on an end of the tokens if a fault in the place of it stops the run
(`Begins`).
-/

namespace Backtrack

/-! ### A fault in one place -/

namespace Parser

variable {τ α : Type} [DecidableEq τ] {p : Parser τ α} {us : List τ} {fault : Fault}

/-- `p` with a fault in the place of its run on `us`. -/
def stoppingAt (p : Parser τ α) (us : List τ) (fault : Fault) : Parser τ α :=
  ⟨fun ts ↦ if ts = us then .raised fault else p.run ts⟩

/-- On the chosen tokens the run is stopped by the fault. -/
theorem run_stoppingAt_self : (p.stoppingAt us fault).run us = .raised fault := if_pos rfl

/-- On other tokens the run is that of the parser. -/
theorem run_stoppingAt_of_ne {ts : List τ} (h : ts ≠ us) :
    (p.stoppingAt us fault).run ts = p.run ts := if_neg h

/-- A fault on one list of tokens does not change the language of a parser. -/
theorem Reads.stoppingAt {D : Language τ α} (hp : p.Reads D) (us : List τ) (fault : Fault) :
    (p.stoppingAt us fault).Reads D where
  sound {ts r a} hm := by
    by_cases hts : ts = us
    · rw [hts, run_stoppingAt_self] at hm
      cases hm
    · rw [run_stoppingAt_of_ne hts] at hm
      exact hp.sound hm
  complete {u r a} he hD := by
    rw [EndsOn] at he
    by_cases hts : u ++ r = us
    · rw [hts, run_stoppingAt_self] at he
      cases he
    · rw [run_stoppingAt_of_ne hts] at he ⊢
      exact hp.complete he hD

end Parser

namespace Expr

open Backtrack.Parser

/-! ### The parts of an expression -/

/-- What is read with expressions inside it, provided that only an expression behind an opening can
stop the run. -/
def IsPart {α : Type} (F : Parser Token Expr → Parser Token α) : Prop :=
  ∀ p, p.Reads exprLanguage → FaultsBehind (F p) p

/-! ### Expressions that are begun -/

/-- A fault that reading an expression does not stop with by itself. -/
def probe : Fault := .failure "begun"

/-- While `F` of the expressions with so much room is read on `ts`, one of these is begun on `us`:
a fault in its place is met. -/
def Begins {α : Type} (F : Parser Token Expr → Parser Token α) (room : Nat) (ts us : List Token) :
    Prop :=
  ((F ((parser room).stoppingAt us probe)).run ts).ending = some probe

section Part

variable {α : Type} {F : Parser Token Expr → Parser Token α} (hF : IsPart F) {room : Nat}
  {ts us : List Token}

include hF

/-- With a fault in the place of an expression, the run stops with this fault or with one of
another expression. -/
theorem fault_of_stoppingAt {fault fault' : Fault}
    (h : ((F ((parser room).stoppingAt us fault)).run ts).ending = some fault') :
    fault' = fault ∧ BehindOpening ts us ∨
      ∃ vs, BehindOpening ts vs ∧ ((parser room).run vs).ending = some fault' := by
  have hreads := (parser_reads room).stoppingAt us fault
  obtain ⟨vs, hvs, hf⟩ := hF _ hreads ts fault' h
  by_cases hus : vs = us
  · subst hus
    rw [run_stoppingAt_self] at hf
    exact .inl ⟨(Option.some.inj hf).symm, hvs⟩
  · rw [run_stoppingAt_of_ne hus] at hf
    exact .inr ⟨vs, hvs, hf⟩

/-- Every begun expression stands behind an opening. -/
theorem Begins.behindOpening (h : Begins F room ts us) : BehindOpening ts us := by
  rcases fault_of_stoppingAt hF h with ⟨-, hus⟩ | ⟨vs, -, hf⟩
  · exact hus
  · cases parser_onlyOverflows room vs probe hf

end Part

/-! ### Expressions inside one another -/

/-- The expressions on the ends `chain` of the tokens are open inside one another while another one
is open with so much room on `ts`: each of them is begun by the one before it. -/
inductive Nesting : Nat → List Token → List (List Token) → Prop
  /-- None is open inside. -/
  | nil {room : Nat} {ts : List Token} : Nesting room ts []
  /-- One is begun, and others inside it. -/
  | cons {room : Nat} {ts us : List Token} {chain : List (List Token)} :
    Begins exprOf room ts us → Nesting room us chain → Nesting (room + 1) ts (us :: chain)

/-- The expressions on the ends `chain` of the tokens are open inside one another while `F` of the
expressions with so much room is read on `ts`. -/
inductive NestingIn {α : Type} (F : Parser Token Expr → Parser Token α) (room : Nat)
    (ts : List Token) : List (List Token) → Prop
  /-- None is open. -/
  | nil : NestingIn F room ts []
  /-- One is begun, and others inside it. -/
  | cons {us : List Token} {chain : List (List Token)} :
    Begins F room ts us → Nesting room us chain → NestingIn F room ts (us :: chain)

/-- Expressions that are open inside one another stand each behind an opening of the tokens of the
one around it. -/
theorem Nesting.isChain {room : Nat} {ts : List Token} {chain : List (List Token)}
    (h : Nesting room ts chain) : (ts :: chain).IsChain BehindOpening := by
  induction h with
  | nil => exact .singleton _
  | cons hbegins _ ih => exact .cons_cons (hbegins.behindOpening fun _ ↦ faultsBehind_exprOf) ih

/-- Expressions that are open inside one another in a part stand each behind an opening of the
tokens of the one around it, and the outermost one behind an opening of the tokens of the part. -/
theorem NestingIn.isChain {α : Type} {F : Parser Token Expr → Parser Token α} (hF : IsPart F)
    {room : Nat} {ts : List Token} {chain : List (List Token)} (h : NestingIn F room ts chain) :
    (ts :: chain).IsChain BehindOpening := by
  cases h with
  | nil => exact .singleton _
  | cons hbegins hchain => exact .cons_cons (hbegins.behindOpening hF) hchain.isChain

/-- The token at the place `i` among the tokens is an opening in front of the end `us`. -/
structure OpensFor (ts : List Token) (i : Nat) (us : List Token) : Prop where
  /-- What is opened is a suffix of the tokens. -/
  suffix : us <:+ ts
  /-- The place is in front of the suffix. -/
  lt : i + us.length < ts.length
  /-- The token at the place is an opening. -/
  opens : (ts[i]?).any opens = true

/-- A suffix of the tokens behind an opening has an opening in front of it at some place. -/
theorem BehindOpening.exists_opensFor {ts us : List Token} (h : BehindOpening ts us) :
    ∃ i, OpensFor ts i us := by
  have hsuffix := h.suffix
  obtain ⟨t, vs, ht, ⟨before, rfl⟩, hus⟩ := h
  refine ⟨before.length, hsuffix, ?_, ?_⟩
  · have hle := hus.length_le
    rw [List.length_append, List.length_cons]
    omega
  · rw [List.getElem?_append_right (Nat.le_refl _), Nat.sub_self]
    exact ht

/-- Putting tokens in front moves the place of an opening by their number. -/
theorem OpensFor.shift {us vs : List Token} {i : Nat} (h : OpensFor us i vs)
    (before : List Token) : OpensFor (before ++ us) (before.length + i) vs where
  suffix := h.suffix.trans (List.suffix_append before us)
  lt := by
    have hlt := h.lt
    rw [List.length_append]
    omega
  opens := by
    rw [List.getElem?_append_right (Nat.le_add_right _ _), Nat.add_sub_cancel_left]
    exact h.opens

/-- Suffixes of the tokens, each behind an opening of the one before, have distinct openings at
increasing places. -/
theorem exists_places {ts : List Token} {chain : List (List Token)}
    (h : (ts :: chain).IsChain BehindOpening) :
    ∃ places : List Nat, places.Pairwise (· < ·) ∧ List.Forall₂ (OpensFor ts) places chain := by
  induction chain generalizing ts with
  | nil => exact ⟨[], .nil, .nil⟩
  | cons us chain ih =>
    obtain ⟨hus, hchain⟩ := List.isChain_cons_cons.mp h
    obtain ⟨i, hi⟩ := hus.exists_opensFor
    obtain ⟨places, hlt, hplaces⟩ := ih hchain
    obtain ⟨before, rfl⟩ := hi.suffix
    have hfirst : i < before.length := by
      have hlt := hi.lt
      rw [List.length_append] at hlt
      omega
    refine ⟨i :: places.map (before.length + ·), ?_, .cons hi ?_⟩
    · rw [List.pairwise_cons, List.pairwise_map]
      constructor
      · intro j hj
        obtain ⟨k, -, rfl⟩ := List.mem_map.mp hj
        omega
      · exact hlt.imp fun hlt ↦ Nat.add_lt_add_left hlt _
    · rw [List.forall₂_map_left_iff]
      exact hplaces.imp fun _ _ hj ↦ hj.shift before

/-- Suffixes of the tokens, each behind an opening of the one before, are no more than the
openings. -/
theorem length_le_openings {ts : List Token} {chain : List (List Token)}
    (h : (ts :: chain).IsChain BehindOpening) : chain.length ≤ openings ts := by
  induction chain generalizing ts with
  | nil => exact Nat.zero_le _
  | cons us chain ih =>
    obtain ⟨hus, hchain⟩ := List.isChain_cons_cons.mp h
    exact Nat.lt_of_le_of_lt (ih hchain) hus.openings_lt

/-! ### The depth of an expression -/

/-- Tokens that are all `+`, names or numbers have no openings. -/
theorem openings_eq_zero {ts : List Token}
    (h : ∀ t ∈ ts, t = .symbol '+' ∨ (nameOf? t).isSome ∨ (numberOf? t).isSome) :
    openings ts = 0 := by
  rw [openings, List.countP_eq_zero]
  intro t ht hopens
  have hplain := h t ht
  cases t with
  | number n => cases hopens
  | symbol c =>
    obtain rfl : c = '(' := eq_of_beq hopens
    revert hplain
    decide
  | identifier w =>
    obtain rfl : w = "let" := eq_of_beq hopens
    revert hplain
    decide

/-- Expressions are open inside one another behind openings of their own while `F` of the
expressions with so much room is read on `ts`. -/
structure NestsBehindOpenings {α : Type} (F : Parser Token Expr → Parser Token α) (room : Nat)
    (ts : List Token) : Prop where
  /-- Each has an opening in front, a later one than that of the expression around it. -/
  places : ∀ chain, NestingIn F room ts chain →
    ∃ places : List Nat, places.Pairwise (· < ·) ∧ List.Forall₂ (OpensFor ts) places chain
  /-- Besides the outermost one, there are no more expressions than openings. -/
  depth : ∀ chain, NestingIn F room ts chain → chain.length ≤ openings ts
  /-- None is begun where there are only `+`, names and numbers. -/
  flat : (∀ t ∈ ts, t = .symbol '+' ∨ (nameOf? t).isSome ∨ (numberOf? t).isSome) →
    ∀ us, ¬ Begins F room ts us

/-- In every part of an expression the begun expressions nest behind openings. -/
theorem IsPart.nestsBehindOpenings {α : Type} {F : Parser Token Expr → Parser Token α}
    (hF : IsPart F) (room : Nat) (ts : List Token) : NestsBehindOpenings F room ts where
  places _ h := exists_places (h.isChain hF)
  depth _ h := length_le_openings (h.isChain hF)
  flat h us hbegins := by
    have hlt := (hbegins.behindOpening hF).openings_lt
    rw [openings_eq_zero h] at hlt
    exact absurd hlt (Nat.not_lt_zero _)

/-- With more room than there are openings, a text is not told to be nested too deeply. -/
theorem issue?_ne_tooNested {room : Nat} {text : String}
    (h : ∀ ts, Token.scan text = .ok ts → openings ts < room) (size : Nat) :
    (Outcome.of (parser room) text).issue? text ≠ some (.tooNested size) := by
  intro hissue
  have happlies := Outcome.applies_of (parser room) text
  cases ho : Outcome.of (parser room) text with
  | nested size' =>
    rw [ho] at happlies
    obtain ⟨ts, hts, hrs, -⟩ := happlies
    have hf := results_eq_error_iff.mp hrs
    rw [parser_endsOn (h ts hts)] at hf
    cases hf
  | _ =>
    rw [ho] at hissue
    cases hissue

/-- While an expression is read, or a local definition, an atom, a term or a continuation, the
expressions that are open inside one another stand behind openings of their own, one later than
another. So there are no more of them than openings, and in a sum of names and numbers there are
none. Reading a text with room for more expressions than it has openings does not find it nested too
deeply: room for 42 is enough for 41 openings, however long the text is. -/
theorem nesting_behind_openings :
    (∀ (room : Nat) (ts : List Token),
      NestsBehindOpenings exprOf room ts ∧ NestsBehindOpenings letOf room ts ∧
      NestsBehindOpenings atomOf room ts ∧ NestsBehindOpenings termOf room ts ∧
      NestsBehindOpenings restOf room ts) ∧
    ∀ (room : Nat) (text : String) (c : Console),
      (∀ ts, Token.scan text = .ok ts → openings ts < room) →
      ∃ issues : List Issue,
        (Console.perform (Console.read (parser room) text) c).2.report.issues =
          c.report.issues ++ issues ∧
        ∀ size, .tooNested size ∉ issues := by
  constructor
  · intro room ts
    exact ⟨IsPart.nestsBehindOpenings (fun _ ↦ faultsBehind_exprOf) room ts,
      IsPart.nestsBehindOpenings (fun _ ↦ faultsBehind_letOf) room ts,
      IsPart.nestsBehindOpenings (fun _ ↦ faultsBehind_atomOf) room ts,
      IsPart.nestsBehindOpenings (fun _ ↦ faultsBehind_termOf) room ts,
      IsPart.nestsBehindOpenings (fun _ ↦ faultsBehind_restOf) room ts⟩
  · intro room text c hlt
    refine ⟨((Outcome.of (parser room) text).issue? text).toList, ?_, ?_⟩
    · rw [Console.perform_read, Outcome.settle, Console.aside_eq]
    · intro size hmem
      exact issue?_ne_tooNested hlt size (Option.mem_toList.mp hmem)

/-- In an expression that breaks off, three others are open inside one another, as many as there are
openings. A sum of a name and a number opens none. There is room enough to find out that the
expression breaks off. -/
theorem nesting_behind_openings_unclosed :
    let ts : List Token := [.symbol '(', .identifier "let", .identifier "x", .symbol '=',
      .symbol '(', .identifier "y"]
    let chain : List (List Token) := [ts.drop 1, ts.drop 4, ts.drop 5]
    let behind : List Token := [.symbol '+', .identifier "x", .symbol '+', .number 1]
    NestingIn exprOf 3 ts chain ∧
      (∃ places : List Nat, places.Pairwise (· < ·) ∧ List.Forall₂ (OpensFor ts) places chain) ∧
      chain.length ≤ openings ts ∧
      ¬ Begins restOf 3 behind [.number 1] ∧
      ∀ size, .tooNested size ∉ (Console.perform (Console.read (parser room) "( let x = ( y")
        (.fresh ⟨false, 8, []⟩ ⟨[], 0⟩)).2.report.issues := by
  intro ts chain behind
  have hchain : NestingIn exprOf 3 ts chain := .cons rfl (.cons rfl (.cons rfl .nil))
  have hexpr : NestsBehindOpenings exprOf 3 ts := (nesting_behind_openings.1 3 ts).1
  have hrest : NestsBehindOpenings restOf 3 behind := (nesting_behind_openings.1 3 behind).2.2.2.2
  have hts : Token.scan "( let x = ( y" = .ok ts := by
    have hcanonical : ∀ t ∈ ts, t.Canonical := by decide +kernel
    have hspell : Token.spell ts = "( let x = ( y" := rfl
    rw [← hspell]
    exact Token.scan_spell_of_canonical hcanonical
  have hopenings : ∀ ts', Token.scan "( let x = ( y" = .ok ts' → openings ts' < room := by
    intro ts' hts'
    obtain rfl := Except.ok.inj (hts.symm.trans hts')
    decide
  obtain ⟨issues, hissues, hnone⟩ := nesting_behind_openings.2 room "( let x = ( y"
    (.fresh ⟨false, 8, []⟩ ⟨[], 0⟩) hopenings
  refine ⟨hchain, hexpr.places chain hchain, hexpr.depth chain hchain,
    hrest.flat (by decide) [.number 1], ?_⟩
  rw [hissues]
  exact hnone

end Expr

end Backtrack
