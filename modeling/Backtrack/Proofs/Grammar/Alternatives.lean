import Backtrack.Proofs.Grammar.Derived
import Backtrack.Proofs.Grammar.Sequencing
import Backtrack.Proofs.Parser.Alternatives

/-!
# Laws of alternatives

A sequence with alternatives in its first part is one sequence after the other, and with
alternatives in its second part it has the results of both sequences, result by result of the first
part. Brackets around alternatives are of no account, nor are grammars among them that never match.
This is said of parsers and of the grammars that describe them; the main statement is
`alternative_laws`.
-/

namespace Backtrack

namespace Grammar

variable (meaning : String → Parser Value Value)

/-- A grammar paired with alternatives describes the pair of the parsers. -/
theorem parser_pair_orElse (p q r : Grammar) :
    (pair p (orElse q r)).parser meaning =
      .map (fun c ↦ Value.tuple [c.1, c.2])
        (.pair (p.parser meaning) (.orElse (q.parser meaning) (r.parser meaning))) :=
  parser_pair meaning p (orElse q r)

/-- Alternative pairs of grammars describe the alternative pairs of the parsers. -/
theorem parser_orElse_pairs (p q r s : Grammar) :
    (orElse (pair p q) (pair r s)).parser meaning =
      .map (fun c ↦ Value.tuple [c.1, c.2])
        (.orElse (.pair (p.parser meaning) (q.parser meaning))
          (.pair (r.parser meaning) (s.parser meaning))) := by
  rw [parser, parser_pair, parser_pair, Parser.map_orElse]

/-- Alternatives paired with a grammar describe the alternative pairs. -/
theorem parser_orElse_pair (p q r : Grammar) :
    (pair (orElse p q) r).parser meaning = (orElse (pair p r) (pair q r)).parser meaning := by
  rw [parser_pair, parser, Parser.orElse_pair, parser_orElse_pairs]

/-- Bracketed alternatives of grammars describe the choice of all but the missing ones, which stand
for `fail`. -/
theorem parser_fold_orElse (b : Bracketing (Option Grammar)) :
    (b.fold (·.getD fail) orElse).parser meaning =
      (choice b.items.reduceOption).parser meaning := by
  have hfold : (b.fold (·.getD fail) orElse).parser meaning =
      b.fold (fun g? ↦ (g?.map (parser meaning)).getD .fail) .orElse := by
    induction b with
    | item g? => cases g? <;> rfl
    | join l r ihl ihr => rw [Bracketing.fold, parser, ihl, ihr, Bracketing.fold]
  rw [hfold, Parser.fold_orElse, parser_choice]

end Grammar

namespace Definitions

/-- The laws of alternatives. In front of a parser they show the trace of one sequence after the
other. Behind a parser they have, where no run stops with a fault, the same results as one sequence
after the other, each as often, and in the same order if the parser has at most one result. A row of
them shows the trace of each, one after another, up to the first that stops with a fault; and so
does every way to put the row together two at a time, with parsers anywhere among them that never
match. So do grammars. -/
theorem alternative_laws :
    (∀ {τ α β : Type} (p q : Parser τ α) (r s : Parser τ β) (ps : List (Parser τ α))
        (b : Bracketing (Option (Parser τ α))) (ts : List τ),
      Parser.pair (.orElse p q) r = .orElse (.pair p r) (.pair q r) ∧
        (p.EndsOn ts → (∀ x ∈ (p.run ts).entries, r.EndsOn x.2 ∧ s.EndsOn x.2) →
          ((Parser.pair p (.orElse r s)).run ts).SameResults
              ((Parser.orElse (.pair p r) (.pair p s)).run ts) ∧
            ((p.run ts).entries.length ≤ 1 → (Parser.pair p (.orElse r s)).run ts =
              (Parser.orElse (.pair p r) (.pair p s)).run ts)) ∧
        ((Parser.choice ps).run ts).RunsThrough (ps.map (·.run ts)) ∧
        b.fold (·.getD .fail) .orElse = Parser.choice b.items.reduceOption) ∧
    ∀ (defs : Definitions) (room : Nat) (p q r s : Grammar) (ps : List Grammar)
        (b : Bracketing (Option Grammar)) (ts : List Value),
      defs.trace room (.pair (.orElse p q) r) ts =
          defs.trace room (.orElse (.pair p r) (.pair q r)) ts ∧
        ((defs.trace room p ts).ending = none →
          (∀ x ∈ (defs.trace room p ts).entries,
            (defs.trace room r x.2).ending = none ∧ (defs.trace room s x.2).ending = none) →
          (defs.trace room (.pair p (.orElse r s)) ts).SameResults
              (defs.trace room (.orElse (.pair p r) (.pair p s)) ts) ∧
            ((defs.trace room p ts).entries.length ≤ 1 →
              defs.trace room (.pair p (.orElse r s)) ts =
                defs.trace room (.orElse (.pair p r) (.pair p s)) ts)) ∧
        (defs.trace room (.choice ps) ts).RunsThrough (ps.map fun g ↦ defs.trace room g ts) ∧
        defs.trace room (b.fold (·.getD .fail) .orElse) ts =
          defs.trace room (.choice b.items.reduceOption) ts := by
  constructor
  · intro τ α β p q r s ps b ts
    refine ⟨Parser.orElse_pair p q r, fun hp hrs ↦ ⟨?_, ?_⟩, Parser.runsThrough_choice ps ts, ?_⟩
    · exact Parser.sameResults_pair_orElse hp (fun x hx ↦ (hrs x hx).1) fun x hx ↦ (hrs x hx).2
    · exact Parser.run_pair_orElse_of_length_le_one hp
    · have hfold := Parser.fold_orElse id b
      simpa only [Option.map_id, id, List.map_id] using hfold
  · intro defs room p q r s ps b ts
    simp only [trace_eq]
    refine ⟨congrArg (Parser.run · ts) (Grammar.parser_orElse_pair _ p q r), fun hp hrs ↦ ?_, ?_,
      congrArg (Parser.run · ts) (Grammar.parser_fold_orElse _ b)⟩
    · rw [Grammar.parser_pair_orElse, Grammar.parser_orElse_pairs]
      constructor
      · exact (Parser.sameResults_pair_orElse hp (fun x hx ↦ (hrs x hx).1)
          fun x hx ↦ (hrs x hx).2).map _
      · intro hlength
        exact congrArg (Trace.map _) (Parser.run_pair_orElse_of_length_le_one hp hlength)
    · rw [Grammar.parser_choice]
      have hrun := Parser.runsThrough_choice (ps.map (Grammar.parser (defs.meaning room))) ts
      rwa [List.map_map] at hrun

/-- Two results in front of two alternatives: there are the same four results both ways, but the
results for the first alternative come together only if the alternatives are outside. -/
theorem alternative_laws_twoResults :
    let one : Parser Char ℕ := .pure 1
    let two : Parser Char ℕ := .orElse (.pure 1) (.pure 2)
    let inside (p : Parser Char ℕ) := (Parser.pair p (.orElse (.pure 3) (.pure 4))).run []
    let outside (p : Parser Char ℕ) :=
      (Parser.orElse (.pair p (.pure 3)) (.pair p (.pure 4))).run []
    let defs : Definitions := fun name ↦ .error (.undefined name)
    let num (n : Int) : Grammar := .pure (.int n) "number"
    let nums : Grammar := .orElse (num 1) (num 2)
    let within (p : Grammar) := defs.trace 0 (.pair p (.orElse (num 3) (num 4))) []
    let around (p : Grammar) := defs.trace 0 (.orElse (.pair p (num 3)) (.pair p (num 4))) []
    (inside two).SameResults (outside two) ∧
      (inside two).entries.map Prod.fst = [(1, 3), (1, 4), (2, 3), (2, 4)] ∧
      (outside two).entries.map Prod.fst = [(1, 3), (2, 3), (1, 4), (2, 4)] ∧
      inside one = outside one ∧
      (within nums).SameResults (around nums) ∧ (within nums).entries ≠ (around nums).entries ∧
      within (num 1) = around (num 1) := by
  intro one two inside outside defs num nums within around
  have hparser (p : Parser Char ℕ) (hp : p.EndsOn []) :=
    (alternative_laws.1 p p (.pure 3) (.pure 4) [] (.item none) []).2.1 hp fun x _ ↦ ⟨rfl, rfl⟩
  have hgrammar (p : Grammar) (hp : (defs.trace 0 p []).ending = none) :=
    (alternative_laws.2 defs 0 p p (num 3) (num 4) [] (.item none) []).2.1 hp
      fun x _ ↦ ⟨rfl, rfl⟩
  exact ⟨(hparser two rfl).1, rfl, rfl, (hparser one rfl).2 (Nat.le_refl 1),
    (hgrammar nums rfl).1, by decide, (hgrammar (num 1) rfl).2 (Nat.le_refl 1)⟩

end Definitions
end Backtrack
