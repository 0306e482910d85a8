import Backtrack.Proofs.Grammar.Derived
import Backtrack.Proofs.Parser.LeftChain
import Backtrack.Proofs.Parser.Locality

/-!
# Left recursion by repetition in grammars

The grammar of a chain describes the parser that folds values to the left by applying what stands
between them, so that its results are those of the derivations by `X → X op term | term`. The main
statement is `enumerates_chainl`.
-/

namespace Backtrack

namespace Grammar

/-- A chain of grammars describes the chain of the parsers that applies the values in between. -/
theorem parser_chainl (meaning : String → Parser Value Value) (term op : Grammar) :
    (chainl term op).parser meaning =
      .chainlWith Value.call₂ (term.parser meaning) (op.parser meaning) := by
  let item (s : Value × Value) : Value := .tuple [s.1, s.2]
  have hmany : (many (pair op term)).parser meaning =
      .map (fun steps ↦ Value.tuple (steps.map item))
        (.many (.pair (op.parser meaning) (term.parser meaning))) := by
    change Parser.map Value.tuple (.many ((pair op term).parser meaning)) = _
    rw [parser_pair, Parser.many_map, Parser.map_map]
  have hfold (v : Value) (steps : List (Value × Value)) :
      Value.foldSteps [v, .tuple (steps.map item)] = Parser.fold Value.call₂ v steps := by
    rw [Value.foldSteps, List.foldlM_map]
    rfl
  have hchain : (chainl term op).parser meaning = .tryMap (Value.spread Value.foldSteps)
      ((sequence [term, many (pair op term)]).parser meaning) := rfl
  rw [hchain, parser_sequence_pair, parser_pair, hmany, Parser.pair_map_right, Parser.tryMap_map,
    Parser.tryMap_map]
  simp only [Value.spread, hfold]
  rfl

end Grammar

namespace LeftDerivation

/-- The results of a chain on tokens where its parts are steady are those of the derivations by
`X → X op term | term` in front of them: all of them, each once, with the same value and the same
leftover, and each before the shorter ones that it goes on from. This holds of parsers whose `op`
gives functions, and of grammars, whatever their names mean, whose `op` gives values to be
applied. -/
theorem enumerates_chainl :
    (∀ {τ α : Type} (term : Parser τ α) (op : Parser τ (α → α → α)) (ts : List τ),
      Steady (fun f a b ↦ .ok (f a b)) term op ts →
        ∃ ds rs, (Parser.chainl term op).results ts = .ok rs ∧
          Enumerates (result? (fun f a b ↦ .ok (f a b)) term op ts) Set.univ ds rs) ∧
    ∀ (meaning : String → Parser Value Value) (term op : Grammar) (ts : List Value),
      Steady Value.call₂ (term.parser meaning) (op.parser meaning) ts →
        ∃ ds rs, ((Grammar.chainl term op).parser meaning).results ts = .ok rs ∧
          Enumerates (result? Value.call₂ (term.parser meaning) (op.parser meaning) ts)
            Set.univ ds rs := by
  constructor
  · intro τ α term op ts h
    rw [Parser.chainl_eq]
    exact enumerates_chainlWith h
  · intro meaning term op ts h
    rw [Grammar.parser_chainl]
    exact enumerates_chainlWith h

/-- A parser of any token with two values. -/
def twoWays {τ : Type} : Parser τ τ := .orElse (.token some) (.token some)

/-- A parser of any token with the value `f`. -/
def standsFor {τ φ : Type} (f : φ) : Parser τ φ := .map (fun _ ↦ f) (.token some)

section

variable {τ φ : Type} {apply : φ → τ → τ → Except Fault τ} {f : φ}

private theorem reads_twoWays :
    (twoWays : Parser τ τ).Reads (.orElse (.token some) (.token some)) :=
  Parser.reads_orElse (Parser.reads_token some) (Parser.reads_token some)

private theorem ne_nil_of_twoWays {u : List τ} {a : τ}
    (h : Language.orElse (.token some) (.token some) u a) : u ≠ [] := by
  rcases h with ⟨t, rfl, -⟩ | ⟨t, rfl, -⟩ <;> exact List.cons_ne_nil t []

private theorem endsOn_twoWays (us : List τ) : twoWays.EndsOn us :=
  Parser.endsOn_orElse_iff.mpr ⟨Parser.endsOn_token some us, Parser.endsOn_token some us⟩

private theorem reads_standsFor :
    (standsFor f : Parser τ φ).Reads (.map (fun _ ↦ f) (.token some)) :=
  Parser.reads_map _ (Parser.reads_token some)

private theorem endsOn_standsFor (us : List τ) : (standsFor f).EndsOn us :=
  Parser.endsOn_map_iff.mpr (Parser.endsOn_token some us)

private theorem steady_twoWays (hf : ∀ a b, ∃ c, apply f a b = .ok c) (ts : List τ) :
    Steady apply twoWays (standsFor f) ts := by
  refine steady_of_reads reads_twoWays reads_standsFor (fun _ _ ↦ ne_nil_of_twoWays) ?_
    endsOn_twoWays endsOn_standsFor
  rintro u g ⟨a, -, rfl⟩
  exact hf

private theorem results_twoWays {a b c : τ} (hc : apply f a b = .ok c) (s : τ) :
    (Parser.chainlWith apply twoWays (standsFor f)).results [a, s, b] =
      .ok [(c, []), (c, []), (a, [s, b]), (c, []), (c, []), (a, [s, b])] := by
  let steps : Parser τ (List (φ × τ)) := .many (.pair (standsFor f) twoWays)
  have hends : steps.EndsOn [s, b] := by
    refine Parser.endsOn_many (Parser.reads_pair reads_standsFor reads_twoWays) ?_ fun us _ ↦
      Parser.endsOn_pair_iff.mpr ⟨endsOn_standsFor us, fun x _ ↦ endsOn_twoWays x.2⟩
    rintro w y ⟨u, v, rfl, -, hv⟩
    exact List.append_ne_nil_of_right_ne_nil u (ne_nil_of_twoWays hv)
  have hsteps : steps.run [s, b] = .ofList [([(f, b)], []), ([(f, b)], []), ([], [s, b])] := by
    rw [← Parser.run_unrolled_of_endsOn hends (Nat.lt_succ_self [s, b].length)]
    rfl
  have hfrom : Parser.chainFrom apply twoWays (standsFor f) (a, [s, b]) =
      .ofList [(c, []), (c, []), (a, [s, b])] := by
    have hfold : Parser.fold apply a [(f, b)] = .ok c := by
      rw [Parser.fold, List.foldlM_cons, hc]
      rfl
    change (steps.run [s, b]).tryMap _ = _
    rw [hsteps]
    simp only [Trace.ofList, Trace.tryMap, hfold]
    rfl
  have hterm : twoWays.run [a, s, b] = .ofList [(a, [s, b]), (a, [s, b])] := rfl
  rw [Parser.results, Parser.run_chainlWith, hterm]
  simp only [Trace.ofList, Trace.flatMap_yield, hfrom]
  rfl

end

/-- Two tokens, each in two ways, and between them one that stands for a function of both: there are
six derivations, and so there are six results. -/
theorem enumerates_chainl_twoWays :
    let ways : Grammar := .orElse (.token some none) (.token some none)
    let both : Grammar := .map (fun _ ↦ .ok (.binary .both)) (.token some none)
    let row : List Value := [.int 7, .str "-", .int 2]
    let items : Value := .tuple [.int 7, .int 2]
    (∃ ds, Enumerates (result? (fun f a b ↦ .ok (f a b)) twoWays (standsFor Nat.sub) [7, 0, 2])
        Set.univ ds [(5, []), (5, []), (7, [0, 2]), (5, []), (5, []), (7, [0, 2])]) ∧
      ∃ ds, Enumerates
        (result? Value.call₂ (ways.parser fun _ ↦ .fail) (both.parser fun _ ↦ .fail) row)
        Set.univ ds
        [(items, []), (items, []), (.int 7, row.tail), (items, []), (items, []),
          (.int 7, row.tail)] := by
  intro ways both row items
  have hboth : both.parser (fun _ ↦ .fail) = standsFor (.binary .both) := Parser.tryMap_ok _ _
  constructor
  · obtain ⟨ds, rs, hrs, hds⟩ := enumerates_chainl.1 twoWays (standsFor Nat.sub) [7, 0, 2]
      (steady_twoWays (fun a b ↦ ⟨a - b, rfl⟩) _)
    rw [Parser.chainl_eq, results_twoWays rfl] at hrs
    obtain rfl := Except.ok.inj hrs
    exact ⟨ds, hds⟩
  · have hsteady : Steady Value.call₂ twoWays (standsFor (.binary .both)) row :=
      steady_twoWays (fun v w ↦ ⟨.tuple [v, w], rfl⟩) row
    obtain ⟨ds, rs, hrs, hds⟩ := enumerates_chainl.2 (fun _ ↦ .fail) ways both row
      (hboth ▸ hsteady)
    rw [Grammar.parser_chainl, hboth] at hrs
    rw [show ways.parser (fun _ ↦ .fail) = twoWays from rfl, results_twoWays rfl] at hrs
    obtain rfl := Except.ok.inj hrs
    exact ⟨ds, hds⟩

end LeftDerivation
end Backtrack
