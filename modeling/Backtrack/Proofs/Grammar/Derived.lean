import Backtrack.Grammar.Derived
import Backtrack.Proofs.Parser.Bracketing

/-!
# What derived grammars describe

A grammar of pairs describes pairs of parsers, with tuples of two values; a grammar of a row
describes a row of parsers, with tuples of all their values; and a grammar of alternatives describes
alternatives.
-/

namespace Backtrack.Grammar

variable (meaning : String → Parser Value Value)

/-- A pair of grammars describes the pair of the parsers, with values as tuples. -/
theorem parser_pair (p q : Grammar) :
    (pair p q).parser meaning =
      .map (fun c ↦ Value.tuple [c.1, c.2]) (.pair (p.parser meaning) (q.parser meaning)) :=
  Parser.tryMap_ok (fun c : Value × Value ↦ Value.tuple [c.1, c.2]) _

/-- A sequence of grammars describes the sequence of the parsers, with values as a tuple. -/
theorem parser_sequence (ps : List Grammar) :
    (sequence ps).parser meaning = .map .tuple (.sequence (ps.map (parser meaning))) := by
  let snoc (c : Value × Value) : Except Fault Value :=
    c.1.spread fun vs ↦ .ok (.tuple (vs ++ [c.2]))
  induction ps using List.reverseRecOn with
  | nil => rfl
  | append_singleton ps p ih =>
    have hlast : (sequence (ps ++ [p])).parser meaning =
        .tryMap snoc (.pair ((sequence ps).parser meaning) (p.parser meaning)) := by
      rw [sequence, List.foldl_append]
      rfl
    rw [hlast, ih, Parser.pair_map_left, Parser.tryMap_map, List.map_append, List.map_singleton,
      Parser.sequence_concat, Parser.map_map]
    exact Parser.tryMap_ok
      (fun c : List Value × Value ↦ Value.tuple (c.1 ++ [c.2])) _

/-- A sequence of two grammars describes the same parser as their pair. -/
theorem parser_sequence_pair (p q : Grammar) :
    (sequence [p, q]).parser meaning = (pair p q).parser meaning := by
  rw [parser_sequence, parser_pair, List.map_cons, List.map_singleton,
    ← List.singleton_append, Parser.sequence_concat, Parser.sequence_singleton,
    Parser.pair_map_left, Parser.map_map, Parser.map_map]
  rfl

/-- A choice of grammars describes the choice of the parsers. -/
theorem parser_choice (ps : List Grammar) :
    (choice ps).parser meaning = .choice (ps.map (parser meaning)) := by
  rw [choice, Parser.choice, List.foldl_map]
  exact (List.foldl_hom (parser meaning) fun _ _ ↦ rfl).symm

end Backtrack.Grammar
