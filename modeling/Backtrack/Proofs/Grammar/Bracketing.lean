import Backtrack.Proofs.Grammar.Derived
import Backtrack.Proofs.Grammar.Sequencing

/-!
# Brackets around grammars in a row

Grammars in a row read the same in whatever way they are put together into nested pairs, once the
tuples of two values are flattened, and a row reads like its two pieces one after the other. Both
hold of the parsers that they describe. The main statement is `sequencing_associative`.
-/

namespace Backtrack

namespace Bracketing

variable {α : Type}

/-- The value of nested pairs: each pair as a tuple of two. -/
def nest : (b : Bracketing α) → b.Nested Value → Value
  | item _, v => v
  | join l r, v => .tuple [l.nest v.1, r.nest v.2]

/-- The values at the leaves of such a value; any other value is refused. -/
def unnest : Bracketing α → Value → Except Fault (List Value)
  | item _, v => .ok [v]
  | join l r, .tuple [v, w] => (l.unnest v).bind fun vs ↦ (r.unnest w).map fun ws ↦ vs ++ ws
  | join _ _, _ => .error .mistyped

/-- Unnesting the value of nested pairs gives the values of the pairs in order. -/
theorem unnest_nest (b : Bracketing α) (v : b.Nested Value) :
    b.unnest (b.nest v) = .ok (b.flatten v) := by
  induction b with
  | item a => rfl
  | join l r ihl ihr =>
    rw [nest, unnest, ihl, ihr]
    rfl

end Bracketing

namespace Value

/-- The items of two tuples as one tuple. -/
def concat : Value → Except Fault Value
  | tuple [tuple vs, tuple ws] => .ok (tuple (vs ++ ws))
  | _ => .error .mistyped

end Value

namespace Grammar

/-- Nested pairs of grammars describe nested pairs of parsers. -/
theorem parser_fold_pair (meaning : String → Parser Value Value) (b : Bracketing Grammar) :
    (b.fold id pair).parser meaning = .map b.nest (b.pairs (parser meaning)) := by
  induction b with
  | item p => exact (Parser.map_id _).symm
  | join l r ihl ihr =>
    rw [Bracketing.fold, parser_pair, ihl, ihr, Parser.pair_map_left, Parser.pair_map_right,
      Parser.map_map, Parser.map_map]
    rfl

end Grammar

namespace Definitions

/-- Parsers in a row that are put together into nested pairs, in whatever way, show the trace of the
row, if the values in the pairs are put into one list: the same results in the same order, as often,
with the same leftovers, and the same fault at the same point. And a row of parsers shows the trace
of its two pieces one after the other, with their values put together. So do grammars. -/
theorem sequencing_associative :
    (∀ {τ α : Type} (b : Bracketing (Parser τ α)) (ps qs : List (Parser τ α)),
      Parser.map b.flatten (b.pairs id) = .sequence b.items ∧
        Parser.sequence (ps ++ qs) =
          .map (fun c ↦ c.1 ++ c.2) (.pair (.sequence ps) (.sequence qs))) ∧
    ∀ (defs : Definitions) (room : Nat) (b : Bracketing Grammar) (ps qs : List Grammar)
        (ts : List Value),
      defs.trace room (.map (fun v ↦ (b.unnest v).map .tuple) (b.fold id .pair)) ts =
          defs.trace room (.sequence b.items) ts ∧
        defs.trace room (.sequence (ps ++ qs)) ts =
          defs.trace room (.map Value.concat (.pair (.sequence ps) (.sequence qs))) ts := by
  constructor
  · intro τ α b ps qs
    refine ⟨?_, Parser.sequence_append ps qs⟩
    rw [Parser.map_flatten_pairs, List.map_id]
  · intro defs room b ps qs ts
    rw [trace_eq, trace_eq, trace_eq, trace_eq]
    refine ⟨congrArg (Parser.run · ts) ?_, congrArg (Parser.run · ts) ?_⟩
    · rw [Grammar.parser, Grammar.parser_fold_pair, Parser.tryMap_map, Grammar.parser_sequence,
        ← Parser.map_flatten_pairs, Parser.map_map, ← Parser.tryMap_ok]
      simp only [Bracketing.unnest_nest]
      rfl
    · rw [Grammar.parser, Grammar.parser_pair, Parser.tryMap_map, Grammar.parser_sequence,
        Grammar.parser_sequence, Grammar.parser_sequence, List.map_append, Parser.sequence_append,
        Parser.pair_map_left, Parser.pair_map_right, Parser.map_map, Parser.map_map,
        Parser.tryMap_map]
      exact (Parser.tryMap_ok
        (fun c : List Value × List Value ↦ Value.tuple (c.1 ++ c.2)) _).symm

end Definitions
end Backtrack
