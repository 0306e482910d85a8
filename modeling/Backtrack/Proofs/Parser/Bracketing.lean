import Backtrack.Proofs.Parser.Combinators
import Mathlib.Data.List.Induction

/-!
# Brackets around parsers in a row

Items in a row can be put together two at a time in many ways, and each of these is a binary tree
with the items at its leaves. Parsers that are put together into nested pairs read the same in all
of them, once the pairs are flattened: `map_flatten_pairs`. The reason is that pairs can be
regrouped (`pair_assoc`), so that a row can be read in two pieces (`sequence_append`).
-/

namespace Backtrack

/-- A binary bracketing of items in a row. -/
inductive Bracketing (α : Type) where
  /-- One item. -/
  | item (a : α)
  /-- Two bracketed parts. -/
  | join (l r : Bracketing α)
  deriving DecidableEq, Repr

namespace Bracketing

variable {α β τ : Type}

/-- The items in order, without the brackets. -/
def items : Bracketing α → List α
  | item a => [a]
  | join l r => l.items ++ r.items

/-- The items through `f`, combined by `op` along the brackets. -/
def fold (f : α → β) (op : β → β → β) : Bracketing α → β
  | item a => f a
  | join l r => op (l.fold f op) (r.fold f op)

/-- One value for each item, in nested pairs. -/
def Nested (β : Type) : Bracketing α → Type
  | item _ => β
  | join l r => l.Nested β × r.Nested β

/-- The values of nested pairs in order. -/
def flatten : (b : Bracketing α) → b.Nested β → List β
  | item _, v => [v]
  | join l r, v => l.flatten v.1 ++ r.flatten v.2

/-- The nested pairs of the parsers of the items. -/
def pairs (f : α → Parser τ β) : (b : Bracketing α) → Parser τ (b.Nested β)
  | item a => f a
  | join l r => .pair (l.pairs f) (r.pairs f)

end Bracketing

namespace Parser

variable {τ α β γ : Type}

/-- A sequence with one more parser at the end is a combination of the sequence and that parser. -/
theorem sequence_concat (ps : List (Parser τ α)) (p : Parser τ α) :
    sequence (ps ++ [p]) = map (fun c ↦ c.1 ++ [c.2]) (pair (sequence ps) p) := by
  rw [sequence, List.foldl_append]
  exact seq_map_eq_map_pair (fun as a ↦ as ++ [a]) (sequence ps) p

/-- A sequence of one parser maps its values to lists of one. -/
theorem sequence_singleton (p : Parser τ α) : sequence [p] = map (fun a ↦ [a]) p := by
  have hnil : sequence ([] : List (Parser τ α)) = Parser.pure [] := rfl
  rw [← List.nil_append [p], sequence_concat, hnil, pair_pure, map_map]
  rfl

/-- A sequence of two lists combines the two sequences. -/
theorem sequence_append (ps qs : List (Parser τ α)) :
    sequence (ps ++ qs) = map (fun c ↦ c.1 ++ c.2) (pair (sequence ps) (sequence qs)) := by
  -- From the end, where a row is built.
  induction qs using List.reverseRecOn with
  | nil =>
    have hnil : sequence ([] : List (Parser τ α)) = Parser.pure [] := rfl
    rw [List.append_nil, hnil, pair_pure_right, map_map]
    simp only [List.append_nil]
    exact (map_id _).symm
  | append_singleton qs q ih =>
    rw [← List.append_assoc, sequence_concat, ih, sequence_concat, pair_map_left, pair_map_right,
      pair_assoc, map_map, map_map, map_map]
    simp only [List.append_assoc]

/-- A sequence combines its first parser and the sequence of the others. -/
theorem sequence_cons (p : Parser τ α) (ps : List (Parser τ α)) :
    sequence (p :: ps) = map (fun c ↦ c.1 :: c.2) (pair p (sequence ps)) := by
  rw [← List.singleton_append, sequence_append, sequence_singleton, pair_map_left, map_map]
  rfl

/-- Parsers paired in any bracketing, with their values flattened, are the sequence of the
parsers. -/
theorem map_flatten_pairs (f : α → Parser τ β) (b : Bracketing α) :
    map b.flatten (b.pairs f) = sequence (b.items.map f) := by
  induction b with
  | item a => exact (sequence_singleton (f a)).symm
  | join l r ihl ihr =>
    rw [Bracketing.items, List.map_append, sequence_append, ← ihl, ← ihr, pair_map_left,
      pair_map_right, map_map, map_map]
    rfl

end Parser
end Backtrack
