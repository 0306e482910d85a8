import Backtrack.Proofs.Expr.Recognition
import Backtrack.Proofs.Grammar.LeftChain
import Mathlib.Data.List.Flatten

/-!
# Chains with one operator

Where all operators of a chain stand for the same function, it need not be carried along: reading
the operands alone and folding them with the function comes to the same. Left recursion can
therefore be taken out of a grammar in either way, and an expression that does not end with a local
definition is a chain of atoms. The main statement is `chainl_same_operator`.
-/

namespace Backtrack

/-! ### Parsers -/

namespace Parser

variable {τ α β γ φ : Type}

/-- Repeated pairs whose first values are all sent to `g` depend on the second values only. -/
theorem many_pair_const (g : φ) (term : Parser τ α) (op : Parser τ β) :
    many (pair (map (fun _ ↦ g) op) term) =
      map (List.map fun a ↦ (g, a)) (many (seqRight op term)) := by
  have hpair : pair (map (fun _ ↦ g) op) term = map (fun a ↦ (g, a)) (seqRight op term) := by
    rw [pair_map_left, seqRight_eq_map_pair, map_map]
  rw [hpair, many_map]

/-- A chain whose operators all stand for `g` folds its operands with `g`. -/
theorem chainlWith_const (apply : φ → α → α → Except Fault α) (g : φ) (term : Parser τ α)
    (op : Parser τ β) :
    chainlWith apply term (map (fun _ ↦ g) op) =
      tryMap (fun c ↦ c.2.foldlM (apply g) c.1) (pair term (many (seqRight op term))) := by
  have hfold (a : α) (bs : List α) :
      fold apply a (bs.map fun b ↦ (g, b)) = bs.foldlM (apply g) a := by
    rw [fold, List.foldlM_map]
  rw [chainlWith, many_pair_const, pair_map_right, tryMap_map]
  simp only [hfold]

/-- A chain whose operators all stand for a total function folds its operands with that function. -/
theorem chainl_const (f : α → α → α) (term : Parser τ α) (op : Parser τ β) :
    chainl term (map (fun _ ↦ f) op) =
      map₂ (List.foldl f) term (many (seqRight op term)) := by
  rw [chainl_eq, chainlWith_const]
  have hfold (c : α × List α) :
      c.2.foldlM (fun a b ↦ (.ok (f a b) : Except Fault α)) c.1 = .ok (c.2.foldl f c.1) :=
    List.foldlM_pure
  simp only [hfold]
  exact tryMap_ok (fun c : α × List α ↦ c.2.foldl f c.1) _

/-- Fewer results of the second part give fewer results of a pair, in the same order. -/
theorem sublist_pair {p : Parser τ α} {q q' : Parser τ β} {ts : List τ}
    (hends : (pair p q').EndsOn ts)
    (h : ∀ x ∈ (p.run ts).entries, (q.run x.2).entries.Sublist (q'.run x.2).entries) :
    ((pair p q).run ts).entries.Sublist ((pair p q').run ts).entries := by
  rw [EndsOn, run_pair] at hends
  rw [run_pair, run_pair, Trace.entries_flatMap_of_ending hends]
  refine (Trace.isPrefix_entries_flatMap _ _).sublist.trans (List.Sublist.flatMap_right _ ?_)
  intro x hx
  rw [Trace.entries_map, Trace.entries_map]
  exact (h x hx).map _

/-- Fewer results of the second part give fewer results of a combination, in the same order. -/
theorem sublist_map₂ (f : α → β → γ) {p : Parser τ α} {q q' : Parser τ β} {ts : List τ}
    (hends : (map₂ f p q').EndsOn ts)
    (h : ∀ x ∈ (p.run ts).entries, (q.run x.2).entries.Sublist (q'.run x.2).entries) :
    ((map₂ f p q).run ts).entries.Sublist ((map₂ f p q').run ts).entries := by
  rw [map₂, run_map, map₂, run_map, Trace.entries_map, Trace.entries_map]
  exact (sublist_pair (endsOn_map_iff.mp hends) h).map _

end Parser

/-! ### Grammars -/

/-- The first argument with the items of the second, folded to the left with `g`. -/
def Value.foldOperands (g : Value) : List Value → Except Fault Value
  | [first, tuple operands] => operands.foldlM g.call₂ first
  | _ => .error .mistyped

/-- A chain of grammars whose operators all stand for `g` folds its operands with `g`. -/
theorem Grammar.parser_chainl_const (meaning : String → Parser Value Value) (g : Value)
    (term op : Grammar) :
    (chainl term (map (fun _ ↦ .ok g) op)).parser meaning =
      (sequenceWith g.foldOperands [term, many (seqRight op term)]).parser meaning := by
  have hop : (map (fun _ ↦ .ok g) op).parser meaning = .map (fun _ ↦ g) (op.parser meaning) :=
    Parser.tryMap_ok _ _
  have hmany : (many (seqRight op term)).parser meaning =
      .map .tuple (.many (.seqRight (op.parser meaning) (term.parser meaning))) := by
    have hright : (seqRight op term).parser meaning =
        .seqRight (op.parser meaning) (term.parser meaning) := by
      rw [Parser.seqRight_eq_map_pair]
      exact Parser.tryMap_ok (fun c : Value × Value ↦ c.2) _
    rw [← hright]
    rfl
  have hfolded : (sequenceWith g.foldOperands [term, many (seqRight op term)]).parser meaning =
      .tryMap (Value.spread g.foldOperands)
        ((sequence [term, many (seqRight op term)]).parser meaning) := rfl
  rw [parser_chainl, hop, Parser.chainlWith_const, hfolded, parser_sequence_pair, parser_pair,
    hmany, Parser.pair_map_right, Parser.tryMap_map, Parser.tryMap_map]
  rfl

/-! ### Sums -/

namespace Expr

open Backtrack.Parser

/-- Operands behind the first one: any number of atoms, and then `last`. -/
def restWith (expr : Parser Token Expr) (last : Parser Token (List Expr)) :
    Parser Token (List Expr) :=
  map₂ (· ++ ·) (many (seqRight plus (atomOf expr))) last

/-- The continuation of an expression is one that ends with a local definition or nothing. -/
theorem restOf_eq_restWith (expr : Parser Token Expr) :
    restOf expr =
      restWith expr (orElse (map ([·]) (seqRight plus (letOf expr))) (Parser.pure [])) := rfl

/-- A continuation that ends with nothing is a row of atoms behind `+` signs. -/
theorem restWith_pure (expr : Parser Token Expr) :
    restWith expr (Parser.pure []) = many (seqRight plus (atomOf expr)) := by
  rw [restWith, map₂, pair_pure_right, map_map]
  simp only [List.append_nil]
  exact map_id _

/-- A chain of atoms reads a sum without a local definition at its end. -/
theorem chainl_atomOf (expr : Parser Token Expr) :
    chainl (atomOf expr) (map (fun _ ↦ add) plus) =
      map₂ sum (atomOf expr) (restWith expr (Parser.pure [])) := by
  rw [chainl_const, restWith_pure]
  rfl

/-- The results of a chain of atoms are a sublist of the results of the expression. -/
theorem sublist_chainl {room : Nat} {ts : List Token} (h : openings ts ≤ room) :
    ((chainl (atomOf (parser room)) (map (fun _ ↦ add) plus)).run ts).entries.Sublist
      ((parser (room + 1)).run ts).entries := by
  have hends : (parser (room + 1)).EndsOn ts := parser_endsOn (Nat.lt_succ_of_le h)
  obtain ⟨hlet, hsum⟩ := endsOn_orElse_iff.mp hends
  have hentries : ((parser (room + 1)).run ts).entries = ((letOf (parser room)).run ts).entries ++
      ((map₂ sum (atomOf (parser room)) (restOf (parser room))).run ts).entries :=
    Trace.entries_append_of_ending hlet _
  rw [chainl_atomOf, hentries]
  refine (sublist_map₂ sum hsum fun x hx ↦ ?_).trans (List.sublist_append_right _ _)
  have hrest := (endsOn_pair_iff.mp (endsOn_map_iff.mp hsum)).2 x hx
  rw [restOf_eq_restWith, restWith, map₂] at hrest
  rw [restOf_eq_restWith]
  refine sublist_map₂ (· ++ ·) hrest fun y hy ↦ ?_
  have hlast := (endsOn_pair_iff.mp (endsOn_map_iff.mp hrest)).2 y hy
  rw [run_orElse, Trace.entries_append_of_ending (endsOn_orElse_iff.mp hlast).1]
  exact List.sublist_append_right _ _

/-! ### One operator -/

/-- A chain whose operators all stand for one function is its operands folded with that function,
also where the function can fail, and in grammars whatever their names mean. So a chain of atoms is
the sum that an expression is read as, without a local definition in the end: its results are among
those of the expression, in the same order. -/
theorem chainl_same_operator :
    (∀ {τ α β φ : Type} (apply : φ → α → α → Except Fault α) (g : φ) (term : Parser τ α)
      (op : Parser τ β),
      chainlWith apply term (map (fun _ ↦ g) op) =
        tryMap (fun c ↦ c.2.foldlM (apply g) c.1) (pair term (many (seqRight op term)))) ∧
    (∀ {τ α β : Type} (f : α → α → α) (term : Parser τ α) (op : Parser τ β),
      chainl term (map (fun _ ↦ f) op) = map₂ (List.foldl f) term (many (seqRight op term))) ∧
    (∀ (meaning : String → Parser Value Value) (g : Value) (term op : Grammar),
      (Grammar.chainl term (.map (fun _ ↦ .ok g) op)).parser meaning =
        (Grammar.sequenceWith g.foldOperands [term, .many (.seqRight op term)]).parser meaning) ∧
    (∀ expr : Parser Token Expr,
      restOf expr =
        restWith expr (orElse (map ([·]) (seqRight plus (letOf expr))) (Parser.pure [])) ∧
      chainl (atomOf expr) (map (fun _ ↦ add) plus) =
        map₂ sum (atomOf expr) (restWith expr (Parser.pure []))) ∧
    ∀ (room : Nat) (ts : List Token), openings ts ≤ room →
      ((chainl (atomOf (parser room)) (map (fun _ ↦ add) plus)).run ts).entries.Sublist
        ((parser (room + 1)).run ts).entries := by
  refine ⟨?_, ?_, ?_, ?_, ?_⟩
  · intro τ α β φ apply g term op
    exact chainlWith_const apply g term op
  · intro τ α β f term op
    exact chainl_const f term op
  · intro meaning g term op
    exact Grammar.parser_chainl_const meaning g term op
  · intro expr
    exact ⟨restOf_eq_restWith expr, chainl_atomOf expr⟩
  · intro room ts h
    exact sublist_chainl h

/-- Two names and a local definition in the end: the expression has the two sums of names alone
among its results, the longer one first. -/
theorem chainl_same_operator_names :
    let definition : List Token := [.symbol '+', .identifier "let", .identifier "z", .symbol '=',
      .number 1, .identifier "in", .identifier "z"]
    let behind : List Token := .symbol '+' :: .identifier "y" :: definition
    openings (.identifier "x" :: behind) ≤ 1 ∧
      [(add (var "x") (var "y"), definition), (var "x", behind)].Sublist
        ((parser 2).run (.identifier "x" :: behind)).entries := by
  intro definition behind
  have hopenings : openings (.identifier "x" :: behind) ≤ 1 := by decide
  have hchain := chainl_same_operator.2.2.2.2 1 (.identifier "x" :: behind) hopenings
  have hatom := reads_after (.symbol '+') (reads_atomOf (parser_reads 1))
  have hsteps : (many (seqRight plus (atomOf (parser 1)))).run behind =
      .ofList [([var "y"], definition), ([], behind)] := by
    have hread : ∀ u a, Language.after (.symbol '+') atomLanguage u a → u ≠ [] := by
      rintro _ _ ⟨v, rfl, -⟩
      exact List.cons_ne_nil _ _
    have hfaults := ((faultsBehind_atomOf (parser_reads 1)).after (.symbol '+')).many hatom hread
    have hends : (many (seqRight plus (atomOf (parser 1)))).EndsOn behind :=
      hfaults.endsOn parser_endsOn (by decide)
    rw [← run_unrolled_of_endsOn hends (Nat.lt_succ_self behind.length)]
    rfl
  have hrun : ((chainl (atomOf (parser 1)) (map (fun _ ↦ add) plus)).run
      (.identifier "x" :: behind)).entries =
        [(add (var "x") (var "y"), definition), (var "x", behind)] := by
    rw [chainl_const, map₂, run_map, run_pair, Trace.entries_map,
      show (atomOf (parser 1)).run (.identifier "x" :: behind) = .ofList [(var "x", behind)]
        from rfl]
    simp only [Trace.ofList, Trace.flatMap_yield, hsteps]
    rfl
  rw [← hrun]
  exact ⟨hopenings, hchain⟩

end Expr

end Backtrack
