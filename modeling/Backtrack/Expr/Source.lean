import Backtrack.Expr.Basic

/-!
# Writing an expression as source text

Source text that reads back as the same expression. Sums and local definitions stand in
parentheses, so the structure is plain to see. The text of a sum is written in one pass down
its left-hand sides.
-/

namespace Backtrack.Expr

/-- An opening parenthesis so many times, and then a text. -/
def sourceOpen : Nat → List Char → List Char
  | 0, after => after
  | n + 1, after => '(' :: sourceOpen n after

/-- The source of an expression behind `opened` sums that are still to be closed, and in front
of a text. -/
def sourceOnto : Expr → (opened : Nat) → List Char → List Char
  | add a b, n, after =>
    sourceOnto a (n + 1) (' ' :: '+' :: ' ' :: sourceOnto b 0 (')' :: after))
  | var x, n, after => sourceOpen n (x.toList ++ after)
  | const k, n, after => sourceOpen n (Text.Numeral.ofInt k ++ after)
  | letIn x e b, n, after =>
    sourceOpen n (['(', 'l', 'e', 't', ' '] ++ x.toList ++ ' ' :: '=' :: ' ' ::
      sourceOnto e 0 (' ' :: 'i' :: 'n' :: ' ' :: sourceOnto b 0 (')' :: after)))

/-- The source text of an expression. -/
def source (e : Expr) : String := String.ofList (sourceOnto e 0 [])

/-- The source text of an expression, if all its constants can be written. -/
def source? (e : Expr) : Option String := if e.isWritable then some e.source else none

/-- One more parenthesis can be written first or last. -/
theorem sourceOpen_succ (n : Nat) (after : List Char) :
    sourceOpen (n + 1) after = sourceOpen n ('(' :: after) := by
  induction n with
  | zero => rfl
  | succ n ih => rw [sourceOpen, ih, sourceOpen]

/-- The text in front of an expression and the text behind it stay as they are. -/
theorem sourceOnto_eq (e : Expr) (n : Nat) (after : List Char) :
    sourceOnto e n after = sourceOpen n (sourceOnto e 0 [] ++ after) := by
  induction e generalizing n after with
  | var x => simp [sourceOnto, sourceOpen]
  | const k => simp [sourceOnto, sourceOpen]
  | add a b iha ihb =>
    rw [sourceOnto, iha, sourceOpen_succ, ihb, sourceOnto, iha 1, ihb 0 [')']]
    simp [sourceOpen]
  | letIn x e b ihe ihb =>
    rw [sourceOnto, ihe, ihb, sourceOnto, ihe 0 (_ :: _), ihb 0 [')']]
    simp [sourceOpen]

end Backtrack.Expr
