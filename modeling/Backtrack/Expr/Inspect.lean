import Backtrack.Expr.Basic
import Backtrack.Text.Quoted

/-!
# Showing the structure of an expression

The constructors of an expression with their arguments in parentheses, names in quotation
marks. The text of a sum is written in one pass down its left-hand sides.
-/

namespace Backtrack.Expr

/-- `Add(` so many times, and then a text. -/
def inspectOpen : Nat → List Char → List Char
  | 0, after => after
  | n + 1, after => 'A' :: 'd' :: 'd' :: '(' :: inspectOpen n after

/-- The structure of an expression behind `opened` sums that are still to be closed, and in
front of a text. -/
def inspectOnto : Expr → (opened : Nat) → List Char → List Char
  | add a b, n, after =>
    inspectOnto a (n + 1) (',' :: ' ' :: inspectOnto b 0 (')' :: after))
  | var x, n, after =>
    inspectOpen n (['V', 'a', 'r', '('] ++ Text.Quoted.encode x.toList ++ ')' :: after)
  | const k, n, after =>
    inspectOpen n (['C', 'o', 'n', 's', 't', '('] ++ Text.Numeral.ofInt k ++ ')' :: after)
  | letIn x e b, n, after =>
    inspectOpen n (['L', 'e', 't', '('] ++ Text.Quoted.encode x.toList ++ ',' :: ' ' ::
      inspectOnto e 0 (',' :: ' ' :: inspectOnto b 0 (')' :: after)))

/-- The structure of an expression as text. -/
def inspect (e : Expr) : String := String.ofList (inspectOnto e 0 [])

/-- The structure of an expression as text, if all its constants can be written. -/
def inspect? (e : Expr) : Option String := if e.isWritable then some e.inspect else none

/-- One more sum can be opened first or last. -/
theorem inspectOpen_succ (n : Nat) (after : List Char) :
    inspectOpen (n + 1) after = inspectOpen n ('A' :: 'd' :: 'd' :: '(' :: after) := by
  induction n with
  | zero => rfl
  | succ n ih => rw [inspectOpen, ih, inspectOpen]

/-- The text in front of an expression and the text behind it stay as they are. -/
theorem inspectOnto_eq (e : Expr) (n : Nat) (after : List Char) :
    inspectOnto e n after = inspectOpen n (inspectOnto e 0 [] ++ after) := by
  induction e generalizing n after with
  | var x => simp [inspectOnto, inspectOpen]
  | const k => simp [inspectOnto, inspectOpen]
  | add a b iha ihb =>
    rw [inspectOnto, iha, inspectOpen_succ, ihb, inspectOnto, iha 1, ihb 0 [')']]
    simp [inspectOpen]
  | letIn x e b ihe ihb =>
    rw [inspectOnto, ihe, ihb, inspectOnto, ihe 0 (_ :: _), ihb 0 [')']]
    simp [inspectOpen]

end Backtrack.Expr
