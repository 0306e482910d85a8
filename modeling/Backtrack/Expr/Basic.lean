import Backtrack.Text.Numeral

/-!
# Expressions

Names, integer constants, sums of two and local definitions. A long sum leans to the left, so
its operands are reached by a loop down the left-hand sides: `unsum` takes a sum apart and
`sum` builds it, and each undoes the other. No text of an expression can be written if one of its
constants has too many digits, which is what `isWritable` tells.
-/

namespace Backtrack

/-- An expression. -/
inductive Expr where
  /-- A name. -/
  | var (name : String)
  /-- An integer. -/
  | const (value : Int)
  /-- The sum of two expressions. -/
  | add (lhs rhs : Expr)
  /-- A local definition: `name` stands for `bound` inside `body`, and nowhere else. -/
  | letIn (name : String) (bound body : Expr)
  deriving DecidableEq, Repr

namespace Expr

/-- Whether the expression is a sum at its root. -/
def isSum : Expr → Bool
  | add _ _ => true
  | _ => false

/-- Whether the numeral of each constant in the expression can be written. -/
def isWritable : Expr → Bool
  | var _ => true
  | const k => Text.Numeral.isWritable k
  | add a b => a.isWritable && b.isWritable
  | letIn _ e b => e.isWritable && b.isWritable

/-- The sum of all the operands, grouped to the left. -/
def sum (first : Expr) (rest : List Expr) : Expr := rest.foldl add first

/-- The leftmost operand, and the other operands in order in front of `later` ones. -/
def unsumOnto : Expr → List Expr → Expr × List Expr
  | add a b, later => unsumOnto a (b :: later)
  | e, later => (e, later)

/-- The operands of a sum down its left-hand sides: the leftmost one, and the others in order. -/
def unsum (e : Expr) : Expr × List Expr := unsumOnto e []

/-- One operand more comes last. -/
theorem sum_concat (a : Expr) (bs : List Expr) (b : Expr) :
    sum a (bs ++ [b]) = add (sum a bs) b := by
  rw [sum, List.foldl_append, List.foldl_cons, List.foldl_nil, sum]

/-- Later operands stay behind those that are found. -/
theorem unsumOnto_eq (e : Expr) (later : List Expr) :
    unsumOnto e later = ((unsum e).1, (unsum e).2 ++ later) := by
  unfold unsum
  induction e generalizing later with
  | var x => simp [unsumOnto]
  | const k => simp [unsumOnto]
  | letIn x e b => simp [unsumOnto]
  | add a b iha _ =>
    rw [unsumOnto, unsumOnto, iha, iha [b]]
    simp

/-- Taking a sum apart puts the right operand last. -/
theorem unsum_add (a b : Expr) : unsum (add a b) = ((unsum a).1, (unsum a).2 ++ [b]) := by
  rw [unsum, unsumOnto, unsumOnto_eq]

end Expr
end Backtrack
