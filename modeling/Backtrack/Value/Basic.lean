import Backtrack.Expr.Inspect
import Backtrack.Expr.Source
import Backtrack.Token.Basic

/-!
# Values

What the parsers of a grammar that is put together at run time read and give: numbers, texts,
tuples, tokens, expressions and functions. Functions are data, so that values can be compared
and looked at.
-/

namespace Backtrack

/-- A function of two arguments. -/
inductive Binary where
  /-- The difference of two integers. -/
  | minus
  /-- The sum of two integers. -/
  | plus
  /-- The product of two integers. -/
  | times
  /-- Both arguments. -/
  | both
  /-- The first argument. -/
  | left
  /-- The second argument. -/
  | right
  /-- The expression that adds two expressions. -/
  | sum
  deriving DecidableEq, Repr

mutual

/-- A value of a parser, or a token for one. -/
inductive Value where
  /-- The absence of a value. -/
  | nothing
  /-- An integer. -/
  | int (i : Int)
  /-- A text. -/
  | str (s : String)
  /-- Values in a row. -/
  | tuple (items : List Value)
  /-- A token of the expression language. -/
  | token (t : Token)
  /-- An expression. -/
  | tree (e : Expr)
  /-- A function of one argument. -/
  | unary (f : Unary)
  /-- A function of two arguments. -/
  | binary (f : Binary)

/-- A function of one argument, `x`. -/
inductive Unary where
  /-- `x` itself. -/
  | identity
  /-- `mark` and `x`. -/
  | tag (mark : Value)
  /-- `x` alone in a tuple. -/
  | wrap
  /-- `x` twice in a tuple. -/
  | twice
  /-- The same value whatever `x` is. -/
  | always (v : Value)
  /-- `x` plus `n`, if `x` is an integer. -/
  | plus (n : Int)
  /-- `x` times `n`, if `x` is an integer. -/
  | times (n : Int)
  /-- Whether `x` is there. -/
  | presence
  /-- The text that shows what `x` is. -/
  | inspect
  /-- The text of `x`. -/
  | text
  /-- `outer` of what `inner` makes of `x`. -/
  | compose (outer inner : Unary)
  /-- The expression that is the name `x`. -/
  | name
  /-- The expression that is the integer `x`. -/
  | const
  /-- Three values grouped to the left, in a flat tuple. -/
  | flattenLeft
  /-- Three values grouped to the right, in a flat tuple. -/
  | flattenRight
  /-- The function that puts `x` in front of its argument, in a pair. -/
  | pairing
  /-- The function that puts `mark` and `x` in front of its argument. -/
  | tagging (mark : Value)
  /-- The function that puts `x` in front of the items of its argument. -/
  | consing
  /-- `first` and `x`. -/
  | pairOf (first : Value)
  /-- `mark`, `first` and `x`. -/
  | tagOf (mark first : Value)
  /-- `first` and the items of `x`. -/
  | consOf (first : Value)

end

namespace Value

mutual

/-- Whether two values are the same. -/
def beq : Value → Value → Bool
  | nothing, nothing => true
  | int i, int j => i == j
  | str s, str t => s == t
  | tuple vs, tuple ws => beqItems vs ws
  | token s, token t => s == t
  | tree d, tree e => d == e
  | unary f, unary g => beqUnary f g
  | binary f, binary g => f == g
  | _, _ => false

/-- Whether two rows of values are the same. -/
def beqItems : List Value → List Value → Bool
  | [], [] => true
  | v :: vs, w :: ws => beq v w && beqItems vs ws
  | _, _ => false

/-- Whether two functions are given in the same way. -/
def beqUnary : Unary → Unary → Bool
  | .identity, .identity => true
  | .tag v, .tag w => beq v w
  | .wrap, .wrap => true
  | .twice, .twice => true
  | .always v, .always w => beq v w
  | .plus m, .plus n => m == n
  | .times m, .times n => m == n
  | .presence, .presence => true
  | .inspect, .inspect => true
  | .text, .text => true
  | .compose f f', .compose g g' => beqUnary f g && beqUnary f' g'
  | .name, .name => true
  | .const, .const => true
  | .flattenLeft, .flattenLeft => true
  | .flattenRight, .flattenRight => true
  | .pairing, .pairing => true
  | .tagging v, .tagging w => beq v w
  | .consing, .consing => true
  | .pairOf v, .pairOf w => beq v w
  | .tagOf v v', .tagOf w w' => beq v w && beq v' w'
  | .consOf v, .consOf w => beq v w
  | _, _ => false

end

/-- Values are compared by what they hold. -/
instance : BEq Value := ⟨beq⟩

mutual

/-- A value that compares equal is the same value. -/
theorem eq_of_beqValue : ∀ {v w : Value}, beq v w = true → v = w
  | .nothing, w, h => by cases w <;> simp_all [beq]
  | .int i, w, h => by cases w <;> simp_all [beq]
  | .str s, w, h => by cases w <;> simp_all [beq]
  | .token t, w, h => by cases w <;> simp_all [beq]
  | .tree e, w, h => by cases w <;> simp_all [beq]
  | .binary f, w, h => by cases w <;> simp_all [beq]
  | .tuple vs, w, h => by
    cases w with
    | tuple ws => exact congrArg tuple (eq_of_beqItems (by simpa only [beq] using h))
    | _ => simp [beq] at h
  | .unary f, w, h => by
    cases w with
    | unary g => exact congrArg unary (eq_of_beqUnary (by simpa only [beq] using h))
    | _ => simp [beq] at h

/-- Rows that compare equal are the same row. -/
theorem eq_of_beqItems : ∀ {vs ws : List Value}, beqItems vs ws = true → vs = ws
  | [], ws, h => by cases ws <;> simp_all [beqItems]
  | v :: vs, ws, h => by
    cases ws with
    | nil => simp [beqItems] at h
    | cons w ws =>
      simp only [beqItems, Bool.and_eq_true] at h
      rw [eq_of_beqValue h.1, eq_of_beqItems h.2]

/-- Functions that compare equal are given in the same way. -/
theorem eq_of_beqUnary : ∀ {f g : Unary}, beqUnary f g = true → f = g
  | .identity, g, h | .wrap, g, h | .twice, g, h | .plus _, g, h | .times _, g, h
  | .presence, g, h | .inspect, g, h | .text, g, h | .name, g, h | .const, g, h
  | .flattenLeft, g, h | .flattenRight, g, h | .pairing, g, h | .consing, g, h => by
    cases g <;> simp_all [beqUnary]
  | .tag v, g, h | .always v, g, h | .tagging v, g, h | .pairOf v, g, h | .consOf v, g, h => by
    cases g <;> simp only [beqUnary, Bool.false_eq_true] at h
    rw [eq_of_beqValue h]
  | .compose f f', g, h => by
    cases g <;> simp only [beqUnary, Bool.false_eq_true, Bool.and_eq_true] at h
    rw [eq_of_beqUnary h.1, eq_of_beqUnary h.2]
  | .tagOf v v', g, h => by
    cases g <;> simp only [beqUnary, Bool.false_eq_true, Bool.and_eq_true] at h
    rw [eq_of_beqValue h.1, eq_of_beqValue h.2]

end

mutual

/-- A value compares equal to itself. -/
theorem beq_self : ∀ v : Value, beq v v = true
  | .nothing | .int _ | .str _ | .token _ | .tree _ | .binary _ => by simp [beq]
  | .tuple vs => by rw [beq, beqItems_self vs]
  | .unary f => by rw [beq, beqUnary_self f]

/-- A row compares equal to itself. -/
theorem beqItems_self : ∀ vs : List Value, beqItems vs vs = true
  | [] => rfl
  | v :: vs => by rw [beqItems, beq_self v, beqItems_self vs, Bool.and_self]

/-- A function compares equal to itself. -/
theorem beqUnary_self : ∀ f : Unary, beqUnary f f = true
  | .identity | .wrap | .twice | .presence | .inspect | .text | .name | .const
  | .flattenLeft | .flattenRight | .pairing | .consing => rfl
  | .plus _ | .times _ => by simp [beqUnary]
  | .tag v | .always v | .tagging v | .pairOf v | .consOf v => by rw [beqUnary, beq_self v]
  | .compose f g => by rw [beqUnary, beqUnary_self f, beqUnary_self g, Bool.and_self]
  | .tagOf v w => by rw [beqUnary, beq_self v, beq_self w, Bool.and_self]

end

/-- Comparing values is deciding whether they are the same. -/
instance : LawfulBEq Value where
  eq_of_beq := eq_of_beqValue
  rfl := beq_self _

/-- Whether two values are the same can be decided. -/
instance : DecidableEq Value := fun v w ↦
  decidable_of_iff ((v == w) = true) beq_iff_eq

end Value
end Backtrack
