import Backtrack.Value.Construct

/-!
# Applying functions to values

What the functions of one and of two arguments give, and the functions that take the items of
a tuple as their arguments. A function that meets a value of a kind it is not meant for stops
with a fault.
-/

namespace Backtrack

namespace Unary

/-- The value of a function. -/
def apply : Unary → Value → Except Fault Value
  | identity, v => .ok v
  | tag mark, v => .ok (.tuple [mark, v])
  | wrap, v => .ok (.tuple [v])
  | twice, v => .ok (.tuple [v, v])
  | always w, _ => .ok w
  | plus n, .int i => .ok (.int (i + n))
  | plus _, v => .ok v
  | times n, .int i => .ok (.int (i * n))
  | times _, v => .ok v
  | presence, .nothing => .ok (.str "none")
  | presence, _ => .ok (.str "some")
  | inspect, v => (Fault.orUnwritable v.inspect?).map .str
  | text, v => (Fault.orUnwritable v.text?).map .str
  | compose outer inner, v =>
    match inner.apply v with
    | .ok w => outer.apply w
    | .error e => .error e
  | name, v => v.toName
  | const, v => v.toConst
  | flattenLeft, .tuple [.tuple [a, b], c] => .ok (.tuple [a, b, c])
  | flattenLeft, _ => .error .mistyped
  | flattenRight, .tuple [a, .tuple [b, c]] => .ok (.tuple [a, b, c])
  | flattenRight, _ => .error .mistyped
  | pairing, v => .ok (.unary (.pairOf v))
  | tagging mark, v => .ok (.unary (.tagOf mark v))
  | consing, v => .ok (.unary (.consOf v))
  | pairOf first, v => .ok (.tuple [first, v])
  | tagOf mark first, v => .ok (.tuple [mark, first, v])
  | consOf first, .tuple vs => .ok (.tuple (first :: vs))
  | consOf _, _ => .error .mistyped

end Unary

namespace Binary

/-- The value of a function. -/
def apply : Binary → Value → Value → Except Fault Value
  | minus, .int i, .int j => .ok (.int (i - j))
  | plus, .int i, .int j => .ok (.int (i + j))
  | times, .int i, .int j => .ok (.int (i * j))
  | both, v, w => .ok (.tuple [v, w])
  | left, v, _ => .ok v
  | right, _, w => .ok w
  | sum, v, w => v.toSum w
  | _, _, _ => .error .mistyped

end Binary

namespace Value

/-- A value applied to an argument. -/
def call : Value → Value → Except Fault Value
  | unary f, v => f.apply v
  | binary _, _ => .error .mistyped
  | f, _ => .error (.notFunction f.kind)

/-- A value applied to two arguments. -/
def call₂ : Value → Value → Value → Except Fault Value
  | binary f, v, w => f.apply v w
  | unary _, _, _ => .error .mistyped
  | f, _, _ => .error (.notFunction f.kind)

/-- The items of a tuple, or the characters of a text. -/
def items : Value → Except Fault (List Value)
  | tuple vs => .ok vs
  | str s => .ok (s.toList.map fun c ↦ str (String.singleton c))
  | _ => .error .mistyped

/-- The number of items of a tuple, or of characters of a text; other values have no length. -/
def size : Value → Except Fault Nat
  | tuple vs => .ok vs.length
  | str s => .ok s.length
  | v => .error (.unsized v.kind)

/-- `f` of the items of a tuple. -/
def spread (f : List Value → Except Fault Value) : Value → Except Fault Value
  | tuple vs => f vs
  | _ => .error .mistyped

/-- The sum of integers. -/
def total (vs : List Value) : Except Fault Value := (vs.foldlM add 0).map int
where
  /-- An integer more. -/
  add (sofar : Int) : Value → Except Fault Int
    | int i => .ok (sofar + i)
    | v => .error (.unaddable (int sofar).kind v.kind)

/-- The item at a place, counted from the end if it is negative. -/
def pick (i : Int) (vs : List Value) : Except Fault Value :=
  let place := if i < 0 then i + vs.length else i
  if place < 0 then .error .outOfRange
  else match vs[place.toNat]? with
    | some v => .ok v
    | none => .error .outOfRange

/-- The sum of the first argument and the items of the second. -/
def sumArguments : List Value → Except Fault Value
  | [first, rest] => rest.items.bind (toSums first)
  | _ => .error .mistyped

/-- The local definition of the first argument, with the two others as its parts. -/
def letArguments : List Value → Except Fault Value
  | [x, e, b] => x.toLet e b
  | _ => .error .mistyped

/-- The items of two tuples in one. -/
def joinArguments : List Value → Except Fault Value
  | [tuple vs, tuple ws] => .ok (tuple (vs ++ ws))
  | _ => .error .mistyped

/-- The first argument with the steps of the second: each step is a function and the right
operand that it is applied to, the left one being what is there so far. -/
def foldSteps : List Value → Except Fault Value
  | [first, tuple steps] => steps.foldlM step first
  | _ => .error .mistyped
where
  /-- One step. -/
  step (sofar : Value) : Value → Except Fault Value
    | tuple [f, operand] => f.call₂ sofar operand
    | _ => .error .mistyped

end Value
end Backtrack
