import Backtrack.Text.Numeral

/-!
# Faults

Why a run can stop before its results are all there. A fault is a cause; the words for it
are chosen where it is shown to somebody.
-/

namespace Backtrack

/-- The cause that stops a run. -/
inductive Fault where
  /-- The room for nested definitions is used up. -/
  | overflow
  /-- A value was refused by the check of what it was meant for; `shown` is its text. -/
  | refused (shown : String)
  /-- A parser gave up with a message of its own. -/
  | failure (message : String)
  /-- A name has no definition. -/
  | undefined (name : String)
  /-- A numeral is too long to be read. -/
  | longNumeral (e : LongNumeral)
  /-- A text cannot be written because an integer in it has too many digits. -/
  | unwritable
  /-- A value of this kind was applied, but it is no function. -/
  | notFunction (kind : String)
  /-- Values of these kinds cannot be added. -/
  | unaddable (left right : String)
  /-- There is no item at the place that was asked for. -/
  | outOfRange
  /-- A value of this kind has no length. -/
  | unsized (kind : String)
  /-- A value of this kind has no attribute of this name. -/
  | noAttribute (kind name : String)
  /-- An attribute of an expression of this kind was assigned to. -/
  | immutable (kind : String)
  /-- A member of this class was used that only its subclasses have. -/
  | notImplemented (className : String)
  /-- An operation met a value of a kind it is not meant for. -/
  | mistyped
  deriving DecidableEq, Repr, Inhabited

/-- A text, or the fault that it cannot be written. -/
def Fault.orUnwritable (text? : Option String) : Except Fault String :=
  match text? with
  | none => .error .unwritable
  | some text => .ok text

/-- The words for a fault, if there are any. -/
def Fault.message : Fault → String
  | .overflow => ""
  | .refused shown => shown
  | .failure text => text
  | .undefined name => name
  | .longNumeral e => e.message
  | .unwritable => Text.Numeral.unwritable
  | .notFunction kind => "'" ++ kind ++ "' object is not callable"
  | .unaddable left right =>
    "unsupported operand type(s) for +: '" ++ left ++ "' and '" ++ right ++ "'"
  | .outOfRange => "tuple index out of range"
  | .unsized kind => "object of type '" ++ kind ++ "' has no len()"
  | .noAttribute kind name => "'" ++ kind ++ "' object has no attribute '" ++ name ++ "'"
  | .immutable kind => kind ++ " is immutable"
  | .notImplemented className => "<class '" ++ className ++ "'>"
  | .mistyped => ""

end Backtrack
