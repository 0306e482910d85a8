import Backtrack.Grammar.Basic
import Backtrack.Value.Call
import Backtrack.Value.Test

/-!
# Grammars from grammars

The combinations that follow from the basic ones, and the steps that choose a grammar by the
value before it. A grammar whose label shows a value cannot be put together if the value cannot be
written; in a step, which is taken in the course of a run, this stops the run.
-/

namespace Backtrack.Grammar

/-- The first of two labels that is there and not empty. -/
def labelOr (given otherwise : Option String) : Option String :=
  match given with
  | some l => if l.isEmpty then otherwise else some l
  | none => otherwise

/-- One token on which `image?` is defined; `name?` is what that function is called. -/
def partialToken (image? : Value → Option Value) (name? label : Option String) : Grammar :=
  token image? (labelOr label name?)

/-- One token that passes the test; `name` is what the test is called. The absence of a value
passes none. -/
def satisfy (holds : Value → Bool) (name : String) (label : Option String) : Grammar :=
  token (fun v ↦ if holds v then v.present? else none) (labelOr label (some name))

/-- One token equal to the one given. -/
def single (v : Value) (label : String) : Grammar := satisfy (· == v) "" (some label)

/-- One token equal to the one given, under what the token is as a label; this must be writable. -/
def exactly (v : Value) : Except Fault Grammar := do
  return single v (← Fault.orUnwritable v.inspect?)

/-- Nothing read and one result, under a label that shows the value; this must be writable. -/
def unit (v : Value) : Except Fault Grammar := do
  return pure v ("pure(" ++ (← Fault.orUnwritable v.inspect?) ++ ")")

/-- A symbol; the value has to be a single character. -/
def symbol (v : Value) : Except Fault Grammar := do exactly (.token (← v.toSymbol))

/-- A reserved word; the value has to be one. -/
def keyword : Value → Except Fault Grammar
  | .str w =>
    if w == "let" || w == "in" then exactly (.token (.identifier w))
    else .error (.refused w)
  | v => .error (.refused v.text)

/-- A function, and then the argument that it is applied to. -/
def seq (p q : Grammar) : Grammar := seqWith Value.call p q

/-- `p` and then `q`, with both values. -/
def pair (p q : Grammar) : Grammar := seqWith (fun v w ↦ .ok (.tuple [v, w])) p q

/-- `p` and then `q`, with the value of `p`. -/
def seqLeft (p q : Grammar) : Grammar := seqWith (fun v _ ↦ .ok v) p q

/-- `p` and then `q`, with the value of `q`. -/
def seqRight (p q : Grammar) : Grammar := seqWith (fun _ w ↦ .ok w) p q

/-- Any number of alternatives in order. -/
def choice (ps : List Grammar) : Grammar := ps.foldl orElse fail

/-- Each grammar after the one before it, with the tuple of their values. -/
def sequence (ps : List Grammar) : Grammar :=
  ps.foldl (seqWith fun vs v ↦ vs.spread fun vs ↦ .ok (.tuple (vs ++ [v])))
    (pure (.tuple []) "pure(())")

/-- Each grammar after the one before it, with `f` of their values. -/
def sequenceWith (f : List Value → Except Fault Value) (ps : List Grammar) : Grammar :=
  map (Value.spread f) (sequence ps)

/-- One or more in a row. -/
def some (p : Grammar) : Grammar :=
  seqWith (fun v vs ↦ vs.spread fun vs ↦ .ok (.tuple (v :: vs))) p (many p)

/-- `p`, or else nothing read and the value `default`. -/
def option (p : Grammar) (default : Value) : Except Fault Grammar := do
  return orElse p (← unit default)

/-- One `term` and any number of `op` and `term` in turn, grouped to the left. -/
def chainl (term op : Grammar) : Grammar :=
  sequenceWith Value.foldSteps [term, many (pair op term)]

/-- The tokens from a place on, counted from the end if it is negative. -/
def dropTo (place : Int) (ts : List Value) : List Value :=
  ts.drop (if place < 0 then ts.length - place.natAbs else place.toNat)

/-- The results that a table lists: each a value, and the place where its rest begins. -/
def listed (table : List (Value × Int)) (label : Option String) : Grammar :=
  embed ⟨fun ts ↦ .ofList (table.map fun (v, n) ↦ (v, dropTo n ts))⟩ label "raw"

/-- A grammar that is put together in the course of a run. The fault that keeps it from being put
together stops the run. -/
def inRun : Except Fault Grammar → Grammar
  | .ok p => p
  | .error fault => failing fault ""

/-- A step to the value itself. -/
def unitStep (v : Value) : Grammar := inRun (unit v)

/-- A step to the value and a mark in front of it. -/
def unitTag (mark v : Value) : Grammar := unitStep (.tuple [mark, v])

/-- A step to one token equal to the value. -/
def exactlyStep (v : Value) : Grammar := inRun (exactly v)

/-- A step to `p`, with the earlier value in front. -/
def pairWith (p : Grammar) (v : Value) : Grammar := map (fun w ↦ .ok (.tuple [v, w])) p

/-- A step that goes on with any value but not with the absence of one. -/
def failNothing : Value → Grammar
  | .nothing => fail
  | v => unitStep v

/-- A step to the earlier value or else to `p`. -/
def unitOr (p : Grammar) (v : Value) : Grammar := inRun do return orElse (← unit v) p

/-- A step to as many copies of `p` as the value says. -/
def copies (p : Grammar) : Value → Grammar
  | .int n => sequence (List.replicate n.toNat p)
  | _ => sequence []

/-- A step to the grammar of the first equal value, or else to `otherwise`. -/
def cases (table : List (Value × Grammar)) (otherwise : Grammar) (v : Value) : Grammar :=
  (table.lookup v).getD otherwise

/-- Two steps in a row. -/
def bindStep (first second : Value → Grammar) (v : Value) : Grammar := bind (first v) second

end Backtrack.Grammar
