import Backtrack.Parser.Repeat
import Backtrack.Value.Text

/-!
# Grammars as data

A grammar describes a parser of values and may refer to definitions by name, so that
definitions can be recursive. Its meaning is a parser once every name has one; this is
`Grammar.parser`. A system of definitions gives names their meaning with a limit on how many of
them may be open inside one another: at the limit a reference overflows, and every definition
means what its grammar means with one less. A parser that a higher limit lets go on agrees with
it until then.
-/

namespace Backtrack

/-- A description of a parser whose tokens and values are `Value`s. -/
inductive Grammar where
  /-- It never matches. -/
  | fail
  /-- It reads nothing and has one result. -/
  | pure (v : Value) (label : String)
  /-- One token on which `image?` is defined. -/
  | token (image? : Value → Option Value) (label : Option String)
  /-- Every result of `p`, then every result of `q`. -/
  | orElse (p q : Grammar)
  /-- `p` and then `q`, with what `join` makes of their values. -/
  | seqWith (join : Value → Value → Except Fault Value) (p q : Grammar)
  /-- The results of `p` with their values through `f`. -/
  | map (f : Value → Except Fault Value) (p : Grammar)
  /-- `p` and then the grammar that its value chooses. -/
  | bind (p : Grammar) (next : Value → Grammar)
  /-- `p` any number of times in a row. -/
  | many (p : Grammar)
  /-- What the definition of a name describes. -/
  | ref (name : String) (label : Option String)
  /-- Every run stops with a fault as soon as it is opened. -/
  | failing (fault : Fault) (kind : String)
  /-- A parser that is no description. -/
  | embed (p : Parser Value Value) (label : Option String) (kind : String)

namespace Grammar

/-- The label of a parser, by which others refer to it. -/
def label : Grammar → Option String
  | fail => some "empty"
  | pure _ l => some l
  | token _ l => l
  | orElse _ _ => none
  | seqWith _ _ _ => none
  | map _ p => p.label
  | bind p _ => p.label
  | many p => some ("many(" ++ p.label.getD "None" ++ ")")
  | ref _ l => l
  | failing _ _ => none
  | embed _ l _ => l

/-- How a parser is made, which stands for a label where there is none. -/
def kind : Grammar → String
  | fail => "_fail"
  | pure _ _ => "_pure"
  | token _ _ => "_msatisfy"
  | orElse _ _ => "_alt"
  | seqWith _ _ _ => "_apply"
  | map _ _ => "_fmap"
  | bind _ _ => "_bind"
  | many _ => "_many"
  | ref _ _ => "_lazy"
  | failing _ k => k
  | embed _ _ k => k

/-- A parser by its label, or by how it is made if the label is missing or empty. -/
def inspect (p : Grammar) : String :=
  let title := match p.label with
    | some l => if l.isEmpty then p.kind else l
    | none => p.kind
  "<Parser " ++ title ++ ">"

/-- The parser that a grammar describes, where `meaning` says what the names stand for. -/
def parser (meaning : String → Parser Value Value) : Grammar → Parser Value Value
  | fail => .fail
  | pure v _ => .pure v
  | token image? _ => .token image?
  | orElse p q => .orElse (p.parser meaning) (q.parser meaning)
  | seqWith join p q =>
    .tryMap (fun (v, w) ↦ join v w) (.pair (p.parser meaning) (q.parser meaning))
  | map f p => .tryMap f (p.parser meaning)
  | bind p next => .bind (p.parser meaning) fun v ↦ (next v).parser meaning
  | many p => .map .tuple (.many (p.parser meaning))
  | ref name _ => meaning name
  | failing fault _ => .failing fault
  | embed p _ _ => p

end Grammar

/-- What names stand for; a name may also stand for the fault met when its grammar was put
together. -/
abbrev Definitions := String → Except Fault Grammar

namespace Definitions

/-- What the names mean where at most `room` definitions may be open inside one another. -/
def meaning (defs : Definitions) : (room : Nat) → String → Parser Value Value
  | 0, _ => .failing .overflow
  | room + 1, name => .defer fun _ ↦
    match defs name with
    | .error fault => .failing fault
    | .ok p => p.parser (defs.meaning room)

/-- The definitions in a list. -/
def ofList (entries : List (String × Except Fault Grammar)) : Definitions := fun name ↦
  (entries.lookup name).getD (.error (.undefined name))

/-- The fault that shows already when a run is opened: a parser that is described by its fault
has one, and so has a name that stands for such a parser. -/
def openingFault? (defs : Definitions) : (room : Nat) → Grammar → Option Fault
  | _, .failing fault _ => some fault
  | 0, .ref _ _ => some .overflow
  | room + 1, .ref name _ =>
    match defs name with
    | .error fault => some fault
    | .ok p => defs.openingFault? room p
  | _, _ => none

/-- A run of a grammar, or the fault that keeps it from being opened. -/
def openRun (defs : Definitions) (room : Nat) (p : Grammar) (ts : List Value) :
    Except Fault (Trace (Value × List Value)) :=
  match defs.openingFault? room p with
  | some fault => .error fault
  | none => .ok ((p.parser (defs.meaning room)).run ts)

/-- How many definitions may be open inside one another where nothing else is said. -/
def room : Nat := 300

end Definitions
end Backtrack
