import Backtrack.Expr.Parser
import Backtrack.Report.Console

/-!
# Reading a text

From the results of a parser on a text to one value or an issue. One full parse is the value;
of several the first is taken, and the ambiguity is an issue; without one, the issue is where
the longest partial parse stopped, or that there is none.
-/

namespace Backtrack

/-- What the results on a text come to. -/
structure Verdict (α : Type) where
  /-- The value of the text. -/
  value? : Option α
  /-- What is wrong with the text. -/
  issue? : Option Issue

namespace Verdict

variable {α : Type}

/-- The most tokens that a result reads. -/
def longest (ts : List Token) (rs : List (α × List Token)) : Nat :=
  rs.foldl (fun n r ↦ max n (ts.length - r.2.length)) 0

/-- The verdict on a text with these tokens and results. -/
def ofResults (text : String) (ts : List Token) (rs : List (α × List Token)) : Verdict α :=
  match (rs.filter (·.2.isEmpty)).map (·.1) with
  | [a] => ⟨some a, none⟩
  | a :: others => ⟨some a, some (.ambiguous text (others.length + 1))⟩
  | [] =>
    if rs.isEmpty then ⟨none, some (.noBeginning text)⟩
    else ⟨none, some (.stopsShort ts (longest ts rs))⟩

end Verdict

namespace Console

variable {α : Type}

/-- The tokens of a text; a numeral that is too long interrupts the work. -/
def scan (text : String) : Working (List Token) :=
  match Token.scan text with
  | .ok ts => return ts
  | .error e => throw (.longNumeral e)

/-- Read a text with a parser. Parts that are nested too deeply are an issue; any other fault of
the parser interrupts the work. -/
def read (entry : Parser Token α) (text : String) : Working (Option α) := do
  let ts ← scan text
  note ("Scanned " ++ toString ts.length ++ " tokens.")
  match entry.results ts with
  | .error .overflow =>
    record (.tooNested ts.length)
    return none
  | .error f => throw (.fault f)
  | .ok rs =>
    note ("Parse result set has " ++ toString rs.length ++ " entries.")
    let verdict := Verdict.ofResults text ts rs
    if let some i := verdict.issue? then record i
    return verdict.value?

end Console
end Backtrack
