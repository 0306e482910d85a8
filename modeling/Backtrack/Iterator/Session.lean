import Backtrack.Iterator.Next

/-!
# Sessions

Any number of runs, each kept under a name and asked for one result at a time. They all live in one
heap. A script opens and asks them in any order.
-/

namespace Backtrack

/-- Runs that are open, under names. -/
structure Session where
  heap : Heap
  /-- The generator that is kept under a name, if there is one. -/
  names : String → Option Address

namespace Session

/-- What a step of a session answers. -/
inductive Answer where
  /-- A run is ready to be asked. -/
  | opened
  /-- The next result of a run. -/
  | result (r : Value × List Value)
  /-- The run has no more results. -/
  | done
  /-- The run is stopped by a fault, or cannot be opened. -/
  | raised (fault : Fault)

/-- The answer of a generator in a session. -/
def Answer.of : Except Fault (Option (Value × List Value)) → Answer
  | .ok (some r) => .result r
  | .ok none => .done
  | .error fault => .raised fault

/-- A step of a script. -/
inductive Step where
  /-- Open a run of a grammar and keep it under a name. -/
  | opening (name : String) (room : Nat) (p : Grammar) (ts : List Value)
  /-- Ask for the next result under a name. -/
  | next (name : String)

/-- No run is open. -/
def empty : Session := ⟨.empty, fun _ ↦ none⟩

/-- The session with another heap and another generator under a name, or with none. -/
def keep (s : Session) (h : Heap) (name : String) (a? : Option Address) : Session :=
  ⟨h, fun other ↦ if other = name then a? else s.names other⟩

/-- What a step of a script answers and the session after it; nothing at all if a generator would
have to go on for more than so many `steps`. Nothing is kept under the name of a run that cannot be
opened. -/
def perform (defs : Definitions) (steps : Nat) (s : Session) : Step → Option (Answer × Session)
  | .opening name room p ts =>
    match defs.start ts room p s.heap with
    | (.error fault, h) => some (.raised fault, s.keep h name none)
    | (.ok a, h) => some (.opened, s.keep h name (some a))
  | .next name =>
    match s.names name with
    | none => some (.done, s)
    | some a => do
      let (answer, h) ← defs.next steps a s.heap
      return (.of answer, s.keep h name (some a))

/-- What the steps of a script answer in turn. -/
def play (defs : Definitions) (steps : Nat) (s : Session) : List Step → Option (List Answer)
  | [] => some []
  | step :: script => do
    let (answer, s) ← s.perform defs steps step
    return answer :: (← s.play defs steps script)

end Session
end Backtrack
