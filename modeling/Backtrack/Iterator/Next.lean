import Backtrack.Iterator.Heap

/-!
# Opening and asking generators

Opening a run creates one generator and carries nothing out, except that a name is looked up, which
fills its cell at first use. Asking a generator for its next result lets it go on to where it gives
one; on the way it opens and asks others. A fault ends every generator that it passes.
-/

namespace Backtrack

namespace Heap

/-- What a name stands for: what is in its cell, which its definition fills at first use. -/
def lookUp (h : Heap) (defs : Definitions) (name : String) : Except Fault Grammar × Heap :=
  match h.cells name with
  | some p => (.ok p, h)
  | none =>
    match defs name with
    | .error fault => (.error fault, h)
    | .ok p => (.ok p, h.fill name p)

/-- A new generator. -/
def create (h : Heap) (g : Generator) : Except Fault Address × Heap :=
  (.ok h.size, h.push (.generator g))

/-- The heap with a generator standing elsewhere. -/
def move (h : Heap) (a : Address) (g : Generator) : Heap := h.set a (.generator g)

@[simp] theorem size_move (h : Heap) (a : Address) (g : Generator) :
    (h.move a g).size = h.size := size_set _ _ _

@[simp] theorem move_move (h : Heap) (a : Address) (g g' : Generator) :
    (h.move a g).move a g' = h.move a g' := set_set _ _ _ _

/-- A generator has no more results and is over. -/
def finish (h : Heap) (a : Address) : Except Fault (Option (Value × List Value)) × Heap :=
  (.ok none, h.move a .over)

/-- A generator is stopped by a fault and is over. -/
def raise (h : Heap) (a : Address) (fault : Fault) :
    Except Fault (Option (Value × List Value)) × Heap :=
  (.error fault, h.move a .over)

end Heap

namespace Definitions

/-- A new generator for a run of `p`, or the fault that keeps the run from being opened. -/
def start (defs : Definitions) (ts : List Value) (room : Nat) (p : Grammar) (h : Heap) :
    Except Fault Address × Heap :=
  match p with
  | .fail => h.create .over
  | .pure v _ => h.create (.value v ts)
  | .token image? _ => h.create (.token image? ts)
  | .orElse p q => h.create (.entering room p ts .ok (.entering room q ts .ok .over))
  | .seqWith join p q => h.create (.enteringLoop room p ts fun v ↦ (q, join v))
  | .map f p => h.create (.entering room p ts f .over)
  | .bind p next => h.create (.enteringLoop room p ts fun v ↦ (next v, .ok))
  | .many p => h.create (.enteringRepetition room p ts)
  | .failing fault _ => (.error fault, h)
  | .embed p _ _ => h.create (.listing (p.run ts))
  | .ref name _ =>
    match room with
    | 0 => (.error .overflow, h)
    | room + 1 =>
      match h.lookUp defs name with
      | (.error fault, h) => (.error fault, h)
      | (.ok p, h) => defs.start ts room p h

/-- One step of a generator, where `ask` says what generators answer that it asks in turn, itself
among them: its next result if it has one, or the fault that stops it, and the heap after that. -/
def advance (defs : Definitions)
    (ask : Address → Heap → Option (Except Fault (Option (Value × List Value)) × Heap))
    (a : Address) (h : Heap) : Option (Except Fault (Option (Value × List Value)) × Heap) :=
  match h.generator a with
  | .over => some (.ok none, h)
  | .value v ts => some (.ok (some (v, ts)), h.move a .over)
  | .token _ [] => some (h.finish a)
  | .token image? (t :: ts) =>
    match image? t with
    | none => some (h.finish a)
    | some v => some (.ok (some (v, ts)), h.move a .over)
  | .listing .done => some (h.finish a)
  | .listing (.raised fault) => some (h.raise a fault)
  | .listing (.yield r more) => some (.ok (some r), h.move a (.listing (more ())))
  | .entering room p ts f after =>
    match defs.start ts room p h with
    | (.error fault, h) => some (h.raise a fault)
    | (.ok source, h) => ask a (h.move a (.drawing source f after))
  | .drawing source f after => do
    match ← ask source h with
    | (.error fault, h) => some (h.raise a fault)
    | (.ok none, h) => ask a (h.move a after)
    | (.ok (some (v, rest)), h) =>
      match f v with
      | .error fault => some (h.raise a fault)
      | .ok w => some (.ok (some (w, rest)), h)
  | .enteringLoop room p ts body =>
    match defs.start ts room p h with
    | (.error fault, h) => some (h.raise a fault)
    | (.ok source, h) => ask a (h.move a (.looping source room body))
  | .looping source room body => do
    match ← ask source h with
    | (.error fault, h) => some (h.raise a fault)
    | (.ok none, h) => some (h.finish a)
    | (.ok (some (v, middle)), h) =>
      ask a (h.move a (.entering room (body v).1 middle (body v).2 (.looping source room body)))
  | .enteringRepetition room p ts =>
    match defs.start ts room p h with
    | (.error fault, h) => some (h.raise a fault)
    | (.ok options, h) =>
      ask a ((h.push (.stack [⟨[], options, ts⟩])).move a (.repeating room p h.size))
  | .repeating room p stack =>
    match h.stack stack with
    | [] => some (h.finish a)
    | ⟨found, options, here⟩ :: levels => do
      match ← ask options h with
      | (.error fault, h) => some (h.raise a fault)
      | (.ok none, h) =>
        some (.ok (some (.tuple found.reverse, here)), h.set stack (.stack levels))
      | (.ok (some (v, rest)), h) =>
        if rest.length < here.length then
          match defs.start rest room p h with
          | (.error fault, h) => some (h.raise a fault)
          | (.ok options', h) =>
            ask a (h.set stack
              (.stack (⟨v :: found, options', rest⟩ :: ⟨found, options, here⟩ :: levels)))
        else some (h.raise a .overflow)

/-- What a generator answers when it is asked for its next result; nothing at all if this would take
more than so many `steps`. -/
def next (defs : Definitions) :
    (steps : Nat) → Address → Heap → Option (Except Fault (Option (Value × List Value)) × Heap)
  | 0 => fun _ _ ↦ none
  | steps + 1 => defs.advance (defs.next steps)

/-- How many steps a generator may go on for where nothing else is said. -/
def steps : Nat := 1000000000

/-! ### What a generator does from where it stands -/

section

variable (defs : Definitions) {a source stack : Address} {h : Heap} {room : Nat} {p : Grammar}
  {ts : List Value} {f : Value → Except Fault Value} {after : Generator}
  {body : Value → Grammar × (Value → Except Fault Value)} (n : Nat)

theorem next_succ (a : Address) (h : Heap) :
    defs.next (n + 1) a h = defs.advance (defs.next n) a h := rfl

theorem next_over (hg : h.generator a = .over) : defs.next (n + 1) a h = some (.ok none, h) := by
  rw [next_succ, advance, hg]

theorem next_value {v : Value} (hg : h.generator a = .value v ts) :
    defs.next (n + 1) a h = some (.ok (some (v, ts)), h.move a .over) := by
  rw [next_succ, advance, hg]

theorem next_token_nil {image? : Value → Option Value} (hg : h.generator a = .token image? []) :
    defs.next (n + 1) a h = some (h.finish a) := by
  rw [next_succ, advance, hg]

theorem next_token_cons {image? : Value → Option Value} {t : Value}
    (hg : h.generator a = .token image? (t :: ts)) :
    defs.next (n + 1) a h =
      match image? t with
      | none => some (h.finish a)
      | some v => some (.ok (some (v, ts)), h.move a .over) := by
  rw [next_succ, advance, hg]

theorem next_listing_done (hg : h.generator a = .listing .done) :
    defs.next (n + 1) a h = some (h.finish a) := by
  rw [next_succ, advance, hg]

theorem next_listing_raised {fault : Fault} (hg : h.generator a = .listing (.raised fault)) :
    defs.next (n + 1) a h = some (h.raise a fault) := by
  rw [next_succ, advance, hg]

theorem next_listing_yield {r : Value × List Value} {more : Unit → Trace (Value × List Value)}
    (hg : h.generator a = .listing (.yield r more)) :
    defs.next (n + 1) a h = some (.ok (some r), h.move a (.listing (more ()))) := by
  rw [next_succ, advance, hg]

theorem next_entering (hg : h.generator a = .entering room p ts f after) :
    defs.next (n + 1) a h =
      match defs.start ts room p h with
      | (.error fault, h) => some (h.raise a fault)
      | (.ok source, h) => defs.next n a (h.move a (.drawing source f after)) := by
  rw [next_succ, advance, hg]

theorem next_drawing (hg : h.generator a = .drawing source f after) :
    defs.next (n + 1) a h = (defs.next n source h).bind fun
      | (.error fault, h) => some (h.raise a fault)
      | (.ok none, h) => defs.next n a (h.move a after)
      | (.ok (some (v, rest)), h) =>
        match f v with
        | .error fault => some (h.raise a fault)
        | .ok w => some (.ok (some (w, rest)), h) := by
  rw [next_succ, advance, hg]
  rfl

theorem next_enteringLoop (hg : h.generator a = .enteringLoop room p ts body) :
    defs.next (n + 1) a h =
      match defs.start ts room p h with
      | (.error fault, h) => some (h.raise a fault)
      | (.ok source, h) => defs.next n a (h.move a (.looping source room body)) := by
  rw [next_succ, advance, hg]

theorem next_looping (hg : h.generator a = .looping source room body) :
    defs.next (n + 1) a h = (defs.next n source h).bind fun
      | (.error fault, h) => some (h.raise a fault)
      | (.ok none, h) => some (h.finish a)
      | (.ok (some (v, middle)), h) =>
        defs.next n a (h.move a
          (.entering room (body v).1 middle (body v).2 (.looping source room body))) := by
  rw [next_succ, advance, hg]
  rfl

theorem next_enteringRepetition (hg : h.generator a = .enteringRepetition room p ts) :
    defs.next (n + 1) a h =
      match defs.start ts room p h with
      | (.error fault, h) => some (h.raise a fault)
      | (.ok options, h) =>
        defs.next n a
          ((h.push (.stack [⟨[], options, ts⟩])).move a (.repeating room p h.size)) := by
  rw [next_succ, advance, hg]

theorem next_repeating_nil (hg : h.generator a = .repeating room p stack)
    (hs : h.stack stack = []) : defs.next (n + 1) a h = some (h.finish a) := by
  rw [next_succ, advance, hg]
  simp only [hs]

theorem next_repeating_cons {found : List Value} {options : Address} {here : List Value}
    {levels : List Level} (hg : h.generator a = .repeating room p stack)
    (hs : h.stack stack = ⟨found, options, here⟩ :: levels) :
    defs.next (n + 1) a h = (defs.next n options h).bind fun
      | (.error fault, h) => some (h.raise a fault)
      | (.ok none, h) =>
        some (.ok (some (.tuple found.reverse, here)), h.set stack (.stack levels))
      | (.ok (some (v, rest)), h) =>
        if rest.length < here.length then
          match defs.start rest room p h with
          | (.error fault, h) => some (h.raise a fault)
          | (.ok options', h) =>
            defs.next n a (h.set stack
              (.stack (⟨v :: found, options', rest⟩ :: ⟨found, options, here⟩ :: levels)))
        else some (h.raise a .overflow) := by
  rw [next_succ, advance, hg]
  simp only [hs]
  rfl

end

end Definitions
end Backtrack
