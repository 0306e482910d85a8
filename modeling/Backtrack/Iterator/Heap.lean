import Backtrack.Grammar.Basic

/-!
# Generators in a heap

A run of a grammar is carried out by generators. A generator is an object that is changed in place:
it keeps where it stands between one result and the next. It refers to the generators from which it
draws, and a repetition refers to a stack besides. All these objects live in one heap, which is
shared by whatever runs are open. The heap also has a cell for every name; the cell keeps what the
definition of the name gave when the name was first used.
-/

namespace Backtrack

/-- The place of an object in a heap. -/
abbrev Address := Nat

/-- Where a generator stands. -/
inductive Generator where
  /-- It gives nothing more. -/
  | over
  /-- It is to give one value without reading. -/
  | value (v : Value) (ts : List Value)
  /-- It is to read one token on which `image?` is defined. -/
  | token (image? : Value → Option Value) (ts : List Value)
  /-- It goes through results that need no other generator. -/
  | listing (t : Trace (Value × List Value))
  /-- It is to open a run of `p` and draw from it, then to go on with `after`. -/
  | entering (room : Nat) (p : Grammar) (ts : List Value) (f : Value → Except Fault Value)
    (after : Generator)
  /-- It draws from `source`, with values through `f`, and then goes on with `after`. -/
  | drawing (source : Address) (f : Value → Except Fault Value) (after : Generator)
  /-- It is to open a run of `p` and loop over it. -/
  | enteringLoop (room : Nat) (p : Grammar) (ts : List Value)
    (body : Value → Grammar × (Value → Except Fault Value))
  /-- It loops over `source`. For each result, `body` says from which grammar to draw where the
  result stopped, and what to make of the values. -/
  | looping (source : Address) (room : Nat) (body : Value → Grammar × (Value → Except Fault Value))
  /-- It is to open a run of `p` and repeat it. -/
  | enteringRepetition (room : Nat) (p : Grammar) (ts : List Value)
  /-- It repeats `p`, with the repetitions on a stack. -/
  | repeating (room : Nat) (p : Grammar) (stack : Address)

/-- One repetition on a stack: the values `found` before it, latest first, the generator that holds
the `options` that are still to be tried, and the tokens that are left over `here`. -/
structure Level where
  found : List Value
  options : Address
  here : List Value

/-- What there is in a heap. -/
inductive Object where
  | generator (g : Generator)
  | stack (levels : List Level)

/-- The objects of all open runs, and the cells of the names. -/
structure Heap where
  /-- What the definition of each name gave, if the name has been used. -/
  cells : String → Option Grammar
  /-- The objects in the order of their creation. -/
  objects : Array Object

namespace Heap

/-- A heap without objects, where no name has been used. -/
def empty : Heap := ⟨fun _ ↦ none, #[]⟩

/-- How many objects there are; the next one is created at this address. -/
def size (h : Heap) : Nat := h.objects.size

/-- The object at an address, if there is one. -/
def object? (h : Heap) (a : Address) : Option Object := h.objects[a]?

/-- The generator at an address; anything else gives nothing. -/
def generator (h : Heap) (a : Address) : Generator :=
  match h.object? a with
  | some (.generator g) => g
  | _ => .over

/-- The stack at an address; anything else is empty. -/
def stack (h : Heap) (a : Address) : List Level :=
  match h.object? a with
  | some (.stack levels) => levels
  | _ => []

/-- The heap with another object at an address. -/
def set (h : Heap) (a : Address) (o : Object) : Heap :=
  { h with objects := h.objects.setIfInBounds a o }

/-- The heap with one object more. -/
def push (h : Heap) (o : Object) : Heap := { h with objects := h.objects.push o }

/-- The heap with the cell of a name filled. -/
def fill (h : Heap) (name : String) (p : Grammar) : Heap :=
  { h with cells := fun other ↦ if other = name then some p else h.cells other }

/-! ### Objects after a change -/

variable {h : Heap} {a b : Address} {o : Object}

@[simp] theorem size_set (h : Heap) (a : Address) (o : Object) : (h.set a o).size = h.size := by
  simp [size, set]

@[simp] theorem size_push (h : Heap) (o : Object) : (h.push o).size = h.size + 1 := by
  simp [size, push]

@[simp] theorem size_fill (h : Heap) (name : String) (p : Grammar) :
    (h.fill name p).size = h.size := rfl

@[simp] theorem cells_set (h : Heap) (a : Address) (o : Object) : (h.set a o).cells = h.cells := rfl

@[simp] theorem cells_push (h : Heap) (o : Object) : (h.push o).cells = h.cells := rfl

/-- An object that is there is below the size. -/
theorem lt_size_of_object? (ho : h.object? a = some o) : a < h.size := by
  rw [object?] at ho
  exact (Array.getElem?_eq_some_iff.mp ho).choose

/-- A changed object is the new one. -/
theorem object?_set_self (ha : a < h.size) (o : Object) : (h.set a o).object? a = some o :=
  Array.getElem?_setIfInBounds_self_of_lt ha

/-- The other objects stay what they were. -/
theorem object?_set_of_ne (h : Heap) (o : Object) (hne : b ≠ a) :
    (h.set a o).object? b = h.object? b := by
  simp [object?, set, hne.symm]

/-- Of two changes of an object only the last one counts. -/
@[simp] theorem set_set (h : Heap) (a : Address) (o o' : Object) :
    (h.set a o).set a o' = h.set a o' := by
  simp [set]

/-- A new object is at the address that was free. -/
theorem object?_push_size (h : Heap) (o : Object) : (h.push o).object? h.size = some o := by
  simp [object?, push, size]

/-- The objects that were there stay what they were. -/
theorem object?_push_of_lt (o : Object) (ha : a < h.size) :
    (h.push o).object? a = h.object? a := by
  have hne : a ≠ h.objects.size := Nat.ne_of_lt ha
  simp [object?, push, Array.getElem?_push, hne]

@[simp] theorem object?_fill (h : Heap) (name : String) (p : Grammar) (a : Address) :
    (h.fill name p).object? a = h.object? a := rfl

end Heap
end Backtrack
