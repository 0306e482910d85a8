import Backtrack.Proofs.Grammar.Sequencing
import Backtrack.Proofs.Parser.Laziness

/-!
# Laziness of recursive definitions

What a grammar describes is extended when the meanings of its names are. So a component that is
referred to by name, in whatever definitions and however these refer to one another, can go on where
it was stopped by a fault without changing a result that came before. The main statement is
`combinators_extend`.
-/

namespace Backtrack

/-- A grammar describes an extended parser if the meanings of its names are extended. -/
theorem Grammar.parser_extends {meaning meaning' : String → Parser Value Value}
    (h : ∀ name, (meaning' name).Extends (meaning name)) (g : Grammar) :
    (g.parser meaning').Extends (g.parser meaning) := by
  induction g with
  | fail => exact Parser.extends_refl _
  | pure v label => exact Parser.extends_refl _
  | token image? label => exact Parser.extends_refl _
  | orElse p q ihp ihq => exact ihp.orElse ihq
  | seqWith join p q ihp ihq => exact (ihp.pair ihq).tryMap _
  | map f p ih => exact ih.tryMap f
  | bind p next ihp ihnext => exact ihp.bind ihnext
  | many p ih => exact ih.many.map _
  | ref name label => exact h name
  | failing fault kind => exact Parser.extends_refl _
  | embed p label kind => exact Parser.extends_refl _

namespace Definitions

/-- The definitions with components supplied for some of the names. -/
def supplied {ι : Type} (defs : Definitions) (place : String → Option ι)
    (ps : ι → Parser Value Value) : Definitions := fun name ↦
  match place name with
  | some i => .ok (.embed (ps i) none "_component")
  | none => defs name

/-- The meanings of names are extended if the supplied components are. -/
theorem meaning_supplied_extends {ι : Type} (defs : Definitions) (place : String → Option ι)
    {ps ps' : ι → Parser Value Value} (h : ∀ i, (ps' i).Extends (ps i)) (room : Nat)
    (name : String) :
    ((defs.supplied place ps').meaning room name).Extends
      ((defs.supplied place ps).meaning room name) := by
  induction room generalizing name with
  | zero => exact Parser.extends_refl _
  | succ room ih =>
    simp only [meaning, Parser.defer_eq, supplied]
    cases place name with
    | some i => exact h i
    | none =>
      cases defs name with
      | error fault => exact Parser.extends_refl _
      | ok g => exact Grammar.parser_extends ih g

end Definitions

/-- Let components of a parser be replaced by others that show the same results until a fault stops
the old ones, and are the same where no fault does. Then the whole shows the same results until a
fault stops it, and is the same where no fault does, and results that could be taken before stay
what they are. This holds of everything that is built around components with combinators, and of
grammars whose definitions refer to components and to one another, with any room. -/
theorem combinators_extend :
    (∀ {τ α ι : Type} {σ : ι → Type} (c : Parser.Context τ σ α) (ps ps' : ∀ i, Parser τ (σ i)),
      (∀ i, (ps' i).Extends (ps i)) → ∀ ts,
        ((c.fill ps').run ts).Extends ((c.fill ps).run ts) ∧
        ∀ n xs, ((c.fill ps).run ts).take n = .ok xs → ((c.fill ps').run ts).take n = .ok xs) ∧
    ∀ {ι : Type} (defs : Definitions) (place : String → Option ι) (g : Grammar) (room : Nat)
        (ps ps' : ι → Parser Value Value),
      (∀ i, (ps' i).Extends (ps i)) → ∀ ts,
        ((defs.supplied place ps').trace room g ts).Extends
          ((defs.supplied place ps).trace room g ts) ∧
        ∀ n xs, ((defs.supplied place ps).trace room g ts).take n = .ok xs →
          ((defs.supplied place ps').trace room g ts).take n = .ok xs := by
  constructor
  · intro τ α ι σ c ps ps' h ts
    have hrun := c.fill_extends h ts
    exact ⟨hrun, fun n xs ↦ hrun.take⟩
  · intro ι defs place g room ps ps' h ts
    have hrun := Grammar.parser_extends (defs.meaning_supplied_extends place h room) g ts
    rw [Definitions.trace_eq, Definitions.trace_eq]
    exact ⟨hrun, fun n xs ↦ hrun.take⟩

/-- The token 1, and a fault where it is asked for another way to read it. -/
def faultyItem : Parser Value Value :=
  .orElse (.single (.int 1)) (.bind (.single (.int 1)) fun _ ↦ .failing (.failure "no other way"))

/-- A parser of the token 1 with two values. -/
def doubleItem : Parser Value Value :=
  .orElse (.single (.int 1)) (.bind (.single (.int 1)) fun _ ↦ .pure (.int 2))

/-- A recursive definition of items in a row. -/
def itemRow : Definitions := fun _ ↦
  .ok (.orElse (.pair (.ref "item" none) (.ref "row" none)) (.pure .nothing "pure(None)"))

/-- A context of two items in a row. -/
def twoItems : Parser.Context Value (fun _ : Unit ↦ Value) (Value × Value) :=
  .pair (.component ()) (.component ())

/-- The longest row comes before the fault of any of its items, and so it comes first with other
items in their place. So does the first pair of items. -/
theorem combinators_extend_itemRow :
    let place (name : String) : Option Unit := if name == "item" then some () else none
    let row (p : Parser Value Value) : Trace (Value × List Value) :=
      (itemRow.supplied place fun _ ↦ p).trace 4 (.ref "row" none) [.int 1, .int 1]
    let two (p : Parser Value Value) : Trace ((Value × Value) × List Value) :=
      (twoItems.fill fun _ ↦ p).run [.int 1, .int 1]
    let longest : Value := .tuple [.int 1, .tuple [.int 1, .nothing]]
    doubleItem.Extends faultyItem ∧
      (two faultyItem).ending = some (.failure "no other way") ∧
      (two faultyItem).take 1 = .ok [((.int 1, .int 1), [])] ∧
      (two doubleItem).take 1 = .ok [((.int 1, .int 1), [])] ∧
      (row faultyItem).ending = some (.failure "no other way") ∧
      (row faultyItem).take 1 = .ok [(longest, [])] ∧
      (row doubleItem).take 1 = .ok [(longest, [])] := by
  intro place row two longest
  have hitem : doubleItem.Extends faultyItem :=
    (Parser.extends_refl _).orElse
      ((Parser.extends_refl _).bind fun _ ↦ Parser.extends_failing _ _)
  have htwo : (two faultyItem).take 1 = .ok [((.int 1, .int 1), [])] := rfl
  have hrow : (row faultyItem).take 1 = .ok [(longest, [])] := rfl
  have htwo' := (combinators_extend.1 twoItems (fun _ ↦ faultyItem) (fun _ ↦ doubleItem)
    (fun _ ↦ hitem) [.int 1, .int 1]).2 1 _ htwo
  have hrow' := (combinators_extend.2 itemRow place (.ref "row" none) 4 (fun _ ↦ faultyItem)
    (fun _ ↦ doubleItem) (fun _ ↦ hitem) [.int 1, .int 1]).2 1 _ hrow
  exact ⟨hitem, rfl, htwo, htwo', rfl, hrow, hrow'⟩

end Backtrack
