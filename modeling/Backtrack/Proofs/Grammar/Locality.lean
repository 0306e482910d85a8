import Backtrack.Expr.Parser
import Backtrack.Grammar.Derived
import Backtrack.Proofs.Parser.Locality

/-!
# Locality of recursive definitions

What a grammar describes is made with combinators if everything embedded in it is, and so is what
its definitions mean, however they refer to one another: each opening of a definition is one more
parser put off. The same holds of the expression grammar. The main statement is
`combinators_local`.
-/

namespace Backtrack

namespace Grammar

open Backtrack.Parser (Built)

/-- Every parser embedded in the grammar is made with combinators. -/
def Combined : Grammar → Prop
  | fail => True
  | pure _ _ => True
  | token _ _ => True
  | orElse p q => p.Combined ∧ q.Combined
  | seqWith _ p q => p.Combined ∧ q.Combined
  | map _ p => p.Combined
  | bind p next => p.Combined ∧ ∀ v, (next v).Combined
  | many p => p.Combined
  | ref _ _ => True
  | failing _ _ => True
  | embed p _ _ => Built p

/-- A combined grammar describes a parser made with combinators if its names mean such parsers. -/
theorem built_of_combined {meaning : String → Parser Value Value}
    (hm : ∀ name, Built (meaning name)) {g : Grammar} (hg : g.Combined) :
    Built (g.parser meaning) := by
  induction g with
  | fail => exact .fail
  | pure v label => exact .pure v
  | token image? label => exact .token image?
  | orElse p q ihp ihq => exact (ihp hg.1).orElse (ihq hg.2)
  | seqWith join p q ihp ihq => exact ((ihp hg.1).pair (ihq hg.2)).tryMap _
  | map f p ih => exact (ih hg).tryMap f
  | bind p next ih ihnext => exact (ih hg.1).bind fun v ↦ ihnext v (hg.2 v)
  | many p ih => exact (ih hg).many.map _
  | ref name label => exact hm name
  | failing fault kind => exact .failing fault
  | embed p label kind => exact hg

end Grammar

namespace Definitions

open Backtrack.Parser (Built)

/-- The grammars of all definitions are combined. -/
def Combined (defs : Definitions) : Prop := ∀ name g, defs name = .ok g → g.Combined

/-- Combined definitions mean parsers made with combinators, with any room. -/
theorem built_meaning {defs : Definitions} (hdefs : defs.Combined) (room : Nat) (name : String) :
    Built (defs.meaning room name) := by
  induction room generalizing name with
  | zero => exact .failing .overflow
  | succ room ih =>
    apply Built.defer
    cases hd : defs name with
    | error fault => exact .failing fault
    | ok g => exact Grammar.built_of_combined ih (hdefs name g hd)

end Definitions

namespace Expr

open Backtrack.Parser (Built)

section Parts

variable {expr : Parser Token Expr} (h : Built expr)
include h

/-- The parser of local definitions is made with combinators if that of their parts is. -/
theorem built_letOf : Built (letOf expr) :=
  (((Built.single _).seqRight (.token nameOf?)).pair
    (((Built.single _).seqRight h).pair ((Built.single _).seqRight h))).map _

/-- The parser of atoms is made with combinators if that of their parts is. -/
theorem built_atomOf : Built (atomOf expr) := by
  apply Built.choice
  intro p hp
  simp only [List.mem_cons, List.not_mem_nil, or_false] at hp
  rcases hp with rfl | rfl | rfl
  · exact (Built.token nameOf?).map var
  · exact (Built.token numberOf?).map const
  · exact ((Built.single _).seqRight h).seqLeft (.single _)

/-- The parser of continuations is made with combinators if that of their parts is. -/
theorem built_restOf : Built (restOf expr) :=
  ((Built.single _).seqRight (built_atomOf h)).many.map₂ _
    ((((Built.single _).seqRight (built_letOf h)).map _).orElse (.pure []))

/-- The parser of expressions is made with combinators if that of the nested ones is. -/
theorem built_exprOf : Built (exprOf expr) :=
  (built_letOf h).orElse ((built_atomOf h).map₂ _ (built_restOf h))

end Parts

/-- The parser of expressions is made with combinators, with any room. -/
theorem parser_built (room : Nat) : Built (parser room) := by
  induction room with
  | zero => exact .failing .overflow
  | succ room ih => exact .defer (built_exprOf ih)

end Expr

/-- Parsers that are made with combinators are local: every result leaves an end of the tokens
over, and where the runs on two inputs with a common beginning end, the results that read no more
than this are the same in number, order, value and tokens read. That holds of what recursive
definitions mean, too, and of expressions in particular. -/
theorem combinators_local :
    (∀ (τ α : Type) (p : Parser τ α), p.Built → p.Local) ∧
      (∀ (defs : Definitions), defs.Combined → ∀ (room : Nat) (g : Grammar), g.Combined →
        (g.parser (defs.meaning room)).Local) ∧
      ∀ room, (Expr.parser room).Local := by
  refine ⟨?_, ?_, ?_⟩
  · intro τ α p hp
    exact hp.isLocal
  · intro defs hdefs room g hg
    exact (Grammar.built_of_combined (Definitions.built_meaning hdefs room) hg).isLocal
  · intro room
    exact (Expr.parser_built room).isLocal

/-- The tokens 1 and 2 around one another like parentheses, with the depth as the value; every
name stands for the same. -/
def nested : Grammar :=
  .orElse (.seqLeft (.seqRight (.single (.int 1) "1")
      (.map (Unary.plus 1).apply (.ref "nested" none))) (.single (.int 2) "2"))
    (.pure (.int 0) "pure(0)")

/-- What comes behind a pair does not matter for the results that stay within it. -/
theorem nested_local :
    let p := nested.parser (Definitions.meaning (fun _ ↦ .ok nested) 4)
    nested.Combined ∧ p.EndsOn [.int 1, .int 2, .int 2] ∧
      p.EndsOn [.int 1, .int 2, .int 1, .int 1] ∧
      p.readings 2 [.int 1, .int 2, .int 2] = [(.int 1, 2), (.int 0, 0)] ∧
      p.readings 2 [.int 1, .int 2, .int 1, .int 1] = [(.int 1, 2), (.int 0, 0)] := by
  intro p
  have hnested : nested.Combined := ⟨⟨⟨trivial, trivial⟩, trivial⟩, trivial⟩
  have hdefs : Definitions.Combined fun _ ↦ .ok nested := by
    intro name g hg
    rw [← Except.ok.inj hg]
    exact hnested
  have hp : p.Local := combinators_local.2.1 _ hdefs 4 nested hnested
  have he : p.EndsOn ([.int 1, .int 2] ++ [.int 2]) := rfl
  have he' : p.EndsOn ([.int 1, .int 2] ++ [.int 1, .int 1]) := rfl
  have h : p.readings 2 [.int 1, .int 2, .int 2] = [(.int 1, 2), (.int 0, 0)] := rfl
  exact ⟨hnested, he, he', h, (hp.readings_eq he he').symm.trans h⟩

end Backtrack
