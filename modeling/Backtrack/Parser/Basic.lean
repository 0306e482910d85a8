import Backtrack.Trace.Basic

/-!
# Parsers

A parser takes a list of tokens and shows, one after another, the ways in which it can read a
beginning of that list: each result is a value and the tokens that are left over. No result
means that the parser does not match. The smallest parsers look at one token at most.
-/

namespace Backtrack

/-- A parser of `τ` tokens with `α` values. -/
@[ext] structure Parser (τ α : Type) where
  /-- The results on a list of tokens, each with what it leaves over. -/
  run : List τ → Trace (α × List τ)

namespace Parser

variable {τ α : Type}

/-- All the results, or the fault that stops the run. -/
def results (p : Parser τ α) (ts : List τ) : Except Fault (List (α × List τ)) :=
  (p.run ts).toList

/-- The values of those results that leave nothing over. -/
def complete (p : Parser τ α) (ts : List τ) : Except Fault (List α) :=
  (p.results ts).map fun rs ↦ (rs.filter (·.2.isEmpty)).map (·.1)

/-- The parser that never matches. -/
def fail : Parser τ α := ⟨fun _ ↦ .done⟩

/-- The parser whose every run stops with a fault before its first result. -/
def failing (fault : Fault) : Parser τ α := ⟨fun _ ↦ .raised fault⟩

/-- The parser that reads nothing and has one result. -/
protected def pure (a : α) : Parser τ α := ⟨fun ts ↦ .yield (a, ts) fun _ ↦ .done⟩

/-- One token on which `image?` is defined; its image is the value. -/
def token (image? : τ → Option α) : Parser τ α where
  run
    | [] => .done
    | t :: ts =>
      match image? t with
      | none => .done
      | some a => .yield (a, ts) fun _ ↦ .done

/-- One token that passes the test. -/
def satisfy (holds : τ → Bool) : Parser τ τ :=
  token fun t ↦ if holds t then some t else none

/-- One token equal to the one given. -/
def single [BEq τ] (expected : τ) : Parser τ τ := satisfy (· == expected)

/-- A parser that is worked out when it is run, once for every run. -/
def defer (p : Unit → Parser τ α) : Parser τ α := ⟨fun ts ↦ (p ()).run ts⟩

/-- Putting a parser off does not change what it does. -/
theorem defer_eq (p : Unit → Parser τ α) : defer p = p () := rfl

end Parser
end Backtrack
