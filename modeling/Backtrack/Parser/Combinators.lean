import Backtrack.Parser.Basic

/-!
# Combining parsers

Alternatives, sequences, mapped values and dependent steps. What is left over is handed from
one stage to the next, so a stage with several results runs its successor once for each of
them, the first stage being the outer loop. The main statements are the laws of a monad,
`pure_bind`, `bind_pure` and `bind_assoc`, and those of alternatives, `fail_orElse`,
`orElse_fail` and `orElse_assoc`.
-/

namespace Backtrack.Parser

variable {τ α β γ : Type}

/-- Every result of `p`, then every result of `q`, on the same tokens. -/
def orElse (p q : Parser τ α) : Parser τ α := ⟨fun ts ↦ (p.run ts).append fun _ ↦ q.run ts⟩

/-- The same results with their values through `f`. -/
def map (f : α → β) (p : Parser τ α) : Parser τ β :=
  ⟨fun ts ↦ (p.run ts).map fun (a, rest) ↦ (f a, rest)⟩

/-- The same results with their values through `f`, up to the first value that `f` refuses. -/
def tryMap (f : α → Except Fault β) (p : Parser τ α) : Parser τ β :=
  ⟨fun ts ↦ (p.run ts).tryMap fun (a, rest) ↦ (f a).map (·, rest)⟩

/-- The value of `p` chooses the parser that goes on where `p` stopped. -/
def bind (p : Parser τ α) (next : α → Parser τ β) : Parser τ β :=
  ⟨fun ts ↦ (p.run ts).flatMap fun (a, middle) ↦ (next a).run middle⟩

/-- A function, and then the argument that it is applied to. -/
def seq (fs : Parser τ (α → β)) (xs : Parser τ α) : Parser τ β :=
  ⟨fun ts ↦ (fs.run ts).flatMap fun (f, middle) ↦
    (xs.run middle).map fun (x, rest) ↦ (f x, rest)⟩

/-- Any number of alternatives in order. -/
def choice (ps : List (Parser τ α)) : Parser τ α := ps.foldl orElse fail

/-- `p` and then `q`, with both values. -/
def pair (p : Parser τ α) (q : Parser τ β) : Parser τ (α × β) := seq (map Prod.mk p) q

/-- `p` and then `q`, with the value of `p`. -/
def seqLeft (p : Parser τ α) (q : Parser τ β) : Parser τ α := seq (map (fun a _ ↦ a) p) q

/-- `p` and then `q`, with the value of `q`. -/
def seqRight (p : Parser τ α) (q : Parser τ β) : Parser τ β := seq (map (fun _ ↦ id) p) q

/-- Each parser after the one before it, with the list of their values. -/
def sequence (ps : List (Parser τ α)) : Parser τ (List α) :=
  ps.foldl (fun sofar p ↦ seq (map (fun as a ↦ as ++ [a]) sofar) p) (Parser.pure [])

/-- Two parsers in sequence, with `f` of their values. -/
def map₂ (f : α → β → γ) (p : Parser τ α) (q : Parser τ β) : Parser τ γ :=
  map (fun (a, b) ↦ f a b) (pair p q)

/-- `p`, or else nothing read and the value `default`; `p` comes first. -/
def option (p : Parser τ α) (default : α) : Parser τ α := orElse p (Parser.pure default)

/-- What never matches adds nothing in front. -/
theorem fail_orElse (p : Parser τ α) : orElse fail p = p := rfl

/-- What never matches adds nothing behind. -/
theorem orElse_fail (p : Parser τ α) : orElse p fail = p :=
  Parser.ext (funext fun _ ↦ Trace.append_done _)

/-- Alternatives do not depend on how they are bracketed. -/
theorem orElse_assoc (p q r : Parser τ α) : orElse (orElse p q) r = orElse p (orElse q r) :=
  Parser.ext (funext fun _ ↦ Trace.append_assoc _ _ _)

/-- A value known beforehand goes straight to the next step. -/
theorem pure_bind (a : α) (next : α → Parser τ β) : bind (Parser.pure a) next = next a := by
  refine Parser.ext (funext fun ts ↦ ?_)
  simp only [bind, Parser.pure, Trace.flatMap_yield]
  exact Trace.append_done _

/-- A last step that only hands on the value changes nothing. -/
theorem bind_pure (p : Parser τ α) : bind p Parser.pure = p := by
  refine Parser.ext (funext fun ts ↦ ?_)
  change (p.run ts).flatMap (fun r ↦ .yield r fun _ ↦ .done) = p.run ts
  induction p.run ts with
  | done => rfl
  | raised f => rfl
  | yield a more ih => simp [Trace.flatMap, Trace.append, ih]

/-- Dependent steps do not depend on how they are bracketed. -/
theorem bind_assoc (p : Parser τ α) (f : α → Parser τ β) (g : β → Parser τ γ) :
    bind (bind p f) g = bind p fun a ↦ bind (f a) g :=
  Parser.ext (funext fun _ ↦ Trace.flatMap_flatMap _ _ _)

end Backtrack.Parser
