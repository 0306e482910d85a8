import Backtrack.Grammar.Expression
import Backtrack.Proofs.Grammar.Derived
import Backtrack.Proofs.Parser.Repeat

/-!
# What the expression grammar describes

The grammar of expressions, whose tokens and results are values among others, describes the parser
of expressions. Part by part it gives the results of that parser, in the same order and with the
same leftover, and stops with the same fault (`Carries`). The main statement is `grammar_carries`.
-/

namespace Backtrack

/-- Tokens as values, in front of other values. -/
def among (others : List Value) (ts : List Token) : List Value := ts.map .token ++ others

/-- On tokens in front of the `others`, a parser of values shows what a parser of tokens shows on
the tokens alone: the same results, with `value` of what they find. -/
def Carries {α β : Type} (others : List Value) (value : α → β) (q : Parser Value β)
    (p : Parser Token α) : Prop :=
  ∀ ts, q.run (among others ts) = (p.run ts).map fun x ↦ (value x.1, among others x.2)

variable {α α' β β' γ δ : Type} {others : List Value} {value : α → β} {value' : α' → β'}
  {q : Parser Value β} {q' : Parser Value β'} {p : Parser Token α} {p' : Parser Token α'}

theorem length_among (others : List Value) (ts : List Token) :
    (among others ts).length = ts.length + others.length := by
  rw [among, List.length_append, List.length_map]

/-! ### Parsers of values -/

theorem carries_fail : Carries others value .fail .fail := fun _ ↦ rfl

theorem carries_failing (fault : Fault) : Carries others value (.failing fault) (.failing fault) :=
  fun _ ↦ rfl

theorem carries_pure (a : α) : Carries others value (Parser.pure (value a)) (Parser.pure a) :=
  fun _ ↦ rfl

/-- A parser of one value carries a parser of one token if the images correspond and no other value
can be read in place of a token. -/
theorem carries_token {image? : Token → Option α} {image'? : Value → Option β}
    (htoken : ∀ t, image'? (.token t) = (image? t).map value)
    (hother : ∀ v ∈ others.head?, image'? v = none) :
    Carries others value (.token image'?) (.token image?) := by
  intro ts
  cases ts with
  | nil =>
    cases others with
    | nil => rfl
    | cons v vs =>
      simp only [among, List.map_nil, List.nil_append, Parser.token, hother v rfl]
      rfl
  | cons t ts =>
    simp only [among, List.map_cons, List.cons_append, Parser.token, htoken]
    cases image? t <;> rfl

theorem Carries.orElse {q' : Parser Value β} {p' : Parser Token α}
    (h : Carries others value q p) (h' : Carries others value q' p') :
    Carries others value (.orElse q q') (.orElse p p') := by
  intro ts
  rw [Parser.run_orElse, Parser.run_orElse, h, h', Trace.map_append]

/-- Mapping both parsers preserves carrying if the images correspond. -/
theorem Carries.map {f : α → γ} {g : β → δ} {image : γ → δ} (h : Carries others value q p)
    (himage : ∀ a, g (value a) = image (f a)) : Carries others image (.map g q) (.map f p) := by
  intro ts
  rw [Parser.run_map, h, Trace.map_map, Parser.run_map, Trace.map_map]
  simp only [himage]

/-- Mapping both parsers preserves carrying if no image is refused and the images correspond. -/
theorem Carries.tryMap {f : α → γ} {g : β → Except Fault δ} {image : γ → δ}
    (h : Carries others value q p) (himage : ∀ a, g (value a) = .ok (image (f a))) :
    Carries others image (.tryMap g q) (.map f p) := by
  intro ts
  simp only [Parser.tryMap, h ts, Trace.tryMap_map, himage]
  rw [Parser.run_map, Trace.map_map]
  exact Trace.tryMap_ok (fun x : α × List Token ↦ (image (f x.1), among others x.2)) (p.run ts)

theorem Carries.pair (h : Carries others value q p) (h' : Carries others value' q' p') :
    Carries others (Prod.map value value') (.pair q q') (.pair p p') := by
  intro ts
  rw [Parser.run_pair, h, Trace.flatMap_map, Parser.run_pair, Trace.map_flatMap]
  simp only [h' _, Trace.map_map, Prod.map]

/-- Repeating both parsers preserves carrying, since every repetition leaves the other values in
place. -/
theorem Carries.many (h : Carries others value q p) :
    Carries others (List.map value) (.many q) (.many p) := by
  intro ts
  induction hn : ts.length using Nat.strongRecOn generalizing ts with
  | ind n ih =>
    have hafter (x : α × List Token) :
        q.repeatAfter (among others ts) (value x.1, among others x.2) =
          (p.repeatAfter ts x).map fun y ↦ (y.1.map value, among others y.2) := by
      simp only [Parser.repeatAfter, length_among, Nat.add_lt_add_iff_right]
      split
      · next hlt =>
        rw [ih _ (hn ▸ hlt) x.2 rfl, Trace.map_map, Trace.map_map]
        rfl
      · rfl
    rw [Parser.run_many, h, Trace.flatMap_map, Parser.run_many, Trace.map_append,
      Trace.map_flatMap]
    simp only [hafter]
    rfl

namespace Grammar

/-! ### Parts of the grammar -/

variable {meaning : String → Parser Value Value} {f : α → α' → γ} {image : γ → Value}
  {value : α → Value} {value' : α' → Value} {g g' : Grammar}

/-- Two carried grammars in sequence are carried in sequence. -/
theorem carries_seqWith {join : Value → Value → Except Fault Value}
    (h : Carries others value (g.parser meaning) p)
    (h' : Carries others value' (g'.parser meaning) p')
    (hjoin : ∀ a b, join (value a) (value' b) = .ok (image (f a b))) :
    Carries others image ((seqWith join g g').parser meaning)
      (.map (fun c ↦ f c.1 c.2) (.pair p p')) :=
  (h.pair h').tryMap fun c ↦ hjoin c.1 c.2

theorem carries_seqRight (h : Carries others value (g.parser meaning) p)
    (h' : Carries others value' (g'.parser meaning) p') :
    Carries others value' ((seqRight g g').parser meaning) (.seqRight p p') := by
  rw [Parser.seqRight_eq_map_pair]
  exact carries_seqWith (f := fun _ b ↦ b) h h' fun _ _ ↦ rfl

theorem carries_seqLeft (h : Carries others value (g.parser meaning) p)
    (h' : Carries others value' (g'.parser meaning) p') :
    Carries others value ((seqLeft g g').parser meaning) (.seqLeft p p') := by
  rw [Parser.seqLeft_eq_map_pair]
  exact carries_seqWith (f := fun a _ ↦ a) h h' fun _ _ ↦ rfl

/-- A function of a sequence of two is a function of a pair. -/
theorem parser_sequenceWith_two (join : List Value → Except Fault Value) (g₁ g₂ : Grammar) :
    (sequenceWith join [g₁, g₂]).parser meaning =
      .tryMap (fun c ↦ join [c.1, c.2]) (.pair (g₁.parser meaning) (g₂.parser meaning)) := by
  change Parser.tryMap _ ((sequence [g₁, g₂]).parser meaning) = _
  rw [parser_sequence_pair, parser_pair, Parser.tryMap_map]
  rfl

/-- A function of a sequence of three is a function of a pair in a pair. -/
theorem parser_sequenceWith_three (join : List Value → Except Fault Value) (g₁ g₂ g₃ : Grammar) :
    (sequenceWith join [g₁, g₂, g₃]).parser meaning =
      .tryMap (fun c ↦ join [c.1, c.2.1, c.2.2])
        (.pair (g₁.parser meaning) (.pair (g₂.parser meaning) (g₃.parser meaning))) := by
  change Parser.tryMap _ ((sequence [g₁, g₂, g₃]).parser meaning) = _
  rw [parser_sequence, List.map_cons, List.map_cons, List.map_singleton, Parser.sequence_cons,
    Parser.sequence_cons, Parser.sequence_singleton]
  simp only [Parser.pair_map_right, Parser.map_map, Parser.tryMap_map, Value.spread]

/-- The values behind the tokens do not begin with a token. -/
def EndsTokens (others : List Value) : Prop := ∀ t, others.head? ≠ .some (.token t)

/-- The exact grammar of a token that can be written is the one that `exactly` builds. -/
theorem exactly_token {t : Token} (h : t.isWritable = true) :
    exactly (.token t) = .ok (exactToken t) := by
  have hinspect : (Value.token t).inspect? = .some t.inspect := if_pos h
  rw [exactly, hinspect]
  rfl

/-- The exact grammar of a token carries the parser of that token. -/
theorem carries_exactToken (hothers : EndsTokens others) (t : Token) :
    Carries others .token ((exactToken t).parser meaning) (.single t) := by
  refine carries_token (fun t' ↦ ?_) fun v hv ↦ ?_
  · by_cases ht : t' = t
    · simp [ht, Value.present?]
    · simp [ht]
  · have hne : v ≠ .token t := fun he ↦ hothers t (he ▸ hv)
    simp [hne]

theorem carries_name (hothers : EndsTokens others) :
    Carries others .str (name.parser meaning) Expr.name := by
  refine carries_token (fun t ↦ rfl) fun v hv ↦ ?_
  cases v with
  | token t => exact absurd hv (hothers t)
  | _ => rfl

theorem carries_number (hothers : EndsTokens others) :
    Carries others .int (number.parser meaning) Expr.number := by
  refine carries_token (fun t ↦ rfl) fun v hv ↦ ?_
  cases v with
  | token t => exact absurd hv (hothers t)
  | _ => rfl

section

variable {parts : Parser Token Expr} (hothers : EndsTokens others)
  (hexpr : Carries others .tree (expr.parser meaning) parts)

include hothers hexpr

/-- The grammar of local definitions carries their parser. -/
theorem carries_letExpr :
    Carries others .tree (letExpr.parser meaning) (Expr.letOf parts) := by
  have htoken (t : Token) : Carries others .token ((exactToken t).parser meaning) (.single t) :=
    carries_exactToken hothers t
  have hname := carries_seqRight (htoken (.identifier "let")) (carries_name hothers)
  have hbound := carries_seqRight (htoken (.symbol '=')) hexpr
  have hbody := carries_seqRight (htoken (.identifier "in")) hexpr
  rw [letExpr, parser_sequenceWith_three]
  exact (hname.pair (hbound.pair hbody)).tryMap fun _ ↦ rfl

/-- The grammar of atoms carries their parser. -/
theorem carries_atom : Carries others .tree (atom.parser meaning) (Expr.atomOf parts) := by
  have hvar : Carries others .tree ((map Value.toName name).parser meaning)
      (.map Expr.var Expr.name) := (carries_name hothers).tryMap fun _ ↦ rfl
  have hconst : Carries others .tree ((map Value.toConst number).parser meaning)
      (.map Expr.const Expr.number) := (carries_number hothers).tryMap fun _ ↦ rfl
  have hparens := carries_seqLeft
    (carries_seqRight (carries_exactToken hothers (.symbol '(')) hexpr)
    (carries_exactToken hothers (.symbol ')'))
  rw [atom, parser_choice]
  exact ((carries_fail.orElse hvar).orElse hconst).orElse hparens

/-- The grammar of terms carries their parser. -/
theorem carries_term : Carries others .tree (term.parser meaning) (Expr.termOf parts) :=
  (carries_letExpr hothers hexpr).orElse (carries_atom hothers hexpr)

/-- The grammar of continuations carries their parser. -/
theorem carries_rest :
    Carries others (fun es ↦ .tuple (es.map .tree)) (rest.parser meaning) (Expr.restOf parts) := by
  have hplus : Carries others .token (plus.parser meaning) Expr.plus :=
    carries_exactToken hothers (.symbol '+')
  have hatoms : Carries others (fun es : List Expr ↦ Value.tuple (es.map .tree))
      ((many (seqRight plus atom)).parser meaning)
      (.map (fun es ↦ es) (.many (.seqRight Expr.plus (Expr.atomOf parts)))) :=
    (carries_seqRight hplus (carries_atom hothers hexpr)).many.map fun _ ↦ rfl
  rw [Parser.map_id] at hatoms
  have hlast : Carries others (fun es : List Expr ↦ Value.tuple (es.map .tree))
      ((map (fun v ↦ .ok (.tuple [v])) (seqRight plus letExpr)).parser meaning)
      (.map ([·]) (.seqRight Expr.plus (Expr.letOf parts))) :=
    (carries_seqRight hplus (carries_letExpr hothers hexpr)).tryMap fun _ ↦ rfl
  have hnone : Carries others (fun es : List Expr ↦ Value.tuple (es.map .tree))
      ((pure (.tuple []) "pure(())").parser meaning) (Parser.pure []) := carries_pure []
  rw [rest, parser_sequenceWith_two]
  refine (hatoms.pair (hlast.orElse hnone)).tryMap (f := fun c ↦ c.1 ++ c.2) fun c ↦ ?_
  simp only [Prod.map, Value.joinArguments, List.map_append]

/-- The body of the definition of expressions carries their parser. -/
theorem carries_exprBody :
    Carries others .tree (exprBody.parser meaning) (Expr.exprOf parts) := by
  have hsum (e : Expr) (es : List Expr) :
      Value.toSums (.tree e) (es.map .tree) = .ok (.tree (e.sum es)) := by
    induction es generalizing e with
    | nil => rfl
    | cons e' es ih => exact ih (.add e e')
  refine (carries_letExpr hothers hexpr).orElse ?_
  rw [parser_sequenceWith_two]
  exact ((carries_atom hothers hexpr).pair (carries_rest hothers hexpr)).tryMap fun c ↦
    hsum c.1 c.2

end

/-! ### Expressions in expressions -/

/-- The name of expressions carries their parser, whatever else is defined. -/
theorem carries_expr (defs : Definitions) (room : Nat) (hothers : EndsTokens others) :
    Carries others .tree (expr.parser (defs.withExpressions.meaning room)) (Expr.parser room) := by
  induction room with
  | zero => exact carries_failing .overflow
  | succ room ih =>
    have hparser : expr.parser (defs.withExpressions.meaning (room + 1)) =
        exprBody.parser (defs.withExpressions.meaning room) := by
      simp only [expr, parser, Definitions.meaning, Parser.defer_eq, Definitions.withExpressions,
        if_true]
    rw [hparser]
    exact carries_exprBody hothers ih

/-- The grammar of expressions and the grammars of its parts describe the parsers of expressions and
of their parts, whatever else is defined, however deep expressions may be nested, and whatever
values follow the tokens. -/
theorem grammar_carries (defs : Definitions) (room : Nat) (hothers : EndsTokens others) :
    let meaning := defs.withExpressions.meaning room
    let parts := Expr.parser room
    Carries others .tree (expr.parser meaning) parts ∧
      Carries others .tree (letExpr.parser meaning) (Expr.letOf parts) ∧
      Carries others .tree (atom.parser meaning) (Expr.atomOf parts) ∧
      Carries others .tree (term.parser meaning) (Expr.termOf parts) ∧
      Carries others (fun es ↦ .tuple (es.map .tree)) (rest.parser meaning) (Expr.restOf parts) ∧
      Carries others .str (name.parser meaning) Expr.name ∧
      Carries others .int (number.parser meaning) Expr.number ∧
      Carries others .token (plus.parser meaning) Expr.plus := by
  intro meaning parts
  have hexpr := carries_expr defs room hothers
  exact ⟨hexpr, carries_letExpr hothers hexpr, carries_atom hothers hexpr,
    carries_term hothers hexpr, carries_rest hothers hexpr, carries_name hothers,
    carries_number hothers, carries_exactToken hothers _⟩

end Grammar
end Backtrack
