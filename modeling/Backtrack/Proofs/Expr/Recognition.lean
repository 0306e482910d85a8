import Backtrack.Proofs.Expr.Derivation
import Backtrack.Proofs.Parser.Unrolling

/-!
# The parsers of expressions recognise the grammar

The results of a parser of expressions are the derivations of its part of the grammar from
beginnings of the tokens: nothing else is a result, and no derivation is missed. The room is the
only thing that can stop a run, and it is never used up where it exceeds the number of tokens
that open a nested expression. The main statement is `recognises_grammar`.
-/

namespace Backtrack.Expr

open Backtrack.Parser

/-! ### The language of each parser -/

/-- A token is read as a name exactly if it is an identifier that is not reserved. -/
private theorem name_token_iff (u : List Token) (x : String) :
    Language.token nameOf? u x ↔ ∃ y : Name, u = [.identifier y.text] ∧ y.text = x := by
  constructor
  · rintro ⟨t, rfl, ht⟩
    cases t with
    | symbol c => simp [nameOf?] at ht
    | number n => simp [nameOf?] at ht
    | identifier w =>
      simp only [nameOf?, Option.ite_none_left_eq_some, Option.some.injEq] at ht
      obtain ⟨hw, rfl⟩ := ht
      exact ⟨⟨w, eq_false_of_ne_true hw⟩, rfl, rfl⟩
  · rintro ⟨y, rfl, rfl⟩
    exact ⟨_, rfl, by simp [nameOf?, y.isReserved_text]⟩

/-- A token is read as a number exactly if it is a number token. -/
private theorem number_token_iff (u : List Token) (k : Int) :
    Language.token numberOf? u k ↔ ∃ n : Nat, u = [.number n] ∧ (n : Int) = k := by
  constructor
  · rintro ⟨t, rfl, ht⟩
    cases t with
    | symbol c => simp [numberOf?] at ht
    | identifier w => simp [numberOf?] at ht
    | number n => exact ⟨n, rfl, Option.some.inj ht⟩
  · rintro ⟨n, rfl, rfl⟩
    exact ⟨_, rfl, rfl⟩

/-- The parser of local definitions reads their language. -/
theorem reads_letOf {p : Parser Token Expr} (hp : p.Reads exprLanguage) :
    (letOf p).Reads letLanguage := by
  have hparts := reads_pair (reads_after (.symbol '=') hp) (reads_after (.identifier "in") hp)
  have hname := reads_after (.identifier "let") (reads_token nameOf?)
  apply (reads_map _ (reads_pair hname hparts)).congr
  intro u e
  constructor
  · rintro ⟨⟨_, _, _⟩, ⟨_, _, rfl, ⟨_, rfl, hx⟩, _, _, rfl, ⟨_, rfl, d, rfl, rfl⟩,
      ⟨_, rfl, d', rfl, rfl⟩⟩, rfl⟩
    obtain ⟨x, rfl, rfl⟩ := (name_token_iff _ _).mp hx
    exact ⟨.letIn x d d', rfl, rfl⟩
  · rintro ⟨⟨x, d, d'⟩, rfl, rfl⟩
    exact ⟨(x.text, d.value, d'.value),
      ⟨_, _, rfl, ⟨_, rfl, (name_token_iff _ _).mpr ⟨x, rfl, rfl⟩⟩, _, _, rfl,
        ⟨_, rfl, d, rfl, rfl⟩, ⟨_, rfl, d', rfl, rfl⟩⟩, rfl⟩

/-- The parser of atoms reads their language. -/
theorem reads_atomOf {p : Parser Token Expr} (hp : p.Reads exprLanguage) :
    (atomOf p).Reads atomLanguage := by
  have hchoice : atomOf p = orElse (orElse (map var name) (map const number))
      (seqLeft (seqRight (symbol '(') p) (symbol ')')) := rfl
  rw [hchoice]
  have hname := reads_map var (reads_token nameOf?)
  have hnumber := reads_map const (reads_token numberOf?)
  have hparens := reads_before (.symbol ')') (reads_after (.symbol '(') hp)
  apply (reads_orElse (reads_orElse hname hnumber) hparens).congr
  intro u e
  constructor
  · rintro ((⟨_, hx, rfl⟩ | ⟨_, hk, rfl⟩) | ⟨_, rfl, _, rfl, d, rfl, rfl⟩)
    · obtain ⟨x, rfl, rfl⟩ := (name_token_iff _ _).mp hx
      exact ⟨.name x, rfl, rfl⟩
    · obtain ⟨n, rfl, rfl⟩ := (number_token_iff _ _).mp hk
      exact ⟨.number n, rfl, rfl⟩
    · exact ⟨.parens d, rfl, rfl⟩
  · rintro ⟨d, rfl, rfl⟩
    cases d with
    | name x => exact .inl (.inl ⟨_, (name_token_iff _ _).mpr ⟨x, rfl, rfl⟩, rfl⟩)
    | number n => exact .inl (.inr ⟨_, (number_token_iff _ _).mpr ⟨n, rfl, rfl⟩, rfl⟩)
    | parens d => exact .inr ⟨_, rfl, _, rfl, d, rfl, rfl⟩

/-- The parser of terms reads their language. -/
theorem reads_termOf {p : Parser Token Expr} (hp : p.Reads exprLanguage) :
    (termOf p).Reads termLanguage := by
  apply (reads_orElse (reads_letOf hp) (reads_atomOf hp)).congr
  intro u e
  constructor
  · rintro (⟨d, rfl, rfl⟩ | ⟨d, rfl, rfl⟩)
    · exact ⟨.letIn d, rfl, rfl⟩
    · exact ⟨.atom d, rfl, rfl⟩
  · rintro ⟨d | d, rfl, rfl⟩
    · exact .inl ⟨d, rfl, rfl⟩
    · exact .inr ⟨d, rfl, rfl⟩

/-- A row of atoms behind `+` signs, followed by a continuation, is a continuation. -/
private theorem rest_of_many {u : List Token} {es : List Expr}
    (h : Language.Many (.after (.symbol '+') atomLanguage) u es) (last : RestDerivation) :
    ∃ d : RestDerivation, d.tokens = u ++ last.tokens ∧ d.value = es ++ last.value := by
  induction h with
  | nil => exact ⟨last, rfl, rfl⟩
  | cons ha _ ih =>
    obtain ⟨_, rfl, a, rfl, rfl⟩ := ha
    obtain ⟨d, hd, hv⟩ := ih
    refine ⟨.atom a d, ?_, ?_⟩
    · rw [RestDerivation.tokens, hd]
      simp
    · rw [RestDerivation.value, hv, List.cons_append]

/-- A continuation is a row of atoms behind `+` signs, followed by a local definition or nothing. -/
private theorem many_of_rest : ∀ d : RestDerivation, ∃ u v es fs,
    d.tokens = u ++ v ∧ d.value = es ++ fs ∧
      Language.Many (.after (.symbol '+') atomLanguage) u es ∧
      Language.orElse (.map ([·]) (.after (.symbol '+') letLanguage)) (.pure []) v fs
  | .nil => ⟨[], [], [], [], rfl, rfl, .nil, .inr ⟨rfl, rfl⟩⟩
  | .letIn d => ⟨[], _, [], _, rfl, rfl, .nil, .inl ⟨_, ⟨_, rfl, d, rfl, rfl⟩, rfl⟩⟩
  | .atom a d => by
    obtain ⟨u, v, es, fs, hd, hv, hm, hl⟩ := many_of_rest d
    refine ⟨.symbol '+' :: a.tokens ++ u, v, a.value :: es, fs, ?_, ?_, ?_, hl⟩
    · rw [RestDerivation.tokens, hd]
      simp
    · rw [RestDerivation.value, hv, List.cons_append]
    · exact .cons ⟨_, rfl, a, rfl, rfl⟩ hm

/-- The parser of continuations reads their language. -/
theorem reads_restOf {p : Parser Token Expr} (hp : p.Reads exprLanguage) :
    (restOf p).Reads restLanguage := by
  have hatoms := reads_many (reads_after (.symbol '+') (reads_atomOf hp))
  have hlet := reads_map (fun e : Expr ↦ [e]) (reads_after (.symbol '+') (reads_letOf hp))
  apply (reads_map₂ _ hatoms (reads_orElse hlet (reads_pure []))).congr
  intro u es
  constructor
  · rintro ⟨⟨_, _⟩, ⟨u, v, rfl, hm, ⟨_, ⟨_, rfl, d, rfl, rfl⟩, rfl⟩ | ⟨rfl, rfl⟩⟩, rfl⟩
    · obtain ⟨d', hd, hv⟩ := rest_of_many hm (.letIn d)
      exact ⟨d', hd, hv⟩
    · obtain ⟨d', hd, hv⟩ := rest_of_many hm .nil
      exact ⟨d', hd, hv⟩
  · rintro ⟨d, rfl, rfl⟩
    obtain ⟨u, v, es, fs, hd, hv, hm, hl⟩ := many_of_rest d
    exact ⟨(es, fs), ⟨u, v, hd, hm, hl⟩, hv.symm⟩

/-- The parser of expressions reads their language if the parser of the nested ones does. -/
theorem reads_exprOf {p : Parser Token Expr} (hp : p.Reads exprLanguage) :
    (exprOf p).Reads exprLanguage := by
  have hsum := reads_map₂ sum (reads_atomOf hp) (reads_restOf hp)
  apply (reads_orElse (reads_letOf hp) hsum).congr
  intro u e
  constructor
  · rintro (⟨d, rfl, rfl⟩ | ⟨⟨_, _⟩, ⟨_, _, rfl, ⟨a, rfl, rfl⟩, ⟨c, rfl, rfl⟩⟩, rfl⟩)
    · exact ⟨.letIn d, rfl, rfl⟩
    · exact ⟨.sum a c, rfl, rfl⟩
  · rintro ⟨d | ⟨a, c⟩, rfl, rfl⟩
    · exact .inl ⟨d, rfl, rfl⟩
    · exact .inr ⟨(a.value, c.value), ⟨_, _, rfl, ⟨a, rfl, rfl⟩, ⟨c, rfl, rfl⟩⟩, rfl⟩

/-- The parser of expressions reads their language, whatever the room. -/
theorem parser_reads (room : Nat) : (parser room).Reads exprLanguage := by
  induction room with
  | zero =>
    -- Without room there are no results, and no run ends without a fault.
    exact ⟨fun hm ↦ absurd hm List.not_mem_nil, fun he ↦ nomatch he⟩
  | succ room ih => exact reads_exprOf ih

/-! ### The room that a run needs -/

/-- Whether the token opens a nested expression. -/
def opens : Token → Bool
  | .symbol c => c == '('
  | .identifier w => w == "let"
  | .number _ => false

/-- The number of tokens that open a nested expression. -/
def openings (ts : List Token) : Nat := ts.countP opens

/-- A suffix of the tokens has no more openings than the tokens. -/
theorem openings_le_of_suffix {vs ts : List Token} (h : vs <:+ ts) : openings vs ≤ openings ts :=
  h.sublist.countP_le

/-- An opening in front adds one to the openings. -/
theorem openings_cons_of_opens {t : Token} (h : opens t = true) (ts : List Token) :
    openings (t :: ts) = openings ts + 1 := List.countP_cons_of_pos h

/-- `us` is a suffix of the tokens with an opening somewhere in front of it. -/
def BehindOpening (ts us : List Token) : Prop :=
  ∃ t vs, opens t = true ∧ t :: vs <:+ ts ∧ us <:+ vs

/-- Being behind an opening of a suffix implies being behind an opening of the tokens. -/
theorem BehindOpening.of_suffix {ts vs us : List Token} (h : BehindOpening vs us)
    (hvs : vs <:+ ts) : BehindOpening ts us := by
  obtain ⟨t, ws, ht, hws, hus⟩ := h
  exact ⟨t, ws, ht, hws.trans hvs, hus⟩

/-- Tokens behind an opening are a suffix. -/
theorem BehindOpening.suffix {ts us : List Token} (h : BehindOpening ts us) : us <:+ ts := by
  obtain ⟨t, vs, -, hvs, hus⟩ := h
  exact hus.trans ((List.suffix_cons t vs).trans hvs)

/-- Tokens behind an opening have fewer openings. -/
theorem BehindOpening.openings_lt {ts us : List Token} (h : BehindOpening ts us) :
    openings us < openings ts := by
  obtain ⟨t, vs, ht, hvs, hus⟩ := h
  have hle : openings (t :: vs) ≤ openings ts := openings_le_of_suffix hvs
  rw [openings_cons_of_opens ht] at hle
  exact Nat.lt_of_le_of_lt (openings_le_of_suffix hus) (Nat.lt_of_succ_le hle)

/-- Every fault of `q` is a fault of `p` on some tokens behind an opening. -/
def FaultsBehind {α : Type} (q : Parser Token α) (p : Parser Token Expr) : Prop :=
  ∀ ts fault, (q.run ts).ending = .some fault →
    ∃ us, BehindOpening ts us ∧ (p.run us).ending = .some fault

section FaultsBehind

variable {α β : Type} {p : Parser Token Expr}

/-- A parser without faults faults behind openings only. -/
theorem faultsBehind_of_endsOn {q : Parser Token α} (h : ∀ ts, q.EndsOn ts) :
    FaultsBehind q p := by
  intro ts fault hf
  rw [h ts] at hf
  cases hf

/-- Alternatives fault behind openings only if both do. -/
theorem FaultsBehind.orElse {q r : Parser Token α} (hq : FaultsBehind q p)
    (hr : FaultsBehind r p) : FaultsBehind (orElse q r) p := by
  intro ts fault h
  rw [run_orElse, Trace.ending_append, Option.or_eq_some_iff] at h
  rcases h with h | ⟨-, h⟩
  · exact hq ts fault h
  · exact hr ts fault h

/-- Mapping the values keeps faults behind openings. -/
theorem FaultsBehind.map (f : α → β) {q : Parser Token α} (hq : FaultsBehind q p) :
    FaultsBehind (map f q) p := by
  intro ts fault h
  rw [run_map, Trace.ending_map] at h
  exact hq ts fault h

/-- A pair faults behind openings only if both parts do and the first leaves suffixes. -/
theorem FaultsBehind.pair {q : Parser Token α} {r : Parser Token β} {D : Language Token α}
    (hD : q.Reads D) (hq : FaultsBehind q p) (hr : FaultsBehind r p) :
    FaultsBehind (pair q r) p := by
  intro ts fault h
  rw [run_pair] at h
  rcases Trace.ending_flatMap_eq_some h with h | ⟨x, hx, h⟩
  · exact hq ts fault h
  · rw [Trace.ending_map] at h
    obtain ⟨us, hus, hf⟩ := hr x.2 fault h
    exact ⟨us, hus.of_suffix (hD.suffix hx), hf⟩

/-- Combining two values keeps faults behind openings. -/
theorem FaultsBehind.map₂ {γ : Type} (f : α → β → γ) {q : Parser Token α} {r : Parser Token β}
    {D : Language Token α} (hD : q.Reads D) (hq : FaultsBehind q p) (hr : FaultsBehind r p) :
    FaultsBehind (map₂ f q r) p := (hq.pair hD hr).map _

/-- A fixed token in front keeps faults behind openings. -/
theorem FaultsBehind.after (t : Token) {q : Parser Token α} (hq : FaultsBehind q p) :
    FaultsBehind (seqRight (single t) q) p := by
  intro ts fault h
  obtain ⟨vs, rfl, hf⟩ := ending_after_eq_some h
  obtain ⟨us, hus, hf⟩ := hq vs fault hf
  exact ⟨us, hus.of_suffix (List.suffix_cons t vs), hf⟩

/-- A fixed token behind keeps faults behind openings. -/
theorem FaultsBehind.before (t : Token) {q : Parser Token α} {D : Language Token α}
    (hD : q.Reads D) (hq : FaultsBehind q p) : FaultsBehind (seqLeft q (single t)) p := by
  rw [seqLeft_eq_map_pair]
  exact (hq.pair hD (faultsBehind_of_endsOn (endsOn_token _))).map _

/-- A repetition of a part that reads something faults behind openings only if the part does. -/
theorem FaultsBehind.many {q : Parser Token α} {D : Language Token α} (hD : q.Reads D)
    (hne : ∀ u a, D u a → u ≠ []) (hq : FaultsBehind q p) : FaultsBehind (many q) p := by
  intro ts fault h
  have hshort : q.Shortens ts := fun vs _ x hx ↦ ⟨hD.suffix hx, hD.length_lt hne hx⟩
  obtain ⟨vs, hvs, hf⟩ := ending_run_many hshort h
  obtain ⟨us, hus, hf⟩ := hq vs fault hf
  exact ⟨us, hus.of_suffix hvs, hf⟩

/-- An atom faults behind its parenthesis only. -/
theorem faultsBehind_atomOf (hp : p.Reads exprLanguage) : FaultsBehind (atomOf p) p := by
  have hparens : FaultsBehind (seqRight (symbol '(') p) p := by
    intro ts fault h
    obtain ⟨vs, rfl, hf⟩ := ending_after_eq_some h
    exact ⟨vs, ⟨_, vs, rfl, List.suffix_rfl, List.suffix_rfl⟩, hf⟩
  have hname : FaultsBehind (map var name) p :=
    (faultsBehind_of_endsOn (endsOn_token nameOf?)).map var
  have hnumber : FaultsBehind (map const number) p :=
    (faultsBehind_of_endsOn (endsOn_token numberOf?)).map const
  exact (hname.orElse hnumber).orElse (hparens.before _ (reads_after _ hp))

/-- A local definition faults behind its `let` only. -/
theorem faultsBehind_letOf (hp : p.Reads exprLanguage) : FaultsBehind (letOf p) p := by
  intro ts fault h
  rw [letOf, run_map, Trace.ending_map, run_pair] at h
  rcases Trace.ending_flatMap_eq_some h with h | ⟨x, hx, h⟩
  · have hname : (seqRight (keyword "let") name).EndsOn ts :=
      endsOn_after fun vs _ ↦ endsOn_token nameOf? vs
    rw [hname] at h
    cases h
  · -- What is left behind the name stands behind the `let`.
    obtain ⟨_, hu, _, rfl, t, rfl, -⟩ := (reads_after _ (reads_token nameOf?)).sound hx
    have hbehind {us : List Token} (hus : us <:+ x.2) : BehindOpening ts us := by
      refine ⟨.identifier "let", t :: x.2, rfl, ?_, hus.trans (List.suffix_cons t x.2)⟩
      rw [hu]
      exact List.suffix_rfl
    rw [Trace.ending_map, run_pair] at h
    rcases Trace.ending_flatMap_eq_some h with h | ⟨y, hy, h⟩
    · obtain ⟨us, hus, hf⟩ := ending_after_eq_some h
      exact ⟨us, hbehind (hus ▸ List.suffix_cons _ us), hf⟩
    · rw [Trace.ending_map] at h
      obtain ⟨us, hus, hf⟩ := ending_after_eq_some h
      have hsuffix : us <:+ y.2 := hus ▸ List.suffix_cons _ us
      exact ⟨us, hbehind (hsuffix.trans ((reads_after _ hp).suffix hy)), hf⟩

/-- A term faults behind openings only. -/
theorem faultsBehind_termOf (hp : p.Reads exprLanguage) : FaultsBehind (termOf p) p :=
  (faultsBehind_letOf hp).orElse (faultsBehind_atomOf hp)

/-- A continuation faults behind openings only. -/
theorem faultsBehind_restOf (hp : p.Reads exprLanguage) : FaultsBehind (restOf p) p := by
  have hatom := reads_after (.symbol '+') (reads_atomOf hp)
  have hatoms := ((faultsBehind_atomOf hp).after (.symbol '+')).many hatom (by
    rintro _ _ ⟨v, rfl, -⟩
    exact List.cons_ne_nil _ _)
  have hlet := (((faultsBehind_letOf hp).after (.symbol '+')).map fun e ↦ [e]).orElse
    (faultsBehind_of_endsOn (endsOn_pure []))
  exact hatoms.map₂ _ (reads_many hatom) hlet

/-- An expression faults behind openings only. -/
theorem faultsBehind_exprOf (hp : p.Reads exprLanguage) : FaultsBehind (exprOf p) p :=
  (faultsBehind_letOf hp).orElse
    ((faultsBehind_atomOf hp).map₂ sum (reads_atomOf hp) (faultsBehind_restOf hp))

/-- A parser that faults behind openings only ends without a fault on at most `room` openings if the
nested parser does on fewer. -/
theorem FaultsBehind.endsOn {q : Parser Token α} (hq : FaultsBehind q p) {room : Nat}
    (hroom : ∀ {us}, openings us < room → p.EndsOn us) {ts : List Token}
    (h : openings ts ≤ room) : q.EndsOn ts := by
  cases he : (q.run ts).ending with
  | none => exact he
  | some fault =>
    obtain ⟨us, hus, hf⟩ := hq ts fault he
    rw [hroom (Nat.lt_of_lt_of_le hus.openings_lt h)] at hf
    cases hf

end FaultsBehind

/-- With more room than openings, the parser of expressions ends without a fault. -/
theorem parser_endsOn {room : Nat} {ts : List Token} (h : openings ts < room) :
    (parser room).EndsOn ts := by
  induction room generalizing ts with
  | zero => exact absurd h (Nat.not_lt_zero _)
  | succ room ih =>
    exact (faultsBehind_exprOf (parser_reads room)).endsOn ih (Nat.le_of_lt_succ h)

/-- With more room than openings, the parsers of all parts end without a fault. -/
theorem parts_endsOn {room : Nat} {ts : List Token} (h : openings ts < room) :
    (letOf (parser room)).EndsOn ts ∧ (atomOf (parser room)).EndsOn ts ∧
      (termOf (parser room)).EndsOn ts ∧ (restOf (parser room)).EndsOn ts := by
  have hp := parser_reads room
  have hle := Nat.le_of_lt h
  constructor
  · exact (faultsBehind_letOf hp).endsOn parser_endsOn hle
  constructor
  · exact (faultsBehind_atomOf hp).endsOn parser_endsOn hle
  constructor
  · exact (faultsBehind_termOf hp).endsOn parser_endsOn hle
  · exact (faultsBehind_restOf hp).endsOn parser_endsOn hle

/-! ### The only fault of a run -/

section Fault

variable {p : Parser Token Expr} (hp : p.OnlyOverflows)

include hp

/-- Local definitions fault on overflow only, if nested expressions do. -/
theorem onlyOverflows_letOf : (letOf p).OnlyOverflows :=
  onlyOverflows_map _ (onlyOverflows_pair
    (onlyOverflows_after _ (onlyOverflows_of_endsOn (endsOn_token nameOf?)))
    (onlyOverflows_pair (onlyOverflows_after _ hp) (onlyOverflows_after _ hp)))

/-- Atoms fault on overflow only, if nested expressions do. -/
theorem onlyOverflows_atomOf : (atomOf p).OnlyOverflows :=
  onlyOverflows_orElse
    (onlyOverflows_orElse
      (onlyOverflows_map _ (onlyOverflows_of_endsOn (endsOn_token nameOf?)))
      (onlyOverflows_map _ (onlyOverflows_of_endsOn (endsOn_token numberOf?))))
    (onlyOverflows_before _ (onlyOverflows_after _ hp))

/-- Terms fault on overflow only, if nested expressions do. -/
theorem onlyOverflows_termOf : (termOf p).OnlyOverflows :=
  onlyOverflows_orElse (onlyOverflows_letOf hp) (onlyOverflows_atomOf hp)

/-- Continuations fault on overflow only, if nested expressions do. -/
theorem onlyOverflows_restOf : (restOf p).OnlyOverflows :=
  onlyOverflows_map₂ _
    (onlyOverflows_many (onlyOverflows_after _ (onlyOverflows_atomOf hp)))
    (onlyOverflows_orElse
      (onlyOverflows_map _ (onlyOverflows_after _ (onlyOverflows_letOf hp)))
      (onlyOverflows_of_endsOn (endsOn_pure [])))

/-- Expressions fault on overflow only, if nested expressions do. -/
theorem onlyOverflows_exprOf : (exprOf p).OnlyOverflows :=
  onlyOverflows_orElse (onlyOverflows_letOf hp)
    (onlyOverflows_map₂ _ (onlyOverflows_atomOf hp) (onlyOverflows_restOf hp))

end Fault

/-- Expressions fault on overflow only, whatever the room. -/
theorem parser_onlyOverflows (room : Nat) : (parser room).OnlyOverflows := by
  induction room with
  | zero =>
    intro ts fault h
    exact (Option.some.inj h).symm
  | succ room ih => exact onlyOverflows_exprOf ih

/-! ### Recognition -/

/-- A parser that faults on overflow only, and ends wherever the room exceeds the openings, faults
only where the room does not exceed them. -/
theorem fault_of_onlyOverflows {α : Type} {p : Parser Token α} {room : Nat} {ts : List Token}
    (hf : p.OnlyOverflows) (hroom : openings ts < room → p.EndsOn ts) {f : Fault}
    (h : p.results ts = .error f) : f = .overflow ∧ room ≤ openings ts := by
  have he := results_eq_error_iff.mp h
  refine ⟨hf _ _ he, Nat.le_of_not_lt fun hlt ↦ ?_⟩
  rw [hroom hlt] at he
  cases he

/-- With so much room, the results of `p` on the tokens are the phrases of `D` that begin the
tokens. The only fault is an overflow, and only where the room does not exceed the openings. -/
structure Recognises {α : Type} (p : Parser Token α) (D : Language Token α) (room : Nat)
    (ts : List Token) : Prop where
  /-- The results are the phrases, each with its leftover. -/
  mem_iff : ∀ rs, p.results ts = .ok rs → ∀ a r, (a, r) ∈ rs ↔ ∃ u, ts = u ++ r ∧ D u a
  /-- Any fault is an overflow where the room does not exceed the openings. -/
  fault : ∀ f, p.results ts = .error f → f = .overflow ∧ room ≤ openings ts

/-- A parser that reads a language, and faults on overflow only, recognises the language. -/
private theorem recognises_of_reads {α : Type} {p : Parser Token α} {D : Language Token α}
    {room : Nat} {ts : List Token} (hp : p.Reads D) (hf : p.OnlyOverflows)
    (hroom : openings ts < room → p.EndsOn ts) : Recognises p D room ts where
  mem_iff _ h _ _ := hp.mem_results_iff h
  fault _ h := fault_of_onlyOverflows hf hroom h

/-- The parsers of expressions, local definitions, atoms, terms and continuations recognise the
grammar, on all tokens and with any room. -/
theorem recognises_grammar (room : Nat) (ts : List Token) :
    Recognises (parser room) exprLanguage room ts ∧
      Recognises (letOf (parser room)) letLanguage room ts ∧
      Recognises (atomOf (parser room)) atomLanguage room ts ∧
      Recognises (termOf (parser room)) termLanguage room ts ∧
      Recognises (restOf (parser room)) restLanguage room ts := by
  have hp := parser_reads room
  have hf := parser_onlyOverflows room
  exact ⟨recognises_of_reads hp hf parser_endsOn,
    recognises_of_reads (reads_letOf hp) (onlyOverflows_letOf hf) fun h ↦ (parts_endsOn h).1,
    recognises_of_reads (reads_atomOf hp) (onlyOverflows_atomOf hf) fun h ↦ (parts_endsOn h).2.1,
    recognises_of_reads (reads_termOf hp) (onlyOverflows_termOf hf)
      fun h ↦ (parts_endsOn h).2.2.1,
    recognises_of_reads (reads_restOf hp) (onlyOverflows_restOf hf)
      fun h ↦ (parts_endsOn h).2.2.2⟩

end Backtrack.Expr
