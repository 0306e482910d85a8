import Backtrack.Expr.Source
import Backtrack.Proofs.Expr.Order
import Backtrack.Proofs.Token.Canonical

/-!
# Printing and reading

The source text of an expression reads back as this expression and no other, provided that its
names are words that are not reserved and its constants are numbers of few enough digits. The
same holds of the source text with more parentheses around any of its parts. All expressions that
are read from a text are of this kind.
-/

namespace Backtrack.Expr

open Backtrack.Parser Token

/-! ### Expressions that can be printed -/

/-- A canonical identifier that is not reserved. -/
def IsName (x : String) : Prop := isWord x.toList = true ∧ isReserved x = false

/-- An expression whose source text reads back. -/
def Printable : Expr → Prop
  | var x => IsName x
  | const k => 0 ≤ k ∧ (Text.Numeral.digits k.natAbs).length ≤ Text.Numeral.limit
  | add a b => a.Printable ∧ b.Printable
  | letIn x e b => IsName x ∧ e.Printable ∧ b.Printable

/-- Every constant of a printable expression can be written. -/
theorem Printable.isWritable {e : Expr} (h : e.Printable) : e.isWritable = true := by
  induction e with
  | var x => rfl
  | const k => exact decide_eq_true h.2
  | add a b iha ihb => rw [Expr.isWritable, iha h.1, ihb h.2, Bool.and_self]
  | letIn x e b ihe ihb => rw [Expr.isWritable, ihe h.2.1, ihb h.2.2, Bool.and_self]

/-- The text is the source of the expression, with any number of additional parentheses around
the source of any part. -/
inductive Written : Expr → String → Prop where
  /-- A name is written as it is. -/
  | var (x : String) : Written (var x) x
  /-- A constant is written as its numeral. -/
  | const (k : Int) : Written (const k) (String.ofList (Text.Numeral.ofInt k))
  /-- A sum stands in parentheses. -/
  | add {a b : Expr} {s t : String} (ha : Written a s) (hb : Written b t) :
    Written (add a b) ("(" ++ s ++ " + " ++ t ++ ")")
  /-- A local definition stands in parentheses. -/
  | letIn (x : String) {e b : Expr} {s t : String} (he : Written e s) (hb : Written b t) :
    Written (letIn x e b) ("(let " ++ x ++ " = " ++ s ++ " in " ++ t ++ ")")
  /-- More parentheses. -/
  | parens {e : Expr} {s : String} (he : Written e s) : Written e ("(" ++ s ++ ")")

/-- The source of a name is the name. -/
theorem source_var (x : String) : source (var x) = x := by
  simp [source, sourceOnto, sourceOpen]

/-- The source of a constant is its numeral. -/
theorem source_const (k : Int) : source (const k) = String.ofList (Text.Numeral.ofInt k) := by
  simp [source, sourceOnto, sourceOpen]

/-- The source of a sum is that of its operands around `+`, in parentheses. -/
theorem source_add (a b : Expr) :
    source (add a b) = "(" ++ source a ++ " + " ++ source b ++ ")" := by
  apply String.toList_inj.mp
  simp only [source, sourceOnto, sourceOnto_eq a 1, sourceOnto_eq b 0 [')'], sourceOpen,
    String.toList_ofList, String.toList_append]
  simp

/-- The source of a local definition has the name and the sources of both parts, in parentheses. -/
theorem source_letIn (x : String) (e b : Expr) :
    source (letIn x e b) = "(let " ++ x ++ " = " ++ source e ++ " in " ++ source b ++ ")" := by
  apply String.toList_inj.mp
  simp only [source, sourceOnto, sourceOnto_eq e 0 (_ :: _), sourceOnto_eq b 0 [')'], sourceOpen,
    String.toList_ofList, String.toList_append]
  simp

/-- The source text is written for its expression without additional parentheses. -/
theorem written_source (e : Expr) : Written e (source e) := by
  induction e with
  | var x =>
    rw [source_var]
    exact .var x
  | const k =>
    rw [source_const]
    exact .const k
  | add a b iha ihb =>
    rw [source_add]
    exact .add iha ihb
  | letIn x e b ihe ihb =>
    rw [source_letIn]
    exact .letIn x ihe ihb

/-! ### What is written is derived -/

/-- An atom as an expression with no further operand. -/
def AtomDerivation.expr (a : AtomDerivation) : ExprDerivation := .sum a .nil

/-- An atom and its expression have the same tokens. -/
theorem AtomDerivation.tokens_expr (a : AtomDerivation) : a.expr.tokens = a.tokens := by
  rw [AtomDerivation.expr, ExprDerivation.tokens, RestDerivation.tokens, List.append_nil]

/-- An atom and its expression have the same value. -/
theorem AtomDerivation.value_expr (a : AtomDerivation) : a.expr.value = a.value := by
  rw [AtomDerivation.expr, ExprDerivation.value, RestDerivation.value]
  rfl

private theorem isMark_of_mem {c : Char} (h : c ∈ ['(', ')', '+', '=']) : isMark c = true := by
  simp only [List.mem_cons, List.not_mem_nil, or_false] at h
  rcases h with rfl | rfl | rfl | rfl <;> simp [isMark, Text.isBlank]

/-- A text in parentheses spells the tokens of the text in parentheses. -/
private theorem spells_parens {cs : List Char} {ts : List Token} (h : Spells cs ts) :
    Spells ('(' :: (cs ++ [')'])) (.symbol '(' :: (ts ++ [.symbol ')'])) := by
  have hclose : Spells [')'] [.symbol ')'] := .symbol_cons (isMark_of_mem (by simp)) spells_nil
  exact .symbol_cons (isMark_of_mem (by simp)) (h.append (by decide) hclose)

/-- A name spells the tokens of an atom. -/
private theorem spells_name {x : String} (hx : IsName x) :
    Spells x.toList (AtomDerivation.name ⟨x, hx.2⟩).tokens := spells_identifier hx.1

/-- A sum of two atoms in parentheses spells the tokens of an atom. -/
private theorem spells_add {s t : String} {a b : AtomDerivation} (ha : Spells s.toList a.tokens)
    (hb : Spells t.toList b.tokens) :
    Spells ("(" ++ s ++ " + " ++ t ++ ")").toList
      (AtomDerivation.parens (.sum a (.atom b .nil))).tokens := by
  have hplus : Spells (' ' :: '+' :: ' ' :: t.toList) (.symbol '+' :: b.tokens) :=
    .blank_cons isBlank_space
      (.symbol_cons (isMark_of_mem (by simp)) (.blank_cons isBlank_space hb))
  have hsum := spells_parens (ha.append (by decide) hplus)
  simpa [AtomDerivation.tokens, ExprDerivation.tokens, RestDerivation.tokens] using hsum

/-- A local definition of two atoms in parentheses spells the tokens of an atom. -/
private theorem spells_letIn {x s t : String} {e b : AtomDerivation} (hx : IsName x)
    (he : Spells s.toList e.tokens) (hb : Spells t.toList b.tokens) :
    Spells ("(let " ++ x ++ " = " ++ s ++ " in " ++ t ++ ")").toList
      (AtomDerivation.parens (.letIn (.letIn ⟨x, hx.2⟩ e.expr b.expr))).tokens := by
  have hkeyword : Spells "in".toList [.identifier "in"] := spells_identifier (by decide)
  have hin : Spells (' ' :: ("in".toList ++ ' ' :: t.toList)) (.identifier "in" :: b.tokens) :=
    .blank_cons isBlank_space (hkeyword.append (by decide) (.blank_cons isBlank_space hb))
  have heq : Spells (' ' :: '=' :: ' ' :: (s.toList ++ ' ' :: ("in".toList ++ ' ' :: t.toList)))
      (.symbol '=' :: (e.tokens ++ .identifier "in" :: b.tokens)) :=
    .blank_cons isBlank_space (.symbol_cons (isMark_of_mem (by simp))
      (.blank_cons isBlank_space (he.append (by decide) hin)))
  have hbegin : Spells "let".toList [.identifier "let"] := spells_identifier (by decide)
  have hlet := spells_parens (hbegin.append (by decide)
    (.blank_cons isBlank_space ((spells_identifier hx.1).append (by decide) heq)))
  simpa [AtomDerivation.tokens, ExprDerivation.tokens, LetDerivation.tokens,
    AtomDerivation.tokens_expr] using hlet

/-- A text written for an expression spells the tokens of an atom with this value. -/
theorem Written.spells {e : Expr} {s : String} (h : Written e s) (he : e.Printable) :
    ∃ a : AtomDerivation, a.value = e ∧ Spells s.toList a.tokens := by
  induction h with
  | var x => exact ⟨.name ⟨x, he.2⟩, by rw [AtomDerivation.value], spells_name he⟩
  | const k =>
    obtain ⟨hk, hlimit⟩ := he
    obtain ⟨n, rfl⟩ := Int.eq_ofNat_of_zero_le hk
    refine ⟨.number n, by rw [AtomDerivation.value], ?_⟩
    rw [String.toList_ofList]
    exact spells_number hlimit
  | add ha hb iha ihb =>
    obtain ⟨a, rfl, hsa⟩ := iha he.1
    obtain ⟨b, rfl, hsb⟩ := ihb he.2
    exact ⟨_, by simp only [AtomDerivation.value, ExprDerivation.value, RestDerivation.value]; rfl,
      spells_add hsa hsb⟩
  | letIn x hb hbody ihe ihb =>
    obtain ⟨e, rfl, hse⟩ := ihe he.2.1
    obtain ⟨b, rfl, hsb⟩ := ihb he.2.2
    exact ⟨_, by simp only [AtomDerivation.value, ExprDerivation.value, LetDerivation.value,
      AtomDerivation.value_expr], spells_letIn he.1 hse hsb⟩
  | parens h ih =>
    obtain ⟨a, rfl, hs⟩ := ih he
    refine ⟨.parens a.expr, by rw [AtomDerivation.value, AtomDerivation.value_expr], ?_⟩
    have hp := spells_parens hs
    simpa [AtomDerivation.tokens, AtomDerivation.tokens_expr] using hp

/-! ### What is derived can be printed -/

private theorem Name.isName (x : Name) (h : (Token.identifier x.text).Canonical) :
    IsName x.text := ⟨h, x.isReserved_text⟩

private theorem printable_sum {first : Expr} {rest : List Expr} (hfirst : first.Printable)
    (hrest : ∀ e ∈ rest, e.Printable) : (sum first rest).Printable := by
  induction rest generalizing first with
  | nil => exact hfirst
  | cons e rest ih =>
    exact ih ⟨hfirst, hrest e List.mem_cons_self⟩
      fun e' he' ↦ hrest e' (List.mem_cons_of_mem e he')

mutual

/-- An expression derived from canonical tokens is printable. -/
theorem ExprDerivation.printable : ∀ (d : ExprDerivation),
    (∀ t ∈ d.tokens, t.Canonical) → d.value.Printable
  | .letIn d, h => d.printable h
  | .sum a c, h => by
    rw [ExprDerivation.tokens] at h
    exact printable_sum (a.printable fun t ht ↦ h t (List.mem_append_left _ ht))
      (c.printable fun t ht ↦ h t (List.mem_append_right _ ht))

/-- A local definition derived from canonical tokens is printable. -/
theorem LetDerivation.printable : ∀ (d : LetDerivation),
    (∀ t ∈ d.tokens, t.Canonical) → d.value.Printable
  | .letIn x e b, h => by
    simp only [LetDerivation.tokens, List.mem_cons, List.mem_append] at h
    exact ⟨x.isName (h _ (.inr (.inl rfl))), e.printable fun t ht ↦ h t (by simp [ht]),
      b.printable fun t ht ↦ h t (by simp [ht])⟩

/-- An atom derived from canonical tokens is printable. -/
theorem AtomDerivation.printable : ∀ (d : AtomDerivation),
    (∀ t ∈ d.tokens, t.Canonical) → d.value.Printable
  | .name x, h => x.isName (h _ List.mem_cons_self)
  | .number n, h => ⟨Int.natCast_nonneg n, h _ List.mem_cons_self⟩
  | .parens d, h => by
    simp only [AtomDerivation.tokens, List.mem_cons, List.mem_append] at h
    exact d.printable fun t ht ↦ h t (.inr (.inl ht))

/-- Every operand of a continuation derived from canonical tokens is printable. -/
theorem RestDerivation.printable : ∀ (d : RestDerivation),
    (∀ t ∈ d.tokens, t.Canonical) → ∀ e ∈ d.value, e.Printable
  | .nil, _, e, he => absurd he List.not_mem_nil
  | .atom a c, h, e, he => by
    simp only [RestDerivation.tokens, List.mem_cons, List.mem_append] at h
    rcases List.mem_cons.mp he with rfl | he
    · exact a.printable fun t ht ↦ h t (.inr (.inl ht))
    · exact c.printable (fun t ht ↦ h t (.inr (.inr ht))) e he
  | .letIn d, h, e, he => by
    rw [List.mem_singleton.mp he]
    exact d.printable fun t ht ↦ h t (List.mem_cons_of_mem _ ht)

end

/-- Every result of reading a scanned text is printable. -/
theorem printable_of_mem_results {text : String} {ts : List Token} {room : Nat}
    {rs : List (Expr × List Token)} (hts : Token.scan text = .ok ts)
    (hrs : (parser room).results ts = .ok rs) {x : Expr × List Token} (hx : x ∈ rs) :
    x.1.Printable := by
  obtain ⟨u, rfl, d, rfl, hd⟩ := ((parser_reads room).mem_results_iff hrs).mp hx
  rw [← hd]
  exact d.printable fun t ht ↦ canonical_of_scanChars hts (List.mem_append_left _ ht)

/-! ### Reading back -/

/-- The text scans to tokens that are read as a whole as this expression and no other. The only
fault of a run is an overflow, and only where the room does not exceed the openings of the
tokens. -/
def ReadsAs (text : String) (e : Expr) : Prop :=
  ∃ ts, Token.scan text = .ok ts ∧ ∀ room, (parser room).complete ts = .ok [e] ∨
    (parser room).complete ts = .error .overflow ∧ room ≤ openings ts

/-- A text written for a printable expression reads as this expression. -/
theorem Written.readsAs {e : Expr} {text : String} (h : Written e text) (he : e.Printable) :
    ReadsAs text e := by
  obtain ⟨a, rfl, hs⟩ := h.spells he
  refine ⟨a.tokens, hs.scanChars_eq, fun room ↦ ?_⟩
  rw [← a.tokens_expr, ← a.value_expr]
  exact complete_tokens room a.expr

/-- Printing and reading are inverse. The source of a printable expression reads as this
expression, however many parentheses are added to it, and what is read from any text, as a whole
or as a beginning of it, is printable and reads back from its source. -/
theorem printing_inverts_reading :
    (∀ e, Printable e → Written e (source e) ∧ ∀ text, Written e text → ReadsAs text e) ∧
    ∀ text ts room rs, Token.scan text = .ok ts → (parser room).results ts = .ok rs →
      ∀ x ∈ rs, Printable x.1 ∧ ReadsAs (source x.1) x.1 := by
  constructor
  · intro e he
    refine ⟨written_source e, ?_⟩
    intro text h
    exact h.readsAs he
  · intro text ts room rs hts hrs x hx
    have hprintable := printable_of_mem_results hts hrs hx
    exact ⟨hprintable, (written_source x.1).readsAs hprintable⟩

end Backtrack.Expr
