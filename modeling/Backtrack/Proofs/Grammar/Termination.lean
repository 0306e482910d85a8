import Mathlib.Data.Finset.Card
import Mathlib.Logic.Relation
import Backtrack.Proofs.Grammar.Nullable
import Backtrack.Proofs.Parser.Settling

/-!
# Definitions without left recursion

A definition leads to a name if that name is opened while all the tokens are still to be read.
Where no definition leads to itself, through whatever others, all runs end: a name that is opened
without a token read has a lower rank, and otherwise there are fewer tokens. So the room that a run
needs is bounded by the number of definitions and that of the tokens, and more room changes
nothing. This is `grounded_ends`.
-/

namespace Backtrack

namespace Grammar

open Backtrack.Parser (Settles)

variable {defs : Definitions}

/-- A run of the grammar opens the name when no token has been read yet. -/
inductive Opens (defs : Definitions) (name : String) : Grammar → Prop
  /-- The name itself. -/
  | ref (label : Option String) : Opens defs name (.ref name label)
  /-- The first of two alternatives opens it. -/
  | left {p q : Grammar} : Opens defs name p → Opens defs name (.orElse p q)
  /-- The second of two alternatives opens it. -/
  | right {p q : Grammar} : Opens defs name q → Opens defs name (.orElse p q)
  /-- The first of two grammars in a row opens it. -/
  | first {join : Value → Value → Except Fault Value} {p q : Grammar} :
    Opens defs name p → Opens defs name (.seqWith join p q)
  /-- The second of two grammars in a row opens it, behind a first one without tokens. -/
  | second {join : Value → Value → Except Fault Value} {p q : Grammar} :
    Nullable defs p → Opens defs name q → Opens defs name (.seqWith join p q)
  /-- The grammar whose values are mapped opens it. -/
  | map {f : Value → Except Fault Value} {p : Grammar} :
    Opens defs name p → Opens defs name (.map f p)
  /-- The first repetition opens it. -/
  | many {p : Grammar} : Opens defs name p → Opens defs name (.many p)

/-- Alternatives open a name exactly if one of them does. -/
theorem opens_orElse_iff {name : String} {p q : Grammar} :
    Opens defs name (.orElse p q) ↔ Opens defs name p ∨ Opens defs name q := by
  constructor
  · intro h
    cases h with
    | left h => exact .inl h
    | right h => exact .inr h
  · rintro (h | h)
    · exact .left h
    · exact .right h

/-- A sequence opens a name exactly if its first part does, or the first part is nullable and the
second part does. -/
theorem opens_seqWith_iff {name : String} {join : Value → Value → Except Fault Value}
    {p q : Grammar} : Opens defs name (.seqWith join p q) ↔
      Opens defs name p ∨ Nullable defs p ∧ Opens defs name q := by
  constructor
  · intro h
    cases h with
    | first h => exact .inl h
    | second hnull h => exact .inr ⟨hnull, h⟩
  · rintro (h | ⟨hnull, h⟩)
    · exact .first h
    · exact .second hnull h

/-- Some function in the grammar gives this fault for values that its parts have found. -/
inductive Refuses (defs : Definitions) (fault : Fault) : Grammar → Prop
  /-- The first of two alternatives does. -/
  | left {p q : Grammar} : Refuses defs fault p → Refuses defs fault (.orElse p q)
  /-- The second of two alternatives does. -/
  | right {p q : Grammar} : Refuses defs fault q → Refuses defs fault (.orElse p q)
  /-- The values of two grammars in a row cannot be joined. -/
  | join {join : Value → Value → Except Fault Value} {p q : Grammar} {room : Nat}
    {ts : List Value} {x y : Value × List Value} :
    x ∈ ((p.parser (defs.meaning room)).run ts).entries →
    y ∈ ((q.parser (defs.meaning room)).run x.2).entries →
    join x.1 y.1 = .error fault → Refuses defs fault (.seqWith join p q)
  /-- The first of two grammars in a row does. -/
  | first {join : Value → Value → Except Fault Value} {p q : Grammar} :
    Refuses defs fault p → Refuses defs fault (.seqWith join p q)
  /-- The second of two grammars in a row does. -/
  | second {join : Value → Value → Except Fault Value} {p q : Grammar} :
    Refuses defs fault q → Refuses defs fault (.seqWith join p q)
  /-- A value cannot be mapped. -/
  | image {f : Value → Except Fault Value} {p : Grammar} {room : Nat} {ts : List Value}
    {x : Value × List Value} :
    x ∈ ((p.parser (defs.meaning room)).run ts).entries →
    f x.1 = .error fault → Refuses defs fault (.map f p)
  /-- The grammar whose values are mapped does. -/
  | map {f : Value → Except Fault Value} {p : Grammar} :
    Refuses defs fault p → Refuses defs fault (.map f p)
  /-- The repeated grammar does. -/
  | many {p : Grammar} : Refuses defs fault p → Refuses defs fault (.many p)

/-- The runs of all definitions settle on every proper suffix of the tokens. -/
def SettledBelow (defs : Definitions) (faults : Fault → Prop) (room : Nat) (ts : List Value) :
    Prop :=
  ∀ us, us <:+ ts → us.length < ts.length →
    ∀ name g, defs name = .ok g → Settles (fun more ↦ defs.meaning more name) faults room us

/-- Definitions that settle below the tokens settle below every suffix. -/
theorem SettledBelow.of_suffix {faults : Fault → Prop} {room : Nat} {ts vs : List Value}
    (h : SettledBelow defs faults room ts) (hvs : vs <:+ ts) : SettledBelow defs faults room vs :=
  fun us hus hlt ↦ h us (hus.trans hvs) (Nat.lt_of_lt_of_le hlt hvs.length_le)

/-- A definition that settles below the tokens settles on every suffix, if it settles on the
tokens. -/
theorem SettledBelow.settles {faults : Fault → Prop} {room : Nat} {ts vs : List Value}
    (h : SettledBelow defs faults room ts) (hvs : vs <:+ ts) {name : String} {g : Grammar}
    (hd : defs name = .ok g)
    (hall : vs = ts → Settles (fun more ↦ defs.meaning more name) faults room ts) :
    Settles (fun more ↦ defs.meaning more name) faults room vs := by
  rcases Nat.lt_or_eq_of_le hvs.length_le with hlt | heq
  · exact h vs hvs hlt name g hd
  · have hsame : vs = ts := hvs.eq_of_length heq
    rw [hsame]
    exact hall hsame

/-- The runs of a formed grammar settle, provided that all names settle on shorter suffixes and the
names opened first settle on the tokens. -/
theorem settles_of_formed (hdefs : ∀ name g, defs name = .ok g → g.Formed defs)
    {faults : Fault → Prop} {room : Nat} {ts : List Value}
    (hbelow : SettledBelow defs faults room ts) {g : Grammar} (hg : g.Formed defs)
    (hfirst : ∀ name g', defs name = .ok g' → Opens defs name g →
      Settles (fun more ↦ defs.meaning more name) faults room ts)
    (hrefuse : ∀ fault, Refuses defs fault g → faults fault) :
    Settles (fun more ↦ g.parser (defs.meaning more)) faults room ts := by
  induction g generalizing ts with
  | fail => exact Parser.settles_const fun _ h ↦ nomatch h
  | pure v label => exact Parser.settles_pure v
  | token image? label =>
    apply Parser.settles_const
    intro fault h
    have hnone := Parser.endsOn_token image? ts
    exact absurd (hnone.symm.trans h) nofun
  | orElse p q ihp ihq =>
    have hp := ihp hbelow hg.1 (fun name g' hd h ↦ hfirst name g' hd (.left h))
      fun fault h ↦ hrefuse fault (.left h)
    have hq := ihq hbelow hg.2 (fun name g' hd h ↦ hfirst name g' hd (.right h))
      fun fault h ↦ hrefuse fault (.right h)
    exact hp.orElse hq
  | seqWith join p q ihp ihq =>
    have hp := ihp hbelow hg.1 (fun name g' hd h ↦ hfirst name g' hd (.first h))
      fun fault h ↦ hrefuse fault (.first h)
    -- Behind the first part there are fewer tokens, or else it is nullable.
    have hq (x) (hx : x ∈ ((p.parser (defs.meaning room)).run ts).entries) :
        Settles (fun more ↦ q.parser (defs.meaning more)) faults room x.2 := by
      have hxs : x.2 <:+ ts := hg.1.suffix hdefs hx
      refine ihq (hbelow.of_suffix hxs) hg.2 ?_ fun fault h ↦ hrefuse fault (.second h)
      intro name g' hd hopens
      exact hbelow.settles hxs hd fun hall ↦
        hfirst name g' hd (.second (nullable_of_mem hdefs hg.1 hx hall) hopens)
    apply (hp.pair hq).tryMap
    intro c hc fault hjoin
    obtain ⟨x, hx, y, hy, rfl⟩ := Parser.exists_of_mem_pair hc
    exact hrefuse fault (.join hx hy hjoin)
  | map f p ih =>
    have hp := ih hbelow hg (fun name g' hd h ↦ hfirst name g' hd (.map h))
      fun fault h ↦ hrefuse fault (.map h)
    apply hp.tryMap
    intro x hx fault hf
    exact hrefuse fault (.image hx hf)
  | bind p next => exact absurd hg id
  | many p ih =>
    -- A later repetition starts on fewer tokens than the first.
    have hp (vs) (hvs : vs <:+ ts) :
        Settles (fun more ↦ p.parser (defs.meaning more)) faults room vs := by
      refine ih (hbelow.of_suffix hvs) hg.1 ?_ fun fault h ↦ hrefuse fault (.many h)
      intro name g' hd hopens
      exact hbelow.settles hvs hd fun _ ↦ hfirst name g' hd (.many hopens)
    have hshort : (p.parser (defs.meaning room)).Shortens ts := by
      intro vs _ x hx
      exact ⟨hg.1.suffix hdefs hx, length_lt_of_mem hdefs hg.1 hg.2 hx⟩
    exact (Settles.many hp hshort).map Value.tuple
  | ref name label =>
    obtain ⟨g', hd⟩ := hg
    exact hfirst name g' hd (.ref label)
  | failing fault kind => exact absurd hg id
  | embed p label kind => exact absurd hg id

end Grammar

/-- An acyclic relation on a finite set has a strictly decreasing rank below the number of
elements. -/
private theorem exists_rank {α : Type} {r : α → α → Prop} (s : Finset α)
    (hs : ∀ a b, r a b → a ∈ s ∧ b ∈ s) (hr : ∀ a, ¬Relation.TransGen r a a) :
    ∃ rank : α → Nat, (∀ a b, r a b → rank b < rank a) ∧ ∀ a ∈ s, rank a < s.card := by
  classical
  refine ⟨fun a ↦ (s.filter (Relation.TransGen r a)).card, ?_, ?_⟩
  · intro a b hab
    apply Finset.card_lt_card
    refine ⟨fun c hc ↦ ?_, fun hsubset ↦ ?_⟩
    · rw [Finset.mem_filter] at hc ⊢
      exact ⟨hc.1, .head hab hc.2⟩
    · have hb : b ∈ s.filter (Relation.TransGen r b) :=
        hsubset (Finset.mem_filter.mpr ⟨(hs a b hab).2, .single hab⟩)
      exact hr b (Finset.mem_filter.mp hb).2
  · intro a ha
    apply Finset.card_lt_card
    refine ⟨Finset.filter_subset _ _, fun hsubset ↦ ?_⟩
    exact hr a (Finset.mem_filter.mp (hsubset ha)).2

namespace Definitions

open Backtrack.Grammar (Opens Refuses SettledBelow)
open Backtrack.Parser (Settles)

variable {defs : Definitions}

/-- The definition of `a` opens the defined name `b` when no token has been read yet. -/
def LeadsTo (defs : Definitions) (a b : String) : Prop :=
  (∃ g, defs a = .ok g ∧ Opens defs b g) ∧ ∃ g, defs b = .ok g

/-- Every definition is formed, and none leads to itself. -/
structure Grounded (defs : Definitions) : Prop where
  /-- Names have definitions, and no repetition can succeed without tokens. -/
  formed : ∀ name g, defs name = .ok g → g.Formed defs
  /-- Before a definition is opened again, some token has been read. -/
  acyclic : ∀ name, ¬Relation.TransGen defs.LeadsTo name name

/-- A function in one of the definitions gives the fault for values that are found. -/
def Refused (defs : Definitions) (fault : Fault) : Prop :=
  ∃ name g, defs name = .ok g ∧ Refuses defs fault g

/-- The runs of a definition settle at a room of `bound` for each token and the rank of the name. -/
theorem settles_of_rank (hdefs : ∀ name g, defs name = .ok g → g.Formed defs)
    {rank : String → Nat} {bound : Nat} (hrank : ∀ a b, defs.LeadsTo a b → rank b < rank a)
    (hbound : ∀ name g, defs name = .ok g → rank name < bound) {name : String} {g : Grammar}
    (hd : defs name = .ok g) (ts : List Value) :
    Settles (fun more ↦ defs.meaning more name) defs.Refused
      (bound * ts.length + rank name + 1) ts := by
  induction hn : ts.length using Nat.strongRecOn generalizing name g ts with
  | ind n ihn =>
    induction hk : rank name using Nat.strongRecOn generalizing name g with
    | ind k ihk =>
      subst hn hk
      have hbelow : SettledBelow defs defs.Refused (bound * ts.length + rank name) ts := by
        intro us _ hlt name' g' hd'
        have hle : bound * us.length + bound ≤ bound * ts.length := by
          rw [← Nat.mul_succ]
          exact Nat.mul_le_mul_left bound hlt
        have hr := hbound name' g' hd'
        exact (ihn us.length hlt hd' us rfl).mono (by omega)
      have hfirst (name' g') (hd' : defs name' = .ok g') (hopens : Opens defs name' g) :
          Settles (fun more ↦ defs.meaning more name') defs.Refused
            (bound * ts.length + rank name) ts := by
        have hr := hrank name name' ⟨⟨g, hd, hopens⟩, g', hd'⟩
        exact (ihk (rank name') hr hd' rfl).mono (by omega)
      obtain ⟨t, hrun, hfaults⟩ := Grammar.settles_of_formed hdefs hbelow (hdefs name g hd) hfirst
        fun fault h ↦ ⟨name, g, hd, h⟩
      refine ⟨t, fun more hmore ↦ ?_, hfaults⟩
      obtain ⟨more, rfl⟩ : ∃ m, more = m + 1 := ⟨more - 1, by omega⟩
      simp only [meaning, Parser.defer_eq, hd]
      exact hrun more (by omega)

/-- A name opens without a fault if the room exceeds its rank. -/
theorem openingFault?_of_rank (hdefs : ∀ name g, defs name = .ok g → g.Formed defs)
    {rank : String → Nat} (hrank : ∀ a b, defs.LeadsTo a b → rank b < rank a) {room : Nat}
    {name : String} {g : Grammar} (hd : defs name = .ok g) (hroom : rank name < room)
    (label : Option String) : defs.openingFault? room (.ref name label) = none := by
  induction room generalizing name g label with
  | zero => exact absurd hroom (Nat.not_lt_zero _)
  | succ room ih =>
    have hg := hdefs name g hd
    simp only [openingFault?, hd]
    cases g with
    | ref name' label' =>
      obtain ⟨g', hd'⟩ := hg
      have hr := hrank name name' ⟨⟨_, hd, .ref label'⟩, g', hd'⟩
      exact ih hd' (by omega) label'
    | failing fault kind => exact absurd hg id
    | _ => simp only [openingFault?]

/-- Every defined name is listed. -/
theorem mem_of_ofList {entries : List (String × Except Fault Grammar)} {name : String}
    {g : Grammar} (hd : ofList entries name = .ok g) : name ∈ entries.map Prod.fst := by
  by_contra hmem
  have hnone : entries.lookup name = none := by
    rw [List.lookup_eq_none_iff]
    intro entry hentry
    rw [bne_iff_ne]
    rintro rfl
    exact hmem (List.mem_map_of_mem hentry)
  rw [ofList, hnone] at hd
  cases hd

/-- Definitions without left recursion end. Whatever the tokens, a run of any of them is the same
with all the room that there may be from some room on, which grows with the number of definitions
and that of the tokens: it can be opened, it has finitely many results, and then it ends by itself,
if no function refuses a value that it meets. -/
theorem grounded_ends (entries : List (String × Except Fault Grammar))
    (hdefs : (ofList entries).Grounded) {name : String} {g : Grammar}
    (hd : ofList entries name = .ok g) (label : Option String) (ts : List Value) :
    ∃ t : Trace (Value × List Value),
      (∀ room, entries.length * (ts.length + 1) ≤ room →
        (ofList entries).openRun room (.ref name label) ts = .ok t) ∧
      ∀ fault, t.ending = some fault → (ofList entries).Refused fault := by
  have hmem {a : String} (h : ∃ g, ofList entries a = .ok g) :
      a ∈ (entries.map Prod.fst).toFinset := by
    obtain ⟨g, hg⟩ := h
    exact List.mem_toFinset.mpr (mem_of_ofList hg)
  have hleads (a b) (h : (ofList entries).LeadsTo a b) :
      a ∈ (entries.map Prod.fst).toFinset ∧ b ∈ (entries.map Prod.fst).toFinset := by
    obtain ⟨⟨g, hg, -⟩, hb⟩ := h
    exact ⟨hmem ⟨g, hg⟩, hmem hb⟩
  obtain ⟨rank, hrank, hlt⟩ := exists_rank _ hleads hdefs.acyclic
  have hbound (a g) (h : ofList entries a = .ok g) : rank a < entries.length := by
    have hcard : (entries.map Prod.fst).toFinset.card ≤ entries.length :=
      (List.toFinset_card_le _).trans_eq (List.length_map _)
    exact Nat.lt_of_lt_of_le (hlt a (hmem ⟨g, h⟩)) hcard
  obtain ⟨t, hrun, hfaults⟩ := settles_of_rank hdefs.formed hrank hbound hd ts
  refine ⟨t, fun room hroom ↦ ?_, hfaults⟩
  have hr := hbound name g hd
  rw [Nat.mul_succ] at hroom
  rw [openRun, openingFault?_of_rank hdefs.formed hrank hd (by omega) label]
  exact congrArg Except.ok (hrun room (by omega))

/-- Items are the token 0 and, between the tokens 1 and 2, lists of items. -/
def nestedLists : List (String × Except Fault Grammar) :=
  [("item", .ok (.orElse (.single (.int 0) "0")
      (.seqLeft (.seqRight (.single (.int 1) "1") (.ref "list" none)) (.single (.int 2) "2")))),
    ("list", .ok (.many (.ref "item" none)))]

/-- Items and lists are the only definitions. -/
private theorem ofList_nestedLists {name : String} {g : Grammar}
    (hd : ofList nestedLists name = .ok g) :
    (name = "item" ∧ g = .orElse (.single (.int 0) "0")
      (.seqLeft (.seqRight (.single (.int 1) "1") (.ref "list" none)) (.single (.int 2) "2"))) ∨
    (name = "list" ∧ g = .many (.ref "item" none)) := by
  have hname := mem_of_ofList hd
  simp only [nestedLists, List.map_cons, List.map_nil, List.mem_cons, List.not_mem_nil,
    or_false] at hname
  rcases hname with rfl | rfl
  · exact .inl ⟨rfl, (Except.ok.inj hd).symm⟩
  · exact .inr ⟨rfl, (Except.ok.inj hd).symm⟩

/-- Of the two definitions that need one another, the list leads to the item, and the item, which
reads a token first, to nothing. So both end on all tokens. -/
theorem grounded_ends_nestedLists :
    (ofList nestedLists).Grounded ∧ ∃ t : Trace (Value × List Value),
      ∀ room, 8 ≤ room → (ofList nestedLists).openRun room (.ref "list" none)
        [.int 1, .int 0, .int 2] = .ok t := by
  have hitem : ¬Grammar.Nullable (ofList nestedLists) (.ref "item" none) := by
    rintro (_ | _ | _ | _ | _ | _ | ⟨hd, hnull⟩)
    obtain ⟨-, rfl⟩ | ⟨hname, -⟩ := ofList_nestedLists hd
    · rcases Grammar.nullable_orElse_iff.mp hnull with h | h
      · nomatch h
      · nomatch (Grammar.nullable_seqWith_iff.mp h).2
    · exact absurd hname (by decide)
  have hleads {a b} (h : (ofList nestedLists).LeadsTo a b) : a = "list" ∧ b = "item" := by
    obtain ⟨⟨g, hd, hopens⟩, -⟩ := h
    obtain ⟨-, rfl⟩ | ⟨rfl, rfl⟩ := ofList_nestedLists hd
    · rcases Grammar.opens_orElse_iff.mp hopens with h | h
      · nomatch h
      · rcases Grammar.opens_seqWith_iff.mp h with h | ⟨-, h⟩
        · rcases Grammar.opens_seqWith_iff.mp h with h | ⟨hnull, -⟩
          · nomatch h
          · nomatch hnull
        · nomatch h
    · cases hopens with
      | many h =>
        cases h
        exact ⟨rfl, rfl⟩
  have hgrounded : (ofList nestedLists).Grounded := by
    constructor
    · intro name g hd
      obtain ⟨-, rfl⟩ | ⟨-, rfl⟩ := ofList_nestedLists hd
      · exact ⟨trivial, ⟨trivial, _, rfl⟩, trivial⟩
      · exact ⟨⟨_, rfl⟩, hitem⟩
    · intro name hloop
      obtain ⟨_, hfirst, -⟩ := Relation.TransGen.head'_iff.mp hloop
      obtain ⟨_, -, hlast⟩ := Relation.TransGen.tail'_iff.mp hloop
      exact absurd ((hleads hfirst).1.symm.trans (hleads hlast).2) (by decide)
  have hlist : ofList nestedLists "list" = .ok (.many (.ref "item" none)) := rfl
  obtain ⟨t, hrun, -⟩ := grounded_ends nestedLists hgrounded hlist none [.int 1, .int 0, .int 2]
  exact ⟨hgrounded, t, hrun⟩

end Definitions
end Backtrack
