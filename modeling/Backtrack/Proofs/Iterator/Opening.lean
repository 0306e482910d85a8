import Backtrack.Proofs.Iterator.Behaviour
import Backtrack.Proofs.Parser.Combinators

/-!
# Runs of grammars in a heap

A run that is opened in a heap either shows at once the fault that keeps it from being opened, or is
a new generator that behaves as the trace of the run (`Started`). For a grammar made of others this
follows from what is opened for these, by going through the generators that open, loop and repeat.
The main statement is `starts`, for all grammars and however many names may be open inside one
another.
-/

namespace Backtrack

open Heap (Faithful Agrees Works)

/-- What opening a run of a grammar gives in a heap: a fault that shows at once, or a generator
that behaves as the run. -/
inductive Started (defs : Definitions) (ts : List Value) (room : Nat) (p : Grammar) (h : Heap) :
    Except Fault Address × Heap → Prop
  | fault {fault : Fault} {h' : Heap} (hfault : defs.openingFault? room p = some fault)
      (hrun : (p.parser (defs.meaning room)).run ts = .raised fault)
      (hw : Works defs ∅ h h' ∅) : Started defs ts room p h (.error fault, h')
  | run {a : Address} {h' : Heap} {F : Set Address} (hnone : defs.openingFault? room p = none)
      (hw : Works defs ∅ h h' F)
      (hrun : Behaves defs a ((p.parser (defs.meaning room)).run ts) h' F) :
      Started defs ts room p h (.ok a, h')

/-- Every run of a grammar is started, in every faithful heap. -/
def Starts (defs : Definitions) (room : Nat) (p : Grammar) : Prop :=
  ∀ ts h, h.Faithful defs → Started defs ts room p h (defs.start ts room p h)

variable {defs : Definitions} {a : Address} {t t' : Trace (Value × List Value)} {h h' : Heap}
  {F F' G : Set Address} {room : Nat} {p : Grammar} {ts : List Value}

/-- Starting a run preserves the behaviour of a generator and adds what is created to what it
owns. -/
theorem Starts.beside (hp : Starts defs room p) (ts : List Value) (hf : h.Faithful defs)
    (hG : G ⊆ Set.Iio h.size) :
    (∃ fault h', defs.start ts room p h = (.error fault, h') ∧
        (p.parser (defs.meaning room)).run ts = .raised fault ∧ Works defs G h h' G) ∨
      ∃ b h' F, defs.start ts room p h = (.ok b, h') ∧
        Behaves defs b ((p.parser (defs.meaning room)).run ts) h' F ∧ Disjoint F G ∧
        Agrees G h h' ∧ Works defs G h h' (F ∪ G) := by
  have hopened := hp ts h hf
  generalize defs.start ts room p h = started at hopened
  cases hopened with
  | @fault fault h' hfault hrun hw =>
    have hwG := hw.union hG
    rw [Set.empty_union] at hwG
    exact .inl ⟨fault, h', rfl, hrun, hwG⟩
  | @run b h' F hnone hw hrun =>
    have hwG := hw.union hG
    rw [Set.empty_union] at hwG
    exact .inr ⟨b, h', F, rfl, hrun, hw.disjoint (Set.empty_disjoint G) hG,
      hw.agrees (Set.empty_disjoint G) hG, hwG⟩

/-- A generator that is to draw from a run behaves as one that draws from the started run. -/
theorem behaves_entering {f : Value → Except Fault Value} {after : Generator}
    (hp : Starts defs room p)
    (ho : h.object? a = some (.generator (.entering room p ts f after)))
    (hafter : Behaves defs a t' (h.move a after) G) :
    Behaves defs a
      ((((p.parser (defs.meaning room)).run ts).tryMap fun r ↦ (f r.1).map (·, r.2)).append
        fun _ ↦ t') h G := by
  have hG : G ⊆ Set.Iio h.size := by
    have hc := hafter.covers
    rwa [Heap.size_move] at hc
  refine ⟨hafter.mem, hG, fun h' hf hag ↦ ?_⟩
  have he (n : Nat) := defs.next_entering n (hag.generator hafter.mem ho)
  rcases hp.beside ts hf (hag.covers hG) with
    ⟨fault, h₁, hstart, hrun, hw⟩ | ⟨source, h₁, F, hstart, hrun, hdisj, hag₁, hw⟩
  · simp only [hstart] at he
    rw [hrun]
    exact Answers.raise (delivers_of_next_eq_some he) hw hafter.mem
  · simp only [hstart] at he
    have hagG : Agrees G h h₁ := hag₁.trans hag
    have ha₁ : a < h₁.size := hagG.covers hG hafter.mem
    have haF : a ∉ F := fun haF ↦ Set.disjoint_left.mp hdisj haF hafter.mem
    have hafter₁ : Behaves defs a t' ((h₁.move a (.drawing source f after)).move a after) G := by
      rw [Heap.move_move]
      exact hafter.set hafter.mem ha₁ (hagG.mono Set.sdiff_subset)
    have hdrawing := behaves_drawing (hrun.of_agrees (h₁.agrees_move _ haF))
      (Heap.object?_move_self ha₁ _) hafter₁ hdisj
    exact hdrawing.gives_set (.inr hafter.mem) hw subset_rfl fun _ ↦ .of_next_eq he

/-- A generator that loops over a source gives, for each result of the source in turn, the results
of the run that `body` chooses. -/
theorem behaves_looping {source : Address} {body : Value → Grammar × (Value → Except Fault Value)}
    (hbody : ∀ v, Starts defs room (body v).1) (hs : Behaves defs source t h F)
    (ho : h.object? a = some (.generator (.looping source room body))) (ha : a ∉ F) :
    Behaves defs a
      (t.flatMap fun x ↦ (((body x.1).1.parser (defs.meaning room)).run x.2).tryMap fun r ↦
        ((body x.1).2 r.1).map (·, r.2)) h (F ∪ {a}) := by
  have hF : F ∪ {a} ⊆ Set.Iio h.size :=
    Set.union_subset hs.covers (Set.singleton_subset_iff.mpr (Heap.lt_size_of_object? ho))
  have hdisj : Disjoint F {a} := Set.disjoint_singleton_right.mpr ha
  induction t generalizing h F with
  | done =>
    refine behaves_asking hs rfl (Set.subset_union_right.trans hF) hdisj
      fun h' h₁ F₁ hag hnext _ _ hw _ ↦ ?_
    have he (n : Nat) := defs.next_looping n (hag.generator (.inr rfl) ho)
    exact Answers.finish (.bind he hnext (.of_forall fun _ ↦ rfl)) hw (.inr rfl)
  | raised fault =>
    refine behaves_asking hs rfl (Set.subset_union_right.trans hF) hdisj
      fun h' h₁ F₁ hag hnext _ _ hw _ ↦ ?_
    have he (n : Nat) := defs.next_looping n (hag.generator (.inr rfl) ho)
    exact Answers.raise (.bind he hnext (.of_forall fun _ ↦ rfl)) hw (.inr rfl)
  | yield x more ih =>
    refine behaves_asking hs rfl (Set.subset_union_right.trans hF) hdisj
      fun h' h₁ F₁ hag hnext _ hdisj₁ hw hmore ↦ ?_
    have he (n : Nat) := defs.next_looping n (hag.generator (.inr rfl) ho)
    have ha₁ : a < h₁.size := hw.covers (.inr rfl)
    have haF₁ : a ∉ F₁ := Set.disjoint_singleton_right.mp hdisj₁
    have hcovers : F₁ ∪ {a} ⊆ Set.Iio (h₁.move a (.looping source room body)).size := by
      rw [Heap.size_move]
      exact hw.covers
    have hrest := ih () ((hmore x more rfl).of_agrees (h₁.agrees_move _ haF₁))
      (Heap.object?_move_self ha₁ _) haF₁ hcovers hdisj₁
    let entering : Generator :=
      .entering room (body x.1).1 x.2 (body x.1).2 (.looping source room body)
    rw [← Heap.move_move h₁ a entering] at hrest
    have hentering := behaves_entering (hbody x.1) (Heap.object?_move_self ha₁ entering) hrest
    rw [Trace.flatMap_yield]
    exact hentering.gives_set (.inr rfl) hw subset_rfl fun _ hr ↦ .bind he hnext hr

/-- A generator that is to loop over a run behaves as the dependent step over its results. -/
theorem behaves_enteringLoop {body : Value → Grammar × (Value → Except Fault Value)}
    (hp : Starts defs room p) (hbody : ∀ v, Starts defs room (body v).1)
    (ho : h.object? a = some (.generator (.enteringLoop room p ts body))) :
    Behaves defs a
      (((p.parser (defs.meaning room)).run ts).flatMap fun x ↦
        (((body x.1).1.parser (defs.meaning room)).run x.2).tryMap fun r ↦
          ((body x.1).2 r.1).map (·, r.2)) h {a} := by
  refine behaves_alone ho fun h' hf ha hg ↦ ?_
  have he (n : Nat) := defs.next_enteringLoop n hg
  rcases hp.beside ts hf (Set.singleton_subset_iff.mpr ha) with
    ⟨fault, h₁, hstart, hrun, hw⟩ | ⟨source, h₁, F, hstart, hrun, hdisj, hag₁, hw⟩
  · simp only [hstart] at he
    rw [hrun]
    exact Answers.raise (delivers_of_next_eq_some he) hw rfl
  · simp only [hstart] at he
    have ha₁ : a < h₁.size := hw.covers (.inr rfl)
    have haF : a ∉ F := Set.disjoint_singleton_right.mp hdisj
    have hlooping := behaves_looping hbody (hrun.of_agrees (h₁.agrees_move _ haF))
      (Heap.object?_move_self ha₁ _) haF
    exact hlooping.gives_set (.inr rfl) hw subset_rfl fun _ ↦ .of_next_eq he

/-! ### Repetitions -/

/-- The result of a repetition, with its values as one tuple. -/
def tupled (r : List Value × List Value) : Value × List Value := (.tuple r.1, r.2)

/-- A stack object is the stack at its address. -/
theorem Heap.stack_of_object? {levels : List Level} (ho : h.object? a = some (.stack levels)) :
    h.stack a = levels := by
  rw [stack, ho]

/-- A repetition with an empty stack behaves as the empty trace. -/
theorem behaves_repeating_nil (defs : Definitions) {stack : Address}
    (ho : h.object? a = some (.generator (.repeating room p stack)))
    (hst : h.object? stack = some (.stack [])) : Behaves defs a .done h {a, stack} := by
  have hc : {a, stack} ⊆ Set.Iio h.size := by
    rintro b (rfl | rfl)
    · exact Heap.lt_size_of_object? ho
    · exact Heap.lt_size_of_object? hst
  refine ⟨.inl rfl, hc, fun h' hf hag ↦ ?_⟩
  have hg := hag.generator (.inl rfl) ho
  have hst' := Heap.stack_of_object? (hag.object?_eq_some (.inr rfl) hst)
  exact Answers.finish (delivers_of_next_eq_some fun n ↦ defs.next_repeating_nil n hg hst')
    (.refl hf (hag.covers hc)) (.inl rfl)

/-- The generator at `a` repeats `p`. Its uppermost level draws its options from a source that
behaves as `t`, and from the levels below it would go on as `below`. -/
structure Repeats (defs : Definitions) (a : Address) (room : Nat) (p : Grammar) (stack : Address)
    (top : Level) (levels : List Level) (t : Trace (Value × List Value))
    (below : Trace (List Value × List Value)) (h : Heap) (F G : Set Address) : Prop where
  options : Behaves defs top.options t h F
  standing : h.object? a = some (.generator (.repeating room p stack))
  stacked : h.object? stack = some (.stack (top :: levels))
  below : Behaves defs a (below.map tupled) (h.set stack (.stack levels)) G
  owned : stack ∈ G
  apart : Disjoint F G

section

variable {stack : Address} {top : Level} {levels : List Level}
  {below : Trace (List Value × List Value)}

/-- Pushing a level on the stack of a repetition makes it repeat from that level. -/
theorem repeats_set (ho : h.object? a = some (.generator (.repeating room p stack)))
    (hst : stack < h.size) (hne : a ≠ stack) (hs : Behaves defs top.options t h F)
    (hbelow : Behaves defs a (below.map tupled) (h.set stack (.stack levels)) G)
    (hstack : stack ∈ G) (hdisj : Disjoint F G) :
    Repeats defs a room p stack top levels t below (h.set stack (.stack (top :: levels))) F G where
  options := hs.of_agrees (h.agrees_set _ fun hF ↦ Set.disjoint_left.mp hdisj hF hstack)
  standing := (h.object?_set_of_ne _ hne).trans ho
  stacked := Heap.object?_set_self hst _
  below := by rwa [Heap.set_set]
  owned := hstack
  apart := hdisj

theorem Repeats.covers (hr : Repeats defs a room p stack top levels t below h F G) :
    G ⊆ Set.Iio h.size := by
  have hc := hr.below.covers
  rwa [Heap.size_set] at hc

theorem Repeats.ne (hr : Repeats defs a room p stack top levels t below h F G) : a ≠ stack := by
  intro he
  have ho := hr.standing.symm.trans (he ▸ hr.stacked)
  cases ho

/-- A repetition whose options have been asked repeats from those that are left. -/
theorem Repeats.asked {t' : Trace (Value × List Value)}
    (hr : Repeats defs a room p stack top levels t below h F G) (hag : Agrees G h h')
    (hs : Behaves defs top.options t' h' F') (hdisj : Disjoint F' G) :
    Repeats defs a room p stack top levels t' below (h'.set stack (.stack (top :: levels))) F' G :=
  have hst : stack < h'.size := hag.covers hr.covers hr.owned
  repeats_set (hag.object?_eq_some hr.below.mem hr.standing) hst hr.ne hs
    (hr.below.set hr.owned hst (hag.mono Set.sdiff_subset)) hr.owned hdisj

/-- A repeating generator steps alike in heaps that agree on what it owns besides its options. -/
theorem Repeats.next_eq {h' : Heap} (hr : Repeats defs a room p stack top levels t below h F G)
    (hag : Agrees (F ∪ G) h h') :
    h'.generator a = .repeating room p stack ∧ h'.stack stack = top :: levels :=
  ⟨hag.generator (.inr hr.below.mem) hr.standing,
    Heap.stack_of_object? (hag.object?_eq_some (.inr hr.owned) hr.stacked)⟩

/-- A repetition behaves as repeating the parser from its uppermost level, and then as it does from
the levels below. -/
theorem behaves_repeating_cons (hp : Starts defs room p)
    (hr : Repeats defs a room p stack top levels t below h F G) :
    Behaves defs a
      (((p.parser (defs.meaning room)).repeatFrom top.found top.here t fun _ ↦ below).map tupled) h
      (F ∪ G) := by
  -- The measure of the search: first the tokens that are left, then the options.
  induction hn : top.here.length using Nat.strongRecOn
    generalizing top levels below t h F G with
  | ind n ih =>
    subst hn
    induction t generalizing h F with
    | done =>
      refine behaves_asking hr.options hr.below.mem hr.covers hr.apart
        fun h' h₁ F₁ hag hnext hagG _ hw _ ↦ ?_
      obtain ⟨hg, hst⟩ := hr.next_eq hag
      have he (n : Nat) := defs.next_repeating_cons n hg hst
      have hbelow₁ := hr.below.set hr.owned (hagG.covers hr.covers hr.owned)
        (hagG.mono Set.sdiff_subset)
      have hwset := hw.trans (.set hw.faithful hw.covers (.inr hr.owned) (.stack levels))
      rw [Parser.repeatFrom]
      exact ⟨_, G, .bind he hnext (.of_forall fun _ ↦ rfl), hwset.mono Set.subset_union_right,
        hbelow₁⟩
    | raised fault =>
      refine behaves_asking hr.options hr.below.mem hr.covers hr.apart
        fun h' h₁ F₁ hag hnext _ _ hw _ ↦ ?_
      obtain ⟨hg, hst⟩ := hr.next_eq hag
      have he (n : Nat) := defs.next_repeating_cons n hg hst
      rw [Parser.repeatFrom]
      exact Answers.raise (.bind he hnext (.of_forall fun _ ↦ rfl)) hw (.inr hr.below.mem)
    | yield x more ihm =>
      obtain ⟨v, rest⟩ := x
      refine behaves_asking hr.options hr.below.mem hr.covers hr.apart
        fun h' h₁ F₁ hag hnext hagG hdisj₁ hw hmore ↦ ?_
      obtain ⟨hg, hst⟩ := hr.next_eq hag
      have he (n : Nat) := defs.next_repeating_cons n hg hst
      rw [Parser.repeatFrom]
      split
      case isFalse hge =>
        exact Answers.raise (.bind he hnext (.of_forall fun _ ↦ if_neg hge)) hw
          (.inr hr.below.mem)
      case isTrue hlt =>
        rcases hp.beside rest hw.faithful hw.covers with
          ⟨fault, h₂, hstart, hrun, hw₂⟩ | ⟨options₂, h₂, F₂, hstart, hrun, hdisj₂, hag₂, hw₂⟩
        · rw [hrun, Parser.repeatFrom]
          refine Answers.raise (.bind he hnext (.of_forall fun _ ↦ ?_)) (hw.trans hw₂)
            (.inr hr.below.mem)
          simp only [Trace.first, if_pos hlt, hstart]
        · have hagG₂ : Agrees G h h₂ := (hag₂.mono Set.subset_union_right).trans hagG
          have ho₂ := hagG₂.object?_eq_some hr.below.mem hr.standing
          have hst₂ : stack < h₂.size := hagG₂.covers hr.covers hr.owned
          have hmore₂ := (hmore _ more rfl).of_agrees (hag₂.mono Set.subset_union_left)
          -- What the repetition gives once it is back at the level where it stands now.
          have hback := ihm () (hr.asked hagG₂ hmore₂ hdisj₁)
          let pushed : Level := ⟨v :: top.found, options₂, rest⟩
          have hlevel : Repeats defs a room p stack pushed (top :: levels) _ _ _ F₂ (F₁ ∪ G) :=
            repeats_set ho₂ hst₂ hr.ne hrun hback (.inr hr.owned) hdisj₂
          refine (ih rest.length hlt hlevel rfl).gives_set (.inr (.inr hr.owned)) (hw.trans hw₂)
            subset_rfl fun r hr' ↦ .bind he hnext (hr'.mono fun n hn ↦ ?_)
          simp only [Trace.first, if_pos hlt, hstart]
          exact hn

end

/-- A generator that moves to repeating with a new stack of one level repeats from that level. -/
theorem repeats_push {options : Address} (hs : Behaves defs options t h F) (ha : a < h.size)
    (haF : a ∉ F) :
    Repeats defs a room p h.size ⟨[], options, ts⟩ [] t .done
      ((h.push (.stack [⟨[], options, ts⟩])).move a (.repeating room p h.size)) F {a, h.size} := by
  let stack := Object.stack [⟨[], options, ts⟩]
  let repeating := Generator.repeating room p h.size
  have hsF : h.size ∉ F := fun hmem ↦ Nat.lt_irrefl _ (hs.covers hmem)
  have hne : h.size ≠ a := (Nat.ne_of_lt ha).symm
  have ha' : a < (h.push stack).size := by
    rw [Heap.size_push]
    exact Nat.lt_succ_of_lt ha
  have hstands := Heap.object?_move_self ha' repeating
  have hst : ((h.push stack).move a repeating).object? h.size = some stack :=
    (Heap.object?_set_of_ne _ _ hne).trans (h.object?_push_size stack)
  exact
    { options := (hs.of_agrees (Heap.agrees_push stack hs.covers)).of_agrees
        ((h.push stack).agrees_move repeating haF)
      standing := hstands
      stacked := hst
      below := behaves_repeating_nil defs
        ((Heap.object?_set_of_ne _ (.stack []) hne.symm).trans hstands)
        (Heap.object?_set_self (Heap.lt_size_of_object? hst) (.stack []))
      owned := .inr rfl
      apart := Set.disjoint_insert_right.mpr ⟨haF, Set.disjoint_singleton_right.mpr hsF⟩ }

/-- A generator that is to repeat a parser behaves as the run of the repetition. -/
theorem behaves_enteringRepetition (hp : Starts defs room p)
    (ho : h.object? a = some (.generator (.enteringRepetition room p ts))) :
    Behaves defs a (((p.parser (defs.meaning room)).many.run ts).map tupled) h {a} := by
  refine behaves_alone ho fun h' hf ha hg ↦ ?_
  have he (n : Nat) := defs.next_enteringRepetition n hg
  rcases hp.beside ts hf (Set.singleton_subset_iff.mpr ha) with
    ⟨fault, h₁, hstart, hrun, hw⟩ | ⟨options, h₁, F, hstart, hrun, hdisj, -, hw⟩
  · simp only [hstart] at he
    simp only [Parser.many, hrun, Parser.repeatFrom]
    exact Answers.raise (delivers_of_next_eq_some he) hw rfl
  · simp only [hstart] at he
    have ha₁ : a < h₁.size := hw.covers (.inr rfl)
    have haF : a ∉ F := Set.disjoint_singleton_right.mp hdisj
    have hpush := hw.trans (.push hw.faithful hw.covers (.stack [⟨[], options, ts⟩]))
    have howned : F ∪ {a, h₁.size} ⊆ F ∪ {a} ∪ {h₁.size} := by
      rw [Set.union_assoc]
      exact subset_rfl
    exact (behaves_repeating_cons hp (repeats_push hrun ha₁ haF)).gives_set (.inr (.inl rfl))
      hpush howned fun _ ↦ .of_next_eq he

/-! ### All grammars -/

/-- Mapping values by a function that keeps each of them leaves a trace unchanged. -/
private theorem tryMap_ok_values (t : Trace (Value × List Value)) :
    (t.tryMap fun r ↦ (Except.ok r.1 : Except Fault Value).map (·, r.2)) = t :=
  (Trace.tryMap_ok (fun r ↦ r) t).trans (Trace.map_id t)

/-- Creating a generator that behaves as the run starts the run. -/
theorem started_create {g : Generator} (hf : h.Faithful defs)
    (hnone : defs.openingFault? room p = none)
    (hrun : ∀ {h' : Heap}, h'.object? h.size = some (.generator g) →
      Behaves defs h.size ((p.parser (defs.meaning room)).run ts) h' {h.size}) :
    Started defs ts room p h (h.create g) := by
  have hw := Heap.Works.push hf (Set.empty_subset _) (.generator g)
  rw [Set.empty_union] at hw
  exact .run hnone hw (hrun (h.object?_push_size _))

/-- A generator that is to draw from a run, and to be over then, behaves as the mapped run. -/
theorem behaves_entering_over {f : Value → Except Fault Value} (hp : Starts defs room p)
    (ho : h.object? a = some (.generator (.entering room p ts f .over))) :
    Behaves defs a
      (((p.parser (defs.meaning room)).run ts).tryMap fun r ↦ (f r.1).map (·, r.2)) h {a} := by
  have ha : a < (h.move a .over).size := by
    rw [Heap.size_move]
    exact Heap.lt_size_of_object? ho
  have hentering := behaves_entering hp ho
    (behaves_over defs ha (Heap.generator_move_self (Heap.lt_size_of_object? ho) _))
  rwa [Trace.append_done] at hentering

/-- Every grammar starts its runs if all names do. -/
theorem starts_of_ref (href : ∀ name label, Starts defs room (.ref name label)) (p : Grammar) :
    Starts defs room p := by
  induction p with
  | fail =>
    intro ts h hf
    rw [Definitions.start]
    exact started_create hf (by cases room <;> rfl) fun ho ↦
      behaves_over defs (Heap.lt_size_of_object? ho) (Heap.generator_of_object? ho)
  | pure v label =>
    intro ts h hf
    rw [Definitions.start]
    exact started_create hf (by cases room <;> rfl) behaves_value
  | token image? label =>
    intro ts h hf
    rw [Definitions.start]
    exact started_create hf (by cases room <;> rfl) behaves_token
  | orElse p q hp hq =>
    intro ts h hf
    rw [Definitions.start]
    refine started_create hf (by cases room <;> rfl) fun ho ↦ ?_
    have hentering := behaves_entering hp ho
      (behaves_entering_over hq (Heap.object?_move_self (Heap.lt_size_of_object? ho) _))
    rwa [tryMap_ok_values, tryMap_ok_values] at hentering
  | seqWith join p q hp hq =>
    intro ts h hf
    rw [Definitions.start]
    refine started_create hf (by cases room <;> rfl) fun ho ↦ ?_
    rw [Grammar.parser, Parser.run_tryMap_pair]
    exact behaves_enteringLoop hp (fun _ ↦ hq) ho
  | map f p hp =>
    intro ts h hf
    rw [Definitions.start]
    exact started_create hf (by cases room <;> rfl) (behaves_entering_over hp)
  | bind p next hp hnext =>
    intro ts h hf
    rw [Definitions.start]
    refine started_create hf (by cases room <;> rfl) fun ho ↦ ?_
    have hloop := behaves_enteringLoop hp hnext ho
    simp only [tryMap_ok_values] at hloop
    exact hloop
  | many p hp =>
    intro ts h hf
    rw [Definitions.start]
    exact started_create hf (by cases room <;> rfl) (behaves_enteringRepetition hp)
  | ref name label => exact href name label
  | failing fault kind =>
    intro ts h hf
    rw [Definitions.start]
    exact .fault (by cases room <;> rfl) rfl (.refl hf (Set.empty_subset _))
  | embed p label kind =>
    intro ts h hf
    rw [Definitions.start]
    exact started_create hf (by cases room <;> rfl) behaves_listing

/-- Starting a run after other work starts the run. -/
theorem Started.after {h₁ : Heap} {r : Except Fault Address × Heap} (hw : Works defs ∅ h h₁ ∅)
    (hr : Started defs ts room p h₁ r) : Started defs ts room p h r := by
  cases hr with
  | fault hfault hrun hw' => exact .fault hfault hrun (hw.trans hw')
  | run hnone hw' hrun => exact .run hnone (hw.trans hw') hrun

/-- Starting a run of the definition of a name starts a run of the name. -/
theorem Started.ref {name : String} {label : Option String} {r : Except Fault Address × Heap}
    (hd : defs name = .ok p) (hr : Started defs ts room p h r) :
    Started defs ts (room + 1) (.ref name label) h r := by
  have hparser : (Grammar.ref name label).parser (defs.meaning (room + 1)) =
      p.parser (defs.meaning room) := by
    simp only [Grammar.parser, Definitions.meaning, Parser.defer_eq, hd]
  have hfault : defs.openingFault? (room + 1) (.ref name label) = defs.openingFault? room p := by
    simp only [Definitions.openingFault?, hd]
  cases hr with
  | fault hf hrun hw => exact .fault (hfault.trans hf) (by rwa [hparser]) hw
  | run hnone hw hrun => exact .run (hfault.trans hnone) hw (by rwa [hparser])

/-- Filling the cell of a name with the outcome of its definition keeps a heap faithful. -/
theorem Heap.Faithful.fill {name : String} (hf : h.Faithful defs) (hd : defs name = .ok p) :
    (h.fill name p).Faithful defs := by
  intro other q hq
  simp only [Heap.fill] at hq
  split at hq
  · next he =>
    rw [he, hd, Option.some.inj hq]
  · exact hf other q hq

/-- Every run of every grammar is opened in a heap as a generator that behaves as the run, or shows
at once the fault that keeps it from being opened. -/
theorem starts (defs : Definitions) (room : Nat) (p : Grammar) : Starts defs room p := by
  induction room generalizing p with
  | zero =>
    refine starts_of_ref (fun name label ts h hf ↦ ?_) p
    rw [Definitions.start]
    exact .fault rfl rfl (.refl hf (Set.empty_subset _))
  | succ room ih =>
    refine starts_of_ref (fun name label ts h hf ↦ ?_) p
    rw [Definitions.start, Heap.lookUp]
    cases hcell : h.cells name with
    | some q => exact .ref (hf name q hcell) (ih q ts h hf)
    | none =>
      cases hd : defs name with
      | error fault =>
        refine .fault ?_ ?_ (.refl hf (Set.empty_subset _))
        · simp only [Definitions.openingFault?, hd]
        · simp only [Grammar.parser, Definitions.meaning, Parser.defer_eq, hd]
          rfl
      | ok q =>
        have hfill : Works defs ∅ h (h.fill name q) ∅ :=
          { Works.refl (hf.fill hd) (Set.empty_subset _) with
            frame := fun _ _ _ ↦ rfl }
        exact .ref hd ((ih q ts _ (hf.fill hd)).after hfill)

end Backtrack
