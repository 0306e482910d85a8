import Backtrack.Grammar.Derived
import Backtrack.Iterator.Session
import Backtrack.Proofs.Iterator.Opening

/-!
# Runs side by side

In a session every run goes on as if it were alone, although all of them work in one heap. The
invariant `Sound` says that the generator under each name behaves as what its run has still to
come, and that no two names own an address in common. One step keeps it (`Sound.perform`), so the
answers of a script are those of a session in which every name holds a trace (`Sound.play`). The
main statement is `interleaved_runs`.
-/

namespace Backtrack

open Heap (Faithful Agrees Works)

/-- A generator that has been asked behaves as the rest of its trace. -/
theorem Behaves.next {defs : Definitions} {a : Address} {t : Trace (Value × List Value)} {h : Heap}
    {F : Set Address} (hb : Behaves defs a t h F) (hf : h.Faithful defs) :
    ∃ h' F', Delivers defs a h (t.first, h') ∧ Works defs F h h' F' ∧
      Behaves defs a t.later h' F' := by
  have hover {h' : Heap} {F' : Set Address} (hw : Works defs F h h' F')
      (ho : h'.generator a = .over) :
      Works defs F h h' {a} ∧ Behaves defs a .done h' {a} := by
    have ha : a < h'.size := Nat.lt_of_lt_of_le hb.lt_size hw.size_le
    have hnew : {a} ⊆ F ∪ Set.Ici h.size := Set.singleton_subset_iff.mpr (.inl hb.mem)
    exact ⟨{ hw with new := hnew, covers := Set.singleton_subset_iff.mpr ha },
      behaves_over defs ha ho⟩
  have hgives := hb.gives hf
  cases t with
  | done =>
    obtain ⟨h', F', hnext, hw, ho⟩ := hgives
    exact ⟨h', {a}, hnext, hover hw ho⟩
  | raised fault =>
    obtain ⟨h', F', hnext, hw, ho⟩ := hgives
    exact ⟨h', {a}, hnext, hover hw ho⟩
  | yield r more =>
    obtain ⟨h', F', hnext, hw, hmore⟩ := hgives
    exact ⟨h', F', hnext, hw, hmore⟩

namespace Session

/-- What is still to come under each name. -/
abbrev Remaining := String → Trace (Value × List Value)

/-! ### One step -/

/-- What a step answers if the names hold what is still to come of their runs. -/
def Step.answer (defs : Definitions) (left : Remaining) : Step → Answer
  | .opening _ room p _ =>
    match defs.openingFault? room p with
    | none => .opened
    | some fault => .raised fault
  | .next name => .of (left name).first

/-- What is still to come under each name after a step. -/
def Step.leaves (defs : Definitions) (left : Remaining) : Step → Remaining
  | .opening name room p ts, other =>
    if other = name then
      match defs.openingFault? room p with
      | none => (p.parser (defs.meaning room)).run ts
      | some _ => .done
    else left other
  | .next name, other => if other = name then (left other).later else left other

/-- In a sound session the generator under each name behaves as what is still to come of its run,
and owns addresses that no other one owns. -/
structure Sound (defs : Definitions) (s : Session) (left : Remaining)
    (owned : String → Set Address) : Prop where
  faithful : s.heap.Faithful defs
  behaves : ∀ name a, s.names name = some a → Behaves defs a (left name) s.heap (owned name)
  absent : ∀ name, s.names name = none → left name = .done ∧ owned name = ∅
  apart : ∀ name other, name ≠ other → Disjoint (owned name) (owned other)

variable {defs : Definitions} {s : Session} {left : Remaining} {owned : String → Set Address}

theorem Sound.covers (hs : Sound defs s left owned) (name : String) :
    owned name ⊆ Set.Iio s.heap.size := by
  cases hn : s.names name with
  | none =>
    rw [(hs.absent name hn).2]
    exact Set.empty_subset _
  | some a => exact (hs.behaves name a hn).covers

/-- The session without runs is sound. -/
theorem sound_empty (defs : Definitions) : Sound defs empty (fun _ ↦ .done) fun _ ↦ ∅ where
  faithful := nofun
  behaves := nofun
  absent _ _ := ⟨rfl, rfl⟩
  apart _ _ _ := Set.disjoint_empty _

/-- Work on what one name owns keeps a session sound, whatever is kept under the name then. -/
theorem Sound.keep (hs : Sound defs s left owned) (name : String) (a? : Option Address)
    {left' : Remaining} {h : Heap} {F : Set Address} (hw : Works defs (owned name) s.heap h F)
    (hsome : ∀ a, a? = some a → Behaves defs a (left' name) h F)
    (hnone : a? = none → left' name = .done ∧ F = ∅)
    (hleft : ∀ other ≠ name, left' other = left other) :
    Sound defs (s.keep h name a?) left' fun other ↦ if other = name then F else owned other where
  faithful := hw.faithful
  behaves other a ha := by
    simp only [Session.keep] at ha ⊢
    split at ha
    · next he =>
      rw [he, if_pos rfl]
      exact hsome a ha
    · next hne =>
      rw [if_neg hne, hleft other hne]
      exact (hs.behaves other a ha).of_agrees
        (hw.agrees (hs.apart name other (Ne.symm hne)) (hs.covers other))
  absent other ha := by
    simp only [Session.keep] at ha
    split at ha
    · next he =>
      rw [he, if_pos rfl]
      exact hnone ha
    · next hne =>
      rw [if_neg hne, hleft other hne]
      exact hs.absent other ha
  apart one other hne := by
    have hbeside {other : String} (ho : other ≠ name) : Disjoint F (owned other) :=
      hw.disjoint (hs.apart name other (Ne.symm ho)) (hs.covers other)
    by_cases h₁ : one = name
    · have h₂ : other ≠ name := fun h₂ ↦ hne (h₁.trans h₂.symm)
      rw [if_pos h₁, if_neg h₂]
      exact hbeside h₂
    · by_cases h₂ : other = name
      · rw [if_neg h₁, if_pos h₂]
        exact (hbeside h₁).symm
      · rw [if_neg h₁, if_neg h₂]
        exact hs.apart one other hne

/-- A step of a sound session has its answer, given enough steps of generators, and leaves a sound
session. -/
theorem Sound.perform (hs : Sound defs s left owned) (step : Step) :
    ∃ s' owned',
      (∀ᶠ n in Filter.atTop, s.perform defs n step = some (step.answer defs left, s')) ∧
      Sound defs s' (step.leaves defs left) owned' := by
  cases step with
  | opening name room p ts =>
    have hopened := starts defs room p ts s.heap hs.faithful
    simp only [Session.perform]
    generalize defs.start ts room p s.heap = started at hopened
    cases hopened with
    | @fault fault h hfault hrun hw =>
      refine ⟨_, _, .of_forall fun n ↦ ?_, hs.keep name none (hw.widen (Set.empty_subset _))
        (by simp) ?_ ?_⟩
      · simp only [Step.answer, hfault]
      · intro _
        simp only [Step.leaves, hfault, if_true, and_self]
      · exact fun other hne ↦ if_neg hne
    | @run a h F hnone hw hrun =>
      refine ⟨_, _, .of_forall fun n ↦ ?_, hs.keep name (some a) (hw.widen (Set.empty_subset _))
        ?_ (by simp) ?_⟩
      · simp only [Step.answer, hnone]
      · rintro _ ⟨⟩
        simp only [Step.leaves, hnone, if_true]
        exact hrun
      · exact fun other hne ↦ if_neg hne
  | next name =>
    cases hn : s.names name with
    | none =>
      have hdone := (hs.absent name hn).1
      refine ⟨s, owned, .of_forall fun n ↦ ?_, ?_⟩
      · rw [Session.perform, hn, Step.answer, hdone]
        rfl
      · have hleaves : Step.leaves defs left (.next name) = left := by
          funext other
          rw [Step.leaves]
          split
          · next he => rw [he, hdone, Trace.later]
          · rfl
        rw [hleaves]
        exact hs
    | some a =>
      obtain ⟨h, F, hnext, hw, hlater⟩ := (hs.behaves name a hn).next hs.faithful
      refine ⟨_, _, hnext.mono fun n he ↦ ?_, hs.keep name (some a) hw ?_ (by simp) ?_⟩
      · simp only [Session.perform, hn, he, Step.answer]
        rfl
      · rintro _ ⟨⟩
        rw [Step.leaves, if_pos rfl]
        exact hlater
      · exact fun other hne ↦ if_neg hne

/-! ### A script -/

/-- What the steps of a script answer if the names hold what is still to come of their runs. -/
def answers (defs : Definitions) (left : Remaining) : List Step → List Answer
  | [] => []
  | step :: script => step.answer defs left :: answers defs (step.leaves defs left) script

/-- What is still to come under each name after a script. -/
def remaining (defs : Definitions) (left : Remaining) (script : List Step) : Remaining :=
  script.foldl (Step.leaves defs) left

/-- Every script of a sound session comes to its end, given enough steps of generators, and each of
its steps answers as if the names held what is still to come of their runs. -/
theorem Sound.play (hs : Sound defs s left owned) (script : List Step) :
    ∀ᶠ n in Filter.atTop, s.play defs n script = some (answers defs left script) := by
  induction script generalizing s left owned with
  | nil => exact .of_forall fun _ ↦ rfl
  | cons step script ih =>
    obtain ⟨s', owned', hperform, hs'⟩ := hs.perform step
    filter_upwards [hperform, ih hs'] with n hfirst hothers
    rw [Session.play, hfirst]
    simp only [Option.bind_eq_bind, Option.bind_some, hothers]
    rfl

/-- The answer of a step is the one after what the steps before it have left. -/
theorem answers_getElem? (defs : Definitions) (left : Remaining) (script : List Step) (step : Step)
    (script' : List Step) :
    (answers defs left (script ++ step :: script'))[script.length]? =
      some (step.answer defs (remaining defs left script)) := by
  induction script generalizing left with
  | nil => rfl
  | cons step' script ih => exact ih (step'.leaves defs left)

/-! ### One run among others -/

/-- Whether a step opens a run under a name. -/
def Step.opens (name : String) : Step → Bool
  | .opening other _ _ _ => other == name
  | .next _ => false

/-- Whether a step asks for the next result under a name. -/
def Step.asks (name : String) : Step → Bool
  | .opening _ _ _ _ => false
  | .next other => other == name

/-- A step that opens no run under a name takes one result from it if it asks for one, and
otherwise leaves it alone. -/
theorem leaves_eq_laterBy (defs : Definitions) (left : Remaining) {name : String} {step : Step}
    (h : step.opens name = false) :
    step.leaves defs left name = (left name).laterBy (if step.asks name then 1 else 0) := by
  cases step with
  | opening other room p ts =>
    have hne : name ≠ other := fun he ↦ by simp [Step.opens, he] at h
    rw [Step.leaves, if_neg hne]
    rfl
  | next other =>
    by_cases he : name = other
    · simp [Step.leaves, Step.asks, he, Trace.laterBy]
    · simp [Step.leaves, Step.asks, he, Ne.symm he, Trace.laterBy]

/-- A script that opens no run under a name takes as many results from it as it asks for. -/
theorem remaining_eq_laterBy (defs : Definitions) (left : Remaining) {name : String}
    {script : List Step} (h : ∀ step ∈ script, step.opens name = false) :
    remaining defs left script name = (left name).laterBy (script.countP (·.asks name)) := by
  induction script generalizing left with
  | nil => rfl
  | cons step script ih =>
    have hstep := leaves_eq_laterBy defs left (h step List.mem_cons_self)
    have hscript := ih (step.leaves defs left) fun step' hs ↦
      h step' (List.mem_cons_of_mem step hs)
    rw [hstep, ← Trace.laterBy_add] at hscript
    rw [List.countP_cons, Nat.add_comm]
    exact hscript

/-- Runs that are open at the same time do not disturb one another. A run that is opened under a
name, whatever has been done before, goes on as long as no other run is opened under this name: the
asking number `k` for it answers what an uninterrupted run of the same grammar on the same tokens
answers when it is asked for the time number `k`. So there are the results in order, then the fault
that stops the run if one does, and nothing any more after that. A run that cannot be opened answers
the fault, and has no results. Every script comes to its end, and its answers do not depend on how
many steps the generators may go on for, provided that there are enough. -/
theorem interleaved_runs (defs : Definitions) (room : Nat) (p : Grammar) (ts : List Value)
    (name : String) (before between after : List Step)
    (hbetween : ∀ step ∈ between, step.opens name = false) :
    ∃ enough answers,
      (∀ steps, enough ≤ steps → empty.play defs steps
        (before ++ .opening name room p ts :: (between ++ .next name :: after)) = some answers) ∧
      (defs.openingFault? room p = none →
        answers[before.length]? = some .opened ∧
          answers[before.length + 1 + between.length]? =
            some (.of (((p.parser (defs.meaning room)).run ts).answer
              (between.countP (·.asks name))))) ∧
      ∀ fault, defs.openingFault? room p = some fault →
        answers[before.length]? = some (.raised fault) ∧
          answers[before.length + 1 + between.length]? = some .done := by
  let opening := Step.opening name room p ts
  let left := remaining defs (fun _ ↦ .done) before
  have hopening := answers_getElem? defs (fun _ ↦ .done) before opening
    (between ++ .next name :: after)
  have hnext := answers_getElem? defs (fun _ ↦ .done) (before ++ opening :: between)
    (.next name) after
  have hleft : remaining defs (fun _ ↦ .done) (before ++ opening :: between) name =
      (opening.leaves defs left name).laterBy (between.countP (·.asks name)) := by
    rw [remaining, List.foldl_append, List.foldl_cons]
    exact remaining_eq_laterBy defs _ hbetween
  have hlength : (before ++ opening :: between).length = before.length + 1 + between.length := by
    rw [List.length_append, List.length_cons]
    omega
  rw [List.append_assoc, List.cons_append, hlength, Step.answer, hleft, Step.leaves, if_pos rfl]
    at hnext
  obtain ⟨enough, hplay⟩ := Filter.eventually_atTop.mp ((sound_empty defs).play
    (before ++ opening :: (between ++ .next name :: after)))
  refine ⟨enough, _, hplay, ?_, ?_⟩
  · intro hnone
    rw [hnone] at hnext
    rw [Trace.answer_eq_first, hnext, hopening, Step.answer, hnone]
    exact ⟨rfl, rfl⟩
  · intro fault hfault
    rw [hfault, Trace.laterBy_done] at hnext
    rw [hnext, hopening, Step.answer, hfault]
    exact ⟨rfl, rfl⟩

/-- The token 1 any number of times, the most first, and then a fault; the name stands for the
part without the fault. -/
def faultyOnes : Grammar :=
  .orElse (.ref "ones" none) (.failing (.failure "no more") "_explode")

/-- The definition of the name: the token 1 any number of times. -/
def ones : Definitions := fun _ ↦
  .ok (.orElse (.seqRight (.single (.int 1) "1") (.ref "ones" none)) (.pure (.int 0) "pure(0)"))

/-- Two runs of a recursive grammar that stops with a fault, and a third one that is opened under
another name in between. -/
theorem interleaved_runs_faultyOnes :
    let opening (name : String) (ts : List Value) : Step := .opening name 4 faultyOnes ts
    let before := [opening "b" [.int 1, .int 1], .next "b"]
    let between := [.next "a", .next "b", opening "c" [.int 1], .next "a", .next "b", .next "c"]
    (∀ step ∈ between, step.opens "a" = false) ∧ ones.openingFault? 4 faultyOnes = none ∧
      ∃ enough answers, (∀ steps, enough ≤ steps → empty.play ones steps
          (before ++ opening "a" [.int 1] :: (between ++ [.next "a"])) = some answers) ∧
        answers[2]? = some .opened ∧ answers[9]? = some (.raised (.failure "no more")) := by
  intro opening before between
  have hbetween : ∀ step ∈ between, step.opens "a" = false := by
    simp [between, opening, Step.opens]
  have hnone : ones.openingFault? 4 faultyOnes = none := rfl
  obtain ⟨enough, answers, hplay, hanswers, -⟩ :=
    interleaved_runs ones 4 faultyOnes [.int 1] "a" before between [] hbetween
  exact ⟨hbetween, hnone, enough, answers, hplay, hanswers hnone⟩

end Session
end Backtrack
