import Backtrack.Grammar.Derived
import Backtrack.Proofs.Parser.Combinators
import Backtrack.Proofs.Text.Numeral
import Mathlib.Data.List.TakeWhile

/-!
# Laws of dependent steps

Dependent steps obey the laws of a monad up to one point: a step to a value shows the value in its
label, and stops the run if the value cannot be written. So a last step to the value alone cuts a
trace at its first value that cannot be written, and changes nothing otherwise. The laws are
equations between traces: results, order, what is left over and the fault that stops a run. A fault
may show as soon as a run is opened, and counts as one before the first result. The main statement
is `monad_laws`; `bind_unitStep_ne` is a case in which the cut shows.
-/

namespace Backtrack

namespace Trace

/-- The trace cut at its first value that cannot be written, which becomes its fault. -/
def untilUnwritable {σ : Type} : Trace (Value × σ) → Trace (Value × σ)
  | done => done
  | raised fault => raised fault
  | yield r more =>
    if r.1.isWritable then yield r fun _ ↦ (more ()).untilUnwritable else raised .unwritable

variable {σ : Type}

/-- The entries of a cut trace are those in front of the first value that cannot be written. -/
theorem entries_untilUnwritable (t : Trace (Value × σ)) :
    t.untilUnwritable.entries = t.entries.takeWhile (·.1.isWritable) := by
  induction t with
  | done => rfl
  | raised fault => rfl
  | yield r more ih =>
    rw [untilUnwritable, entries, List.takeWhile_cons, ← ih ()]
    cases r.1.isWritable <;> rfl

/-- A cut trace keeps its ending if all its values can be written. -/
theorem ending_untilUnwritable (t : Trace (Value × σ)) :
    t.untilUnwritable.ending =
      if t.entries.all (·.1.isWritable) then t.ending else some .unwritable := by
  induction t with
  | done => rfl
  | raised fault => rfl
  | yield r more ih =>
    rw [untilUnwritable, entries, ending, List.all_cons]
    cases r.1.isWritable with
    | false => rfl
    | true =>
      rw [if_pos rfl, Bool.true_and]
      exact ih ()

/-- Cutting leaves a trace unchanged exactly if all its values can be written. -/
theorem untilUnwritable_eq_self_iff {t : Trace (Value × σ)} :
    t.untilUnwritable = t ↔ ∀ r ∈ t.entries, r.1.isWritable = true := by
  constructor
  · intro h r hr
    rw [← h, entries_untilUnwritable] at hr
    have hkeep := List.all_takeWhile (p := fun r : Value × σ ↦ r.1.isWritable) (l := t.entries)
    exact List.all_eq_true.mp hkeep r hr
  · intro h
    apply ext
    · rw [entries_untilUnwritable]
      exact List.takeWhile_eq_self_iff.mpr h
    · rw [ending_untilUnwritable, if_pos (List.all_eq_true.mpr h)]

end Trace

namespace Grammar

/-- The unit grammar of a value that can be written exists, and gives the value without reading. -/
theorem exists_unit_of_isWritable {v : Value} (h : v.isWritable = true) :
    ∃ label, unit v = .ok (pure v label) := by
  refine ⟨"pure(" ++ v.inspect ++ ")", ?_⟩
  rw [unit, Value.inspect?, if_pos h]
  rfl

/-- The unit grammar of a value that cannot be written is a fault. -/
theorem unit_of_not_isWritable {v : Value} (h : v.isWritable = false) :
    unit v = .error .unwritable := by
  rw [unit, Value.inspect?, if_neg (Bool.eq_false_iff.mp h)]
  rfl

/-- A unit step is a single result if the value can be written, and a fault otherwise. -/
theorem parser_unitStep (meaning : String → Parser Value Value) (v : Value) :
    (unitStep v).parser meaning =
      if v.isWritable then .pure v else .failing .unwritable := by
  cases h : v.isWritable with
  | true =>
    obtain ⟨label, hunit⟩ := exists_unit_of_isWritable h
    rw [unitStep, hunit]
    rfl
  | false =>
    rw [unitStep, unit_of_not_isWritable h]
    rfl

end Grammar

namespace Parser

variable {τ α β γ : Type}

/-- A dependent step depends only on the continuations of the results of its first part. -/
theorem run_bind_congr {p : Parser τ α} {f g : α → Parser τ β} {ts : List τ}
    (h : ∀ x ∈ (p.run ts).entries, (f x.1).run x.2 = (g x.1).run x.2) :
    (bind p f).run ts = (bind p g).run ts :=
  Trace.flatMap_congr h

/-- Mapping is a dependent step to the images if no value of the run is refused. -/
theorem run_tryMap_of_ok {k : α → Except Fault β} {h : α → β} {p : Parser τ α} {ts : List τ}
    (hk : ∀ x ∈ (p.run ts).entries, k x.1 = .ok (h x.1)) :
    (tryMap k p).run ts = (bind p fun a ↦ Parser.pure (h a)).run ts := by
  rw [tryMap_eq_bind]
  apply run_bind_congr
  intro x hx
  rw [hk x hx]

/-- Joining the values of two parsers is two dependent steps if no two values of the runs are
refused. -/
theorem run_tryMap_pair_of_ok {join : α → β → Except Fault γ} {h : α → β → γ} {p : Parser τ α}
    {q : Parser τ β} {ts : List τ}
    (hjoin : ∀ x ∈ (p.run ts).entries, ∀ y ∈ (q.run x.2).entries, join x.1 y.1 = .ok (h x.1 y.1)) :
    (tryMap (fun (a, b) ↦ join a b) (pair p q)).run ts =
      (bind p fun a ↦ bind q fun b ↦ Parser.pure (h a b)).run ts := by
  rw [tryMap_eq_bind, pair_eq_bind, bind_assoc]
  apply run_bind_congr
  intro x hx
  rw [map_eq_bind, bind_assoc]
  simp only [pure_bind]
  apply run_bind_congr
  intro y hy
  rw [hjoin x hx y hy]

/-- A final unit step cuts the run at its first value that cannot be written. -/
theorem run_bind_unitStep (meaning : String → Parser Value Value) (p : Parser Value Value)
    (ts : List Value) :
    (bind p fun v ↦ (Grammar.unitStep v).parser meaning).run ts =
      (p.run ts).untilUnwritable := by
  simp only [bind, Grammar.parser_unitStep]
  induction p.run ts with
  | done => rfl
  | raised fault => rfl
  | yield r more ih =>
    rw [Trace.flatMap_yield, ih (), Trace.untilUnwritable]
    cases r.1.isWritable <;> rfl

/-- Parsers with equal runs have equal dependent steps. -/
theorem run_bind_of_run_eq {p q : Parser τ α} {ts : List τ} (h : p.run ts = q.run ts)
    (next : α → Parser τ β) : (bind p next).run ts = (bind q next).run ts := by
  simp only [bind, h]

/-- A unit step to the image of each value maps the run, up to the first image that cannot be
written. -/
theorem run_bind_unitStep_image (meaning : String → Parser Value Value)
    {k : Value → Except Fault Value} {h : Value → Value} {p : Parser Value Value}
    {ts : List Value} (hk : ∀ x ∈ (p.run ts).entries, k x.1 = .ok (h x.1)) :
    (bind p fun v ↦ (Grammar.unitStep (h v)).parser meaning).run ts =
      ((tryMap k p).run ts).untilUnwritable := by
  rw [← run_bind_unitStep meaning, run_bind_of_run_eq (run_tryMap_of_ok hk), bind_assoc]
  simp only [pure_bind]

/-- Two dependent steps with a unit step to the joined value join the values, up to the first joined
value that cannot be written. -/
theorem run_bind_bind_unitStep (meaning : String → Parser Value Value)
    {join : Value → Value → Except Fault Value} {h : Value → Value → Value}
    {p q : Parser Value Value} {ts : List Value}
    (hjoin : ∀ x ∈ (p.run ts).entries, ∀ y ∈ (q.run x.2).entries, join x.1 y.1 = .ok (h x.1 y.1)) :
    (bind p fun a ↦ bind q fun b ↦ (Grammar.unitStep (h a b)).parser meaning).run ts =
      ((tryMap (fun (a, b) ↦ join a b) (pair p q)).run ts).untilUnwritable := by
  rw [← run_bind_unitStep meaning, run_bind_of_run_eq (run_tryMap_pair_of_ok hjoin)]
  simp only [bind_assoc, pure_bind]

end Parser

namespace Definitions

/-- The trace of a run; a fault on opening the run is the whole trace. -/
def trace (defs : Definitions) (room : Nat) (g : Grammar) (ts : List Value) :
    Trace (Value × List Value) :=
  match defs.openRun room g ts with
  | .error fault => .raised fault
  | .ok t => t

/-- A run with a fault on opening has that fault and no result. -/
theorem run_of_openingFault? {defs : Definitions} {room : Nat} {g : Grammar} {fault : Fault}
    (h : defs.openingFault? room g = some fault) (ts : List Value) :
    (g.parser (defs.meaning room)).run ts = .raised fault := by
  induction room generalizing g with
  | zero =>
    cases g with
    | failing fault' kind =>
      rw [← Option.some.inj h]
      rfl
    | ref name label =>
      rw [← Option.some.inj h]
      rfl
    | _ => cases h
  | succ room ih =>
    cases g with
    | failing fault' kind =>
      rw [← Option.some.inj h]
      rfl
    | ref name label =>
      rw [openingFault?] at h
      simp only [Grammar.parser, meaning, Parser.defer_eq]
      cases hd : defs name with
      | error fault' =>
        rw [hd] at h
        rw [← Option.some.inj h]
        rfl
      | ok p =>
        rw [hd] at h
        exact ih h
    | _ => cases h

/-- The trace of a run is the trace of the parser that the grammar describes. -/
theorem trace_eq (defs : Definitions) (room : Nat) (g : Grammar) (ts : List Value) :
    defs.trace room g ts = (g.parser (defs.meaning room)).run ts := by
  rw [trace, openRun]
  cases h : defs.openingFault? room g with
  | some fault => exact (run_of_openingFault? h ts).symm
  | none => rfl

/-- A final unit step cuts the trace of a grammar at its first value that cannot be written. -/
theorem trace_bind_unitStep (defs : Definitions) (room : Nat) (p : Grammar) (ts : List Value) :
    defs.trace room (.bind p .unitStep) ts = (defs.trace room p ts).untilUnwritable := by
  rw [trace_eq, trace_eq]
  exact Parser.run_bind_unitStep _ _ ts

/-- The laws of a monad, where a step to a value is taken if the value can be written and stops the
run otherwise. A value known beforehand goes straight to the next step; a last step that only hands
on its value cuts the trace at the first value that cannot be written, and so changes nothing
exactly if there is none; bracketing is of no account. Mapping and applying are dependent steps up
to the same cut, if no value that is met is refused. -/
theorem monad_laws (defs : Definitions) (room : Nat) (p : Grammar) (f g : Value → Grammar)
    (x : Value) (ts : List Value) :
    (x.isWritable = true → ∃ u, Grammar.unit x = .ok u ∧
        defs.trace room (.bind u f) ts = defs.trace room (f x) ts) ∧
      (x.isWritable = false → Grammar.unit x = .error .unwritable) ∧
      defs.trace room (.bind p .unitStep) ts = (defs.trace room p ts).untilUnwritable ∧
      (defs.trace room (.bind p .unitStep) ts = defs.trace room p ts ↔
        ∀ r ∈ (defs.trace room p ts).entries, r.1.isWritable = true) ∧
      defs.trace room (.bind (.bind p f) g) ts =
        defs.trace room (.bind p fun v ↦ .bind (f v) g) ts ∧
      (∀ (k : Value → Except Fault Value) (h : Value → Value),
        (∀ y ∈ (defs.trace room p ts).entries, k y.1 = .ok (h y.1)) →
        defs.trace room (.bind p fun v ↦ .unitStep (h v)) ts =
          (defs.trace room (.map k p) ts).untilUnwritable) ∧
      ∀ (q : Grammar) (h : Value → Value → Value),
        (∀ y ∈ (defs.trace room p ts).entries, ∀ z ∈ (defs.trace room q y.2).entries,
          y.1.call z.1 = .ok (h y.1 z.1)) →
        defs.trace room (.bind p fun k ↦ .bind q fun v ↦ .unitStep (h k v)) ts =
          (defs.trace room (.seq p q) ts).untilUnwritable := by
  refine ⟨?_, Grammar.unit_of_not_isWritable, trace_bind_unitStep defs room p ts, ?_, ?_, ?_, ?_⟩
  · intro hx
    obtain ⟨label, hunit⟩ := Grammar.exists_unit_of_isWritable hx
    refine ⟨.pure x label, hunit, ?_⟩
    rw [trace_eq, trace_eq]
    exact congrArg (Parser.run · ts) (Parser.pure_bind x _)
  · rw [trace_bind_unitStep]
    exact Trace.untilUnwritable_eq_self_iff
  · rw [trace_eq, trace_eq]
    exact congrArg (Parser.run · ts) (Parser.bind_assoc _ _ _)
  · intro k h hk
    simp only [trace_eq] at hk ⊢
    exact Parser.run_bind_unitStep_image _ hk
  · intro q h hcall
    simp only [trace_eq] at hcall ⊢
    exact Parser.run_bind_bind_unitStep _ hcall

/-- A grammar whose runs give a function and then stop with a fault, and one whose runs give an
argument and then meet a name without a definition. The first fault that is met stops both sides. -/
theorem monad_laws_faultyOnes :
    let defs : Definitions := fun name ↦ .error (.undefined name)
    let fs : Grammar := .orElse (.pure (.unary .wrap) "wrap") (.failing (.failure "stop") "raw")
    let xs : Grammar := .orElse (.pure (.str "1") "one") (.ref "x" none)
    (∃ u, Grammar.unit .nothing = .ok u ∧
        defs.trace 1 (.bind u fun _ ↦ xs) [.int 2] = defs.trace 1 xs [.int 2]) ∧
      defs.trace 1 (.bind fs fun _ ↦ .bind xs fun v ↦ .unitStep (.tuple [v])) [.int 2] =
        (defs.trace 1 (.seq fs xs) [.int 2]).untilUnwritable ∧
      (defs.trace 1 (.seq fs xs) [.int 2]).entries = [(.tuple [.str "1"], [.int 2])] ∧
      (defs.trace 1 (.seq fs xs) [.int 2]).ending = some (.undefined "x") := by
  intro defs fs xs
  have hcall : ∀ y ∈ (defs.trace 1 fs [.int 2]).entries, ∀ z ∈ (defs.trace 1 xs y.2).entries,
      y.1.call z.1 = .ok (.tuple [z.1]) := by
    intro y hy z hz
    obtain rfl := List.mem_singleton.mp hy
    rfl
  have hlaws := monad_laws defs 1 fs (fun _ ↦ xs) (fun _ ↦ .fail) .nothing [.int 2]
  exact ⟨hlaws.1 rfl, hlaws.2.2.2.2.2.2 xs (fun _ v ↦ .tuple [v]) hcall, rfl, rfl⟩

/-- A last step to the value alone is not always without effect: it stops a run that gives a number
of 4301 digits. -/
theorem bind_unitStep_ne :
    let defs : Definitions := fun name ↦ .error (.undefined name)
    let big : Value := .int (10 ^ Text.Numeral.limit : Nat)
    let p : Grammar := .map (fun _ ↦ .ok big) (.satisfy (fun _ ↦ true) "item" none)
    defs.trace 1 (.bind p .unitStep) [.str "a"] ≠ defs.trace 1 p [.str "a"] ∧
      (defs.trace 1 p [.str "a"]).entries = [(big, [])] ∧
      (defs.trace 1 p [.str "a"]).ending = none ∧
      (defs.trace 1 (.bind p .unitStep) [.str "a"]).entries = [] ∧
      (defs.trace 1 (.bind p .unitStep) [.str "a"]).ending = some .unwritable := by
  intro defs big p
  have hbig : big.isWritable = false := Text.Numeral.isWritable_ten_pow_limit
  have hp : defs.trace 1 p [.str "a"] = .yield (big, []) fun _ ↦ .done := rfl
  have hcut : defs.trace 1 (.bind p .unitStep) [.str "a"] = .raised .unwritable := by
    rw [trace_bind_unitStep, hp, Trace.untilUnwritable, hbig]
    rfl
  rw [hcut, hp]
  exact ⟨nofun, rfl, rfl, rfl, rfl⟩

end Definitions
end Backtrack
