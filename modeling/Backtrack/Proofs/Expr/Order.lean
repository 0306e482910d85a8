import Backtrack.Proofs.Expr.Recognition
import Backtrack.Proofs.Parser.Order

/-!
# The order of readings of expressions

Every parser of expressions shows its longest reading first and no beginning of the tokens
twice. A local definition has one reading for each reading of its body, although what it binds
is tried at every beginning, too: only one of these is followed by `in`, since the tokens
determine the derivation. A continuation goes on to a local definition only behind the last of
its atoms. `parser_longestFirst` puts this together, and `Descends` says what it comes to.
-/

namespace Backtrack.Expr

open Backtrack.Parser

/-- Two readings that stop before the same token, which is not `+`, have equal leftovers. -/
private theorem leftover_eq {u v r r' vs ws : List Token} {e e' : Expr} {t : Token}
    (hu : exprLanguage u e) (hv : exprLanguage v e') (h : u ++ r = v ++ r')
    (ht : t ≠ .symbol '+') (hr : r = t :: vs) (hr' : r' = t :: ws) : r = r' := by
  obtain ⟨d, rfl, -⟩ := hu
  obtain ⟨d', rfl, -⟩ := hv
  have hstop (us : List Token) : Stops (t :: us) := fun h ↦ ht (Option.some.inj h)
  exact (d.unique d' (hr ▸ hstop vs) (hr' ▸ hstop ws) h).2

section

variable {p : Parser Token Expr} (hp : p.Reads exprLanguage) (ho : p.LongestFirst)

include hp ho

/-- Local definitions keep the longest-first order of their body. -/
theorem longestFirst_letOf : (letOf p).LongestFirst := by
  have hname := (atMostOne_token nameOf?).after (.identifier "let")
  have hbound := longestFirst_after (.symbol '=') ho
  have hbody := longestFirst_after (.identifier "in") ho
  apply longestFirst_map
  apply longestFirst_pair_of_atMostOne hname
  apply longestFirst_pair hbound hbody
  -- Only one reading of what is bound has an `in` behind it.
  intro ts x hx y hy hx' hy'
  obtain ⟨_, hu, _, rfl, hu'⟩ := (reads_after _ hp).sound hx
  obtain ⟨_, hv, _, rfl, hv'⟩ := (reads_after _ hp).sound hy
  obtain ⟨z, hz⟩ := List.exists_mem_of_ne_nil _ hx'
  obtain ⟨w, hw⟩ := List.exists_mem_of_ne_nil _ hy'
  obtain ⟨_, hz, _, rfl, -⟩ := (reads_after _ hp).sound hz
  obtain ⟨_, hw, _, rfl, -⟩ := (reads_after _ hp).sound hw
  exact leftover_eq hu' hv' (List.cons.inj (hu.symm.trans hv)).2 (by simp) hz hw

/-- An atom has at most one reading. -/
theorem atMostOne_atomOf : (atomOf p).AtMostOne := by
  apply LongestFirst.atMostOne
  · have hname : (map var name).LongestFirst := ((atMostOne_token nameOf?).map _).longestFirst
    have hnumber : (map const number).LongestFirst :=
      ((atMostOne_token numberOf?).map _).longestFirst
    have hparens : (seqLeft (seqRight (symbol '(') p) (symbol ')')).LongestFirst := by
      apply longestFirst_before _ (longestFirst_after _ ho)
      intro ts x hx y hy vs ws hvs hws
      obtain ⟨_, hu, _, rfl, hu'⟩ := (reads_after _ hp).sound hx
      obtain ⟨_, hv, _, rfl, hv'⟩ := (reads_after _ hp).sound hy
      exact leftover_eq hu' hv' (List.cons.inj (hu.symm.trans hv)).2 (by simp) hvs hws
    -- The three kinds of atom begin with different kinds of token.
    have hvar := reads_map var (reads_token nameOf?)
    have hconst := reads_map const (reads_token numberOf?)
    have hnested := reads_before (.symbol ')') (reads_after (.symbol '(') hp)
    refine longestFirst_orElse_of_disjoint
      (longestFirst_orElse_of_disjoint hname hnumber hvar hconst ?_) hparens
      (reads_orElse hvar hconst) hnested ?_
    · rintro _ _ _ _ r r' ⟨_, ⟨t, rfl, ht⟩, -⟩ ⟨_, ⟨t', rfl, ht'⟩, -⟩ h
      obtain rfl := (List.cons.inj h).1
      cases t <;> simp_all [nameOf?, numberOf?]
    · rintro _ _ _ _ r r' (⟨_, ⟨t, rfl, ht⟩, -⟩ | ⟨_, ⟨t, rfl, ht⟩, -⟩) ⟨_, rfl, _, rfl, -⟩ h
      · obtain rfl := (List.cons.inj h).1
        cases ht
      · obtain rfl := (List.cons.inj h).1
        cases ht
  · intro ts x hx y hy
    obtain ⟨_, hu, d, rfl, -⟩ := (reads_atomOf hp).sound hx
    obtain ⟨_, hv, d', rfl, -⟩ := (reads_atomOf hp).sound hy
    exact (d.unique d' (hu.symm.trans hv)).2

/-- Terms are read longest first, since no tokens begin both a local definition and an atom. -/
theorem longestFirst_termOf : (termOf p).LongestFirst := by
  have hlet := longestFirst_letOf hp ho
  have hatom := (atMostOne_atomOf hp ho).longestFirst
  apply longestFirst_orElse_of_disjoint hlet hatom (reads_letOf hp) (reads_atomOf hp)
  rintro _ _ _ _ r r' ⟨d, rfl, -⟩ ⟨a, rfl, -⟩ h
  exact a.tokens_append_ne d r' r h.symm

/-- Continuations are read longest first: all atoms with the local definition, then fewer and fewer
atoms. -/
theorem longestFirst_restOf : (restOf p).LongestFirst := by
  have hlet := reads_map (fun e : Expr ↦ [e]) (reads_after (.symbol '+') (reads_letOf hp))
  have hlast : (orElse (map ([·]) (seqRight plus (letOf p)))
      (Parser.pure [])).LongestFirst := by
    have hfirst := longestFirst_after (.symbol '+') (longestFirst_letOf hp ho)
    apply longestFirst_orElse (longestFirst_map _ hfirst) fun _ ↦ List.pairwise_singleton _ _
    intro ts x hx y hy
    obtain ⟨_, hu, _, ⟨_, rfl, -⟩, -⟩ := hlet.sound hx
    rw [List.mem_singleton.mp hy, hu]
    simp only [List.length_append, List.length_cons]
    omega
  rw [restOf, map₂]
  apply longestFirst_map
  apply longestFirst_pair_many (reads_after _ (reads_atomOf hp))
    (reads_orElse hlet (reads_pure [])) ((atMostOne_atomOf hp ho).after _) hlast
  -- Where an atom comes next, no local definition does.
  intro ts hts y hy
  obtain ⟨x, hx⟩ := List.exists_mem_of_ne_nil _ hts
  obtain ⟨_, hu, _, rfl, a, rfl, -⟩ := (reads_after _ (reads_atomOf hp)).sound hx
  rcases Trace.mem_or_mem_of_append hy with hy | hy
  · obtain ⟨_, hv, _, ⟨_, rfl, d, rfl, -⟩, -⟩ := hlet.sound hy
    exact absurd (List.cons.inj (hu.symm.trans hv)).2 (a.tokens_append_ne d _ _)
  · rw [List.mem_singleton.mp hy]

/-- Expressions are read longest first if their parts are. -/
theorem longestFirst_exprOf : (exprOf p).LongestFirst := by
  have hsum := reads_map₂ sum (reads_atomOf hp) (reads_restOf hp)
  have hpair := longestFirst_pair_of_atMostOne (atMostOne_atomOf hp ho)
    (longestFirst_restOf hp ho)
  apply longestFirst_orElse_of_disjoint (longestFirst_letOf hp ho) (longestFirst_map _ hpair)
    (reads_letOf hp) hsum
  rintro _ _ _ _ r r' ⟨d, rfl, -⟩ ⟨_, ⟨_, v, rfl, ⟨a, rfl, -⟩, -⟩, -⟩ h
  rw [List.append_assoc] at h
  exact a.tokens_append_ne d _ _ h.symm

end

/-- Expressions are read longest first, whatever the room. -/
theorem parser_longestFirst (room : Nat) : (parser room).LongestFirst := by
  induction room with
  | zero => exact fun ts ↦ .nil
  | succ room ih => exact longestFirst_exprOf (parser_reads room) ih

/-! ### The results in order -/

/-- With so much room, the results of `p` on the tokens read fewer and fewer of them. -/
structure Descends {α : Type} (p : Parser Token α) (room : Nat) (ts : List Token) : Prop where
  /-- Each result leaves an end of the tokens over. -/
  suffix : ∀ rs, p.results ts = .ok rs → ∀ x ∈ rs, x.2 <:+ ts
  /-- Each result reads less than the one before. -/
  consumed_gt : ∀ rs, p.results ts = .ok rs → (rs.map (consumed ts)).Pairwise (· > ·)
  /-- No beginning of the tokens is read twice. -/
  leftover_nodup : ∀ rs, p.results ts = .ok rs → (rs.map Prod.snd).Nodup
  /-- At most one result is complete. -/
  complete_length_le : ∀ es, p.complete ts = .ok es → es.length ≤ 1
  /-- A complete result comes first. -/
  head?_of_complete : ∀ rs, p.results ts = .ok rs → ∀ a, (a, []) ∈ rs → rs.head? = some (a, [])
  /-- Only an overflow keeps a run from showing all the results. -/
  fault : ∀ f, p.results ts = .error f → f = .overflow ∧ room ≤ openings ts

/-- A parser that reads a language longest first, and faults on overflow only, descends. -/
theorem descends_of_longestFirst {α : Type} {p : Parser Token α} {D : Language Token α}
    {room : Nat} {ts : List Token} (hp : p.Reads D) (ho : p.LongestFirst)
    (hf : p.OnlyOverflows) (hroom : openings ts < room → p.EndsOn ts) :
    Descends p room ts where
  suffix rs h x hx := by
    obtain ⟨-, rfl⟩ := results_eq_ok_iff.mp h
    exact hp.suffix hx
  consumed_gt _ h := ho.pairwise_consumed hp h
  leftover_nodup _ h := ho.nodup_leftover h
  complete_length_le es h := by
    obtain ⟨rs, hrs, rfl⟩ := complete_eq_ok_iff.mp h
    rw [List.length_map]
    exact ho.length_filter_le hrs
  head?_of_complete _ h _ ha := ho.head?_of_leftover_nil h ha rfl
  fault _ h := fault_of_onlyOverflows hf hroom h

/-- The parsers of expressions, local definitions, atoms, terms and continuations descend. -/
theorem descends_grammar (room : Nat) (ts : List Token) :
    Descends (parser room) room ts ∧ Descends (letOf (parser room)) room ts ∧
      Descends (termOf (parser room)) room ts ∧ Descends (restOf (parser room)) room ts ∧
      Descends (atomOf (parser room)) room ts := by
  have hp := parser_reads room
  have ho := parser_longestFirst room
  have hf := parser_onlyOverflows room
  constructor
  · exact descends_of_longestFirst hp ho hf parser_endsOn
  constructor
  · exact descends_of_longestFirst (reads_letOf hp) (longestFirst_letOf hp ho)
      (onlyOverflows_letOf hf) fun h ↦ (parts_endsOn h).1
  constructor
  · exact descends_of_longestFirst (reads_termOf hp) (longestFirst_termOf hp ho)
      (onlyOverflows_termOf hf) fun h ↦ (parts_endsOn h).2.2.1
  constructor
  · exact descends_of_longestFirst (reads_restOf hp) (longestFirst_restOf hp ho)
      (onlyOverflows_restOf hf) fun h ↦ (parts_endsOn h).2.2.2
  · exact descends_of_longestFirst (reads_atomOf hp) (atMostOne_atomOf hp ho).longestFirst
      (onlyOverflows_atomOf hf) fun h ↦ (parts_endsOn h).2.1

/-- The tokens of a derivation have its value as their only complete value. -/
theorem complete_tokens (room : Nat) (d : ExprDerivation) :
    (parser room).complete d.tokens = .ok [d.value] ∨
      (parser room).complete d.tokens = .error .overflow ∧ room ≤ openings d.tokens := by
  cases hrs : (parser room).results d.tokens with
  | error f =>
    obtain ⟨rfl, hroom⟩ := fault_of_onlyOverflows (parser_onlyOverflows room) parser_endsOn hrs
    exact .inr ⟨complete_eq_error_iff.mpr hrs, hroom⟩
  | ok rs =>
    have hmem : (d.value, []) ∈ rs :=
      ((parser_reads room).mem_results_iff hrs).mpr
        ⟨d.tokens, (List.append_nil _).symm, d, rfl, rfl⟩
    exact .inl ((parser_longestFirst room).complete_eq hrs hmem)

end Backtrack.Expr
