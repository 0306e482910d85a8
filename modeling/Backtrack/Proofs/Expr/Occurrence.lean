import Backtrack.Proofs.Expr.Evaluation

/-!
# Occurrences of free names

A place in an expression is the way to it from the root. The evaluation comes across the places on
the right of a sum before those on its left, and across the places in what a local definition binds
before those in its body; `Before` is this order. A name may be free at many places, and the list
`free` goes through all of them in order (`map_fst_occurrences`, `pairwise_occurrences`). So
whatever free name is reported as one without a meaning, it is the one at the first place where
there is such a name. This and the values that come without such a name are the main statement,
`eval_outcome`.
-/

namespace Backtrack.Expr

/-- One of the parts of a sum or of a local definition. -/
inductive Part where
  /-- The left operand of a sum. -/
  | left
  /-- The right operand of a sum. -/
  | right
  /-- What a local definition binds. -/
  | bound
  /-- The body of a local definition. -/
  | body
  deriving DecidableEq, Repr

/-- The way from the root of an expression to a place in it. -/
abbrev Place := List Part

/-- The evaluation comes across the first place before the second. -/
inductive Before : Place → Place → Prop where
  /-- A right operand comes before the left one. -/
  | operands (p q : Place) : Before (.right :: p) (.left :: q)
  /-- What is bound comes before the body. -/
  | definition (p q : Place) : Before (.bound :: p) (.body :: q)
  /-- Within one part it is the order of the part. -/
  | within (s : Part) {p q : Place} : Before p q → Before (s :: p) (s :: q)

/-- At a place of an expression there is the name `x`, and the expression gives it no meaning. -/
inductive FreeAt (x : String) : Expr → Place → Prop where
  /-- A name by itself. -/
  | var : FreeAt x (var x) []
  /-- In a left operand. -/
  | left {a b : Expr} {p : Place} : FreeAt x a p → FreeAt x (add a b) (.left :: p)
  /-- In a right operand. -/
  | right {a b : Expr} {p : Place} : FreeAt x b p → FreeAt x (add a b) (.right :: p)
  /-- In what is bound, whatever the name that it is bound to. -/
  | bound {y : String} {e b : Expr} {p : Place} :
    FreeAt x e p → FreeAt x (letIn y e b) (.bound :: p)
  /-- In the body of a definition of another name. -/
  | body {y : String} {e b : Expr} {p : Place} :
    x ≠ y → FreeAt x b p → FreeAt x (letIn y e b) (.body :: p)

/-- At the place there is a free name without a meaning, and there is none at any place before. -/
structure FirstUnbound (env : Env) (e : Expr) (x : String) (p : Place) : Prop where
  /-- The name is free at the place. -/
  freeAt : e.FreeAt x p
  /-- The name has no meaning. -/
  unbound : env x = none
  /-- Every other place of an unbound free name comes later in the order of evaluation. -/
  first : ∀ y q, e.FreeAt y q → env y = none → q = p ∨ Before p q

/-! ### The occurrences in order -/

/-- The order of evaluation is asymmetric. -/
theorem Before.asymm {p q : Place} (h : Before p q) : ¬Before q p := by
  induction h with
  | operands p q => exact nofun
  | definition p q => exact nofun
  | within s h ih =>
    intro h'
    cases h' with
    | within _ h' => exact ih h'

/-- The occurrence with its place extended by the part. -/
def inPart (s : Part) (o : String × Place) : String × Place := (o.1, s :: o.2)

/-- The free names of an expression with their places, in the order of evaluation. -/
def occurrences : Expr → List (String × Place)
  | var x => [(x, [])]
  | const _ => []
  | add a b => b.occurrences.map (inPart .right) ++ a.occurrences.map (inPart .left)
  | letIn x e b =>
    e.occurrences.map (inPart .bound) ++
      (b.occurrences.filter (·.1 ≠ x)).map (inPart .body)

/-- The names of the occurrences are the free names, in the same order. -/
theorem map_fst_occurrences (e : Expr) : e.occurrences.map Prod.fst = e.free := by
  have hpart (s : Part) (os : List (String × Place)) :
      (os.map (inPart s)).map Prod.fst = os.map Prod.fst := List.map_map
  induction e with
  | var x => rfl
  | const k => rfl
  | add a b iha ihb => rw [occurrences, free, List.map_append, hpart, hpart, iha, ihb]
  | letIn x e b ihe ihb =>
    rw [occurrences, free, List.map_append, hpart, hpart, ihe, ← ihb, List.filter_map]
    rfl

/-- A name that is free at a place is an occurrence at that place. -/
theorem mem_occurrences_of_freeAt {e : Expr} {x : String} {p : Place} (h : e.FreeAt x p) :
    (x, p) ∈ e.occurrences := by
  induction h with
  | var => exact List.mem_singleton_self _
  | left _ ih => exact List.mem_append_right _ (List.mem_map_of_mem ih)
  | right _ ih => exact List.mem_append_left _ (List.mem_map_of_mem ih)
  | bound _ ih => exact List.mem_append_left _ (List.mem_map_of_mem ih)
  | @body y e b p hne _ ih =>
    have hkept : (x, p) ∈ b.occurrences.filter (·.1 ≠ y) :=
      List.mem_filter.mpr ⟨ih, decide_eq_true hne⟩
    exact List.mem_append_right _ (List.mem_map_of_mem hkept)

/-- A name of an occurrence is free at the place of the occurrence. -/
theorem freeAt_of_mem_occurrences {e : Expr} {o : String × Place} (h : o ∈ e.occurrences) :
    e.FreeAt o.1 o.2 := by
  induction e generalizing o with
  | var x =>
    obtain rfl := List.mem_singleton.mp h
    exact .var
  | const k => exact absurd h List.not_mem_nil
  | add a b iha ihb =>
    rcases List.mem_append.mp h with h | h
    · obtain ⟨o, ho, rfl⟩ := List.mem_map.mp h
      exact .right (ihb ho)
    · obtain ⟨o, ho, rfl⟩ := List.mem_map.mp h
      exact .left (iha ho)
  | letIn x e b ihe ihb =>
    rcases List.mem_append.mp h with h | h
    · obtain ⟨o, ho, rfl⟩ := List.mem_map.mp h
      exact .bound (ihe ho)
    · obtain ⟨o, ho, rfl⟩ := List.mem_map.mp h
      obtain ⟨ho, hne⟩ := List.mem_filter.mp ho
      exact .body (of_decide_eq_true hne) (ihb ho)

/-- A name is among the free names exactly if it is free at some place. -/
theorem mem_free_iff {e : Expr} {x : String} : x ∈ e.free ↔ ∃ p, e.FreeAt x p := by
  rw [← map_fst_occurrences, List.mem_map]
  constructor
  · rintro ⟨o, ho, rfl⟩
    exact ⟨o.2, freeAt_of_mem_occurrences ho⟩
  · rintro ⟨p, hp⟩
    exact ⟨(x, p), mem_occurrences_of_freeAt hp, rfl⟩

/-- Occurrences are listed in the order of evaluation. -/
theorem pairwise_occurrences (e : Expr) :
    e.occurrences.Pairwise fun o o' ↦ Before o.2 o'.2 := by
  have hpart (s : Part) {os : List (String × Place)}
      (h : os.Pairwise fun o o' ↦ Before o.2 o'.2) :
      (os.map (inPart s)).Pairwise fun o o' ↦ Before o.2 o'.2 :=
    List.pairwise_map.mpr (h.imp (.within s))
  induction e with
  | var x => exact List.pairwise_singleton _ _
  | const k => exact .nil
  | add a b iha ihb =>
    refine List.pairwise_append.mpr ⟨hpart .right ihb, hpart .left iha, fun o ho o' ho' ↦ ?_⟩
    obtain ⟨o, -, rfl⟩ := List.mem_map.mp ho
    obtain ⟨o', -, rfl⟩ := List.mem_map.mp ho'
    exact .operands _ _
  | letIn x e b ihe ihb =>
    refine List.pairwise_append.mpr
      ⟨hpart .bound ihe, hpart .body (ihb.filter _), fun o ho o' ho' ↦ ?_⟩
    obtain ⟨o, -, rfl⟩ := List.mem_map.mp ho
    obtain ⟨o', -, rfl⟩ := List.mem_map.mp ho'
    exact .definition _ _

/-- In a list sorted by an asymmetric relation, the first element with a property is the one that
all others with the property come after. -/
private theorem find?_eq_some_iff_of_pairwise {α : Type} {r : α → α → Prop}
    (hr : ∀ a b, r a b → ¬r b a) {l : List α} (hl : l.Pairwise r) {P : α → Bool} {a : α} :
    l.find? P = some a ↔ a ∈ l ∧ P a ∧ ∀ b ∈ l, P b → b = a ∨ r a b := by
  induction l with
  | nil => simp
  | cons c l ih =>
    obtain ⟨hc, hl⟩ := List.pairwise_cons.mp hl
    by_cases hP : P c
    · rw [List.find?_cons_of_pos hP, Option.some.injEq]
      constructor
      · rintro rfl
        exact ⟨List.mem_cons_self, hP, fun b hb _ ↦ (List.mem_cons.mp hb).imp_right (hc b)⟩
      · rintro ⟨ha, -, hfirst⟩
        rcases List.mem_cons.mp ha with rfl | ha
        · rfl
        · exact (hfirst c List.mem_cons_self hP).resolve_right (hr c a (hc a ha))
    · rw [List.find?_cons_of_neg hP, ih hl]
      constructor
      · rintro ⟨ha, hPa, hfirst⟩
        refine ⟨List.mem_cons_of_mem c ha, hPa, fun b hb hPb ↦ ?_⟩
        rcases List.mem_cons.mp hb with rfl | hb
        · exact absurd hPb hP
        · exact hfirst b hb hPb
      · rintro ⟨ha, hPa, hfirst⟩
        rcases List.mem_cons.mp ha with rfl | ha
        · exact absurd hPa hP
        · exact ⟨ha, hPa, fun b hb ↦ hfirst b (List.mem_cons_of_mem c hb)⟩

/-- At most one name is free at a place. -/
theorem FreeAt.name_eq {e : Expr} {x y : String} {p : Place} (h : e.FreeAt x p)
    (h' : e.FreeAt y p) : x = y := by
  induction h with
  | var => cases h' with | var => rfl
  | left _ ih => cases h' with | left h' => exact ih h'
  | right _ ih => cases h' with | right h' => exact ih h'
  | bound _ ih => cases h' with | bound h' => exact ih h'
  | body _ _ ih => cases h' with | body _ h' => exact ih h'

/-- The first occurrence without a meaning is the one at the first place of an unbound name. -/
theorem find?_occurrences_eq_some_iff {env : Env} {e : Expr} {o : String × Place} :
    (e.occurrences.find? fun o' ↦ (env o'.1).isNone) = some o ↔ e.FirstUnbound env o.1 o.2 := by
  rw [find?_eq_some_iff_of_pairwise (fun _ _ ↦ Before.asymm) (pairwise_occurrences e)]
  simp only [Option.isNone_iff_eq_none]
  constructor
  · rintro ⟨ho, hx, hfirst⟩
    refine ⟨freeAt_of_mem_occurrences ho, hx, fun y q hq hy ↦ ?_⟩
    exact (hfirst (y, q) (mem_occurrences_of_freeAt hq) hy).imp_left (congrArg Prod.snd)
  · rintro ⟨ho, hx, hfirst⟩
    refine ⟨mem_occurrences_of_freeAt ho, hx, fun o' ho' hx' ↦ ?_⟩
    have hfree := freeAt_of_mem_occurrences ho'
    refine (hfirst o'.1 o'.2 hfree hx').imp_left fun heq ↦ ?_
    exact Prod.ext (hfree.name_eq (heq ▸ ho)) heq

/-- The first free name without a meaning is the name at the first place of an unbound name. -/
theorem find?_free_eq_some_iff {env : Env} {e : Expr} {x : String} :
    (e.free.find? fun y ↦ (env y).isNone) = some x ↔ ∃ p, e.FirstUnbound env x p := by
  rw [← map_fst_occurrences, List.find?_map, Option.map_eq_some_iff]
  constructor
  · rintro ⟨o, ho, rfl⟩
    exact ⟨o.2, find?_occurrences_eq_some_iff.mp ho⟩
  · rintro ⟨p, hp⟩
    exact ⟨(x, p), find?_occurrences_eq_some_iff.mpr hp, rfl⟩

/-! ### What the evaluation comes to -/

/-- An expression has no value if and only if one of its free names has no meaning. Then the name
that is reported is the one at the first place with a free name without a meaning, and otherwise the
value is the number that the expression stands for. -/
theorem eval_outcome (env : Env) (e : Expr) :
    ((∃ u, eval env e = .error u) ↔ ∃ x ∈ e.free, env x = none) ∧
      (∀ meaning : String → Int, (∀ x ∈ e.free, env x = some (meaning x)) →
        eval env e = .ok (e.value meaning)) ∧
      ∀ x, eval env e = .error ⟨x⟩ ↔ ∃ p, e.FirstUnbound env x p := by
  refine ⟨⟨?_, ?_⟩, fun meaning h ↦ eval_eq_ok h,
    fun x ↦ eval_eq_error_iff.trans find?_free_eq_some_iff⟩
  · rintro ⟨⟨x⟩, hx⟩
    have hfind := eval_eq_error_iff.mp hx
    have hnone := List.find?_some (p := fun y ↦ (env y).isNone) hfind
    exact ⟨x, List.mem_of_find?_eq_some hfind, Option.isNone_iff_eq_none.mp hnone⟩
  · rintro ⟨x, hx, hnone⟩
    have hfind : (e.free.find? fun y ↦ (env y).isNone).isSome :=
      List.find?_isSome.mpr ⟨x, hx, Option.isNone_iff_eq_none.mpr hnone⟩
    obtain ⟨y, hy⟩ := Option.isSome_iff_exists.mp hfind
    exact ⟨⟨y⟩, eval_eq_error_iff.mpr hy⟩

/-- `a + (let x = b in 1) + (let b = 2 in b)` is 6 where `a` is 3 and `b` is 4. Where neither has a
meaning it is `b` that is reported, although `x` is not used and `a` stands further left. -/
theorem eval_outcome_unusedName :
    let e : Expr :=
      add (add (var "a") (letIn "x" (var "b") (const 1))) (letIn "b" (const 2) (var "b"))
    let env : Env := Env.ofList [("a", 3), ("b", 4)]
    let meaning (x : String) : Int := if x = "a" then 3 else 4
    (∀ x ∈ e.free, env x = some (meaning x)) ∧ eval env e = .ok 6 ∧
      eval Env.empty e = .error ⟨"b"⟩ := by
  intro e env meaning
  have hmeaning : ∀ x ∈ e.free, env x = some (meaning x) := by decide
  have hfirst : e.FirstUnbound Env.empty "b" [.left, .right, .bound] := by
    refine ⟨.left (.right (.bound .var)), rfl, fun y q hq _ ↦ ?_⟩
    simp only [e] at hq
    cases hq with
    | right h =>
      cases h with
      | bound h => cases h
      | body hne h => cases h; exact absurd rfl hne
    | left h =>
      cases h with
      | left h => cases h; exact .inr (.within _ (.operands _ _))
      | right h =>
        cases h with
        | bound h => cases h; exact .inl rfl
        | body _ h => cases h
  exact ⟨hmeaning, (eval_outcome env e).2.1 meaning hmeaning,
    ((eval_outcome Env.empty e).2.2 "b").mpr ⟨_, hfirst⟩⟩

end Backtrack.Expr
