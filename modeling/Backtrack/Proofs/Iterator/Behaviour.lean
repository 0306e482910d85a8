import Backtrack.Proofs.Iterator.Work
import Backtrack.Proofs.Trace.Asking

/-!
# Generators that behave as a trace

A generator behaves as a trace if it gives the results of the trace one by one, and then its end or
its fault, whatever happens in the meantime to the objects that it does not own. It owns a set of
addresses, its own one and those of everything from which it draws. Each way in which a generator
goes on has a theorem that says as which trace it behaves if the generators from which it draws
behave as theirs.
-/

namespace Backtrack

open Heap (Faithful Agrees Works)

/-! ### Enough steps -/

/-- The generator at `a` answers `r`, with the heap `h'` after it, given enough steps. -/
def Delivers (defs : Definitions) (a : Address) (h : Heap)
    (r : Except Fault (Option (Value × List Value)) × Heap) : Prop :=
  ∀ᶠ n in Filter.atTop, defs.next n a h = some r

section

variable {defs : Definitions} {a b : Address} {h h' : Heap}
  {r x : Except Fault (Option (Value × List Value)) × Heap}

/-- An answer given within all large step counts of the form `n + 1` is delivered. -/
private theorem delivers_of_succ (hd : ∀ᶠ n in Filter.atTop, defs.next (n + 1) a h = some r) :
    Delivers defs a h r := by
  rw [Delivers, ← Filter.map_add_atTop_eq_nat 1, Filter.eventually_map]
  exact hd

/-- A generator that answers in one step, whatever the step count, delivers that answer. -/
theorem delivers_of_next_eq_some (he : ∀ n, defs.next (n + 1) a h = some r) :
    Delivers defs a h r :=
  delivers_of_succ (.of_forall he)

/-- A generator that continues as another one delivers the answer of that one. -/
theorem Delivers.of_next_eq (he : ∀ n, defs.next (n + 1) a h = defs.next n b h')
    (hd : Delivers defs b h' r) : Delivers defs a h r := by
  refine delivers_of_succ (hd.mono fun n hn ↦ ?_)
  rw [he, hn]

/-- A generator that asks a source delivers what follows from the delivered answer of the source. -/
theorem Delivers.bind {k : Nat → Except Fault (Option (Value × List Value)) × Heap →
      Option (Except Fault (Option (Value × List Value)) × Heap)}
    (he : ∀ n, defs.next (n + 1) a h = (defs.next n b h).bind (k n)) (hb : Delivers defs b h x)
    (hk : ∀ᶠ n in Filter.atTop, k n x = some r) : Delivers defs a h r := by
  refine delivers_of_succ ((hb.and hk).mono fun n hn ↦ ?_)
  rw [he, hn.1, Option.bind_some, hn.2]

end

/-! ### Behaviour -/

/-- The generator at `a` is asked and answers `first`. Its work is on the addresses of `F`, and then
`after` holds of the heap and of the addresses that it leaves behind. -/
def Answers (defs : Definitions) (a : Address) (h : Heap) (F : Set Address)
    (first : Except Fault (Option (Value × List Value))) (after : Heap → Set Address → Prop) :
    Prop :=
  ∃ h' F', Delivers defs a h (first, h') ∧ Works defs F h h' F' ∧ after h' F'

/-- The generator at `a` gives the results of a trace if it is asked now, and from then on whenever
it is asked in a heap that agrees with the last one on the addresses that it owns. -/
def Gives (defs : Definitions) (a : Address) :
    Trace (Value × List Value) → Heap → Set Address → Prop
  | .done, h, F => Answers defs a h F (.ok none) fun h' _ ↦ h'.generator a = .over
  | .raised fault, h, F => Answers defs a h F (.error fault) fun h' _ ↦ h'.generator a = .over
  | .yield r more, h, F => Answers defs a h F (.ok (some r)) fun h' F' ↦
      a ∈ F' ∧ F' ⊆ Set.Iio h'.size ∧
        ∀ h'', h''.Faithful defs → Agrees F' h' h'' → Gives defs a (more ()) h'' F'

/-- The generator at `a` behaves as a trace: it gives the results of the trace whenever it is asked
in a heap that agrees with this one on the addresses that it owns. -/
def Behaves (defs : Definitions) (a : Address) (t : Trace (Value × List Value)) (h : Heap)
    (F : Set Address) : Prop :=
  a ∈ F ∧ F ⊆ Set.Iio h.size ∧
    ∀ h', h'.Faithful defs → Agrees F h h' → Gives defs a t h' F

variable {defs : Definitions} {a b : Address} {t t' : Trace (Value × List Value)} {h h' : Heap}
  {F F' G : Set Address}

theorem Behaves.mem (hb : Behaves defs a t h F) : a ∈ F := hb.1

theorem Behaves.covers (hb : Behaves defs a t h F) : F ⊆ Set.Iio h.size := hb.2.1

theorem Behaves.lt_size (hb : Behaves defs a t h F) : a < h.size := hb.covers hb.mem

/-- A generator that behaves as a trace gives its results. -/
theorem Behaves.gives (hb : Behaves defs a t h F) (hf : h.Faithful defs) : Gives defs a t h F :=
  hb.2.2 h hf (Set.eqOn_refl _ _)

/-- A generator behaves alike in heaps that agree on what it owns. -/
theorem Behaves.of_agrees (hb : Behaves defs a t h F) (hag : Agrees F h h') :
    Behaves defs a t h' F :=
  ⟨hb.mem, hag.covers hb.covers, fun h'' hf hag' ↦ hb.2.2 h'' hf (hag'.trans hag)⟩

/-- Silent work in front of an answer does not change the answer. -/
theorem Answers.of_delivers {first : Except Fault (Option (Value × List Value))}
    {after : Heap → Set Address → Prop}
    (he : ∀ r, Delivers defs a h' r → Delivers defs a h r) (hw : Works defs F h h' F')
    (ha : Answers defs a h' F' first after) : Answers defs a h F first after := by
  obtain ⟨h'', F'', hnext, hw', hafter⟩ := ha
  exact ⟨h'', F'', he _ hnext, hw.trans hw', hafter⟩

/-- Silent work in front of the results does not change the results. -/
theorem Gives.of_delivers (he : ∀ r, Delivers defs a h' r → Delivers defs a h r)
    (hw : Works defs F h h' F') (ht : Gives defs a t h' F') : Gives defs a t h F := by
  cases t with
  | done => exact Answers.of_delivers he hw ht
  | raised fault => exact Answers.of_delivers he hw ht
  | yield r more => exact Answers.of_delivers he hw ht

/-- A generator that asks a source behaves as a trace if it gives the results of the trace each time
that the source has answered what comes first in its own trace. The source goes on to behave as what
comes later, and its work leaves alone what else the generator owns. -/
theorem behaves_asking (hs : Behaves defs b t h F) (ha : a ∈ G) (hG : G ⊆ Set.Iio h.size)
    (hdisj : Disjoint F G)
    (hgives : ∀ h' h₁ F₁, Agrees (F ∪ G) h h' → Delivers defs b h' (t.first, h₁) →
      Agrees G h h₁ → Disjoint F₁ G → Works defs (F ∪ G) h' h₁ (F₁ ∪ G) →
      (∀ r more, t = .yield r more → Behaves defs b (more ()) h₁ F₁) →
      Gives defs a t' h' (F ∪ G)) :
    Behaves defs a t' h (F ∪ G) := by
  refine ⟨.inr ha, Set.union_subset hs.covers hG, fun h' hf hag ↦ ?_⟩
  have hagG : Agrees G h h' := hag.mono Set.subset_union_right
  have hG' : G ⊆ Set.Iio h'.size := hagG.covers hG
  have hasked := hs.2.2 h' hf (hag.mono Set.subset_union_left)
  cases t with
  | done =>
    obtain ⟨h₁, F₁, hnext, hw, -⟩ := hasked
    exact hgives h' h₁ F₁ hag hnext ((hw.agrees hdisj hG').trans hagG) (hw.disjoint hdisj hG')
      (hw.union hG') nofun
  | raised fault =>
    obtain ⟨h₁, F₁, hnext, hw, -⟩ := hasked
    exact hgives h' h₁ F₁ hag hnext ((hw.agrees hdisj hG').trans hagG) (hw.disjoint hdisj hG')
      (hw.union hG') nofun
  | yield r more =>
    obtain ⟨h₁, F₁, hnext, hw, hmore⟩ := hasked
    refine hgives h' h₁ F₁ hag hnext ((hw.agrees hdisj hG').trans hagG) (hw.disjoint hdisj hG')
      (hw.union hG') ?_
    rintro _ _ ⟨⟩
    exact hmore

/-! ### Where a generator stands -/

/-- A generator object is the generator at its address. -/
theorem Heap.generator_of_object? {g : Generator} (ho : h.object? a = some (.generator g)) :
    h.generator a = g := by
  rw [generator, ho]

/-- A moved generator is found at its address. -/
theorem Heap.object?_move_self (ha : a < h.size) (g : Generator) :
    (h.move a g).object? a = some (.generator g) := object?_set_self ha _

theorem Heap.generator_move_self (ha : a < h.size) (g : Generator) :
    (h.move a g).generator a = g := generator_of_object? (object?_move_self ha g)

/-- A generator that is over behaves as the empty trace. -/
theorem behaves_over (defs : Definitions) (ha : a < h.size) (ho : h.generator a = .over) :
    Behaves defs a .done h {a} := by
  refine ⟨rfl, Set.singleton_subset_iff.mpr ha, fun h' hf hag ↦ ?_⟩
  have ho' : h'.generator a = .over := by
    rw [Heap.generator, hag rfl]
    exact ho
  refine ⟨h', {a}, ?_, Works.refl hf (hag.covers (Set.singleton_subset_iff.mpr ha)), ho'⟩
  exact delivers_of_next_eq_some fun n ↦ defs.next_over n ho'

/-- A generator that finishes answers that there are no more results, and is over. -/
theorem Answers.finish (he : Delivers defs a h (h'.finish a)) (hw : Works defs F h h' F')
    (ha : a ∈ F') : Gives defs a .done h F :=
  ⟨h'.move a .over, F', he, hw.trans (.set hw.faithful hw.covers ha _),
    Heap.generator_move_self (hw.covers ha) _⟩

/-- A generator that raises a fault answers the fault, and is over. -/
theorem Answers.raise {fault : Fault} (he : Delivers defs a h (h'.raise a fault))
    (hw : Works defs F h h' F') (ha : a ∈ F') : Gives defs a (.raised fault) h F :=
  ⟨h'.move a .over, F', he, hw.trans (.set hw.faithful hw.covers ha _),
    Heap.generator_move_self (hw.covers ha) _⟩

/-- A generator object stands where it stood in a heap that agrees. -/
theorem Heap.Agrees.generator {g : Generator} (hag : Agrees F h h') (ha : a ∈ F)
    (ho : h.object? a = some (.generator g)) : h'.generator a = g :=
  generator_of_object? (hag.object?_eq_some ha ho)

/-! ### Generators that draw from no other -/

/-- A generator that owns its address only behaves as what it gives from where it stands. -/
theorem behaves_alone {g : Generator} (ho : h.object? a = some (.generator g))
    (hgives : ∀ h', h'.Faithful defs → a < h'.size → h'.generator a = g → Gives defs a t h' {a}) :
    Behaves defs a t h {a} := by
  have hc : {a} ⊆ Set.Iio h.size := Set.singleton_subset_iff.mpr (Heap.lt_size_of_object? ho)
  exact ⟨rfl, hc, fun h' hf hag ↦ hgives h' hf (hag.covers hc rfl) (hag.generator rfl ho)⟩

/-- A generator that gives a result and moves on gives it and then what follows from there. -/
theorem gives_yield {r : Value × List Value} {more : Unit → Trace (Value × List Value)}
    {g : Generator} (hf : h.Faithful defs) (ha : a < h.size)
    (he : ∀ n, defs.next (n + 1) a h = some (.ok (some r), h.move a g))
    (hmore : Behaves defs a (more ()) (h.move a g) {a}) :
    Gives defs a (.yield r more) h {a} :=
  ⟨h.move a g, {a}, delivers_of_next_eq_some he,
    .set hf (Set.singleton_subset_iff.mpr ha) rfl _, hmore⟩

/-- A generator that gives one value and is over gives the trace of that value. -/
theorem gives_single {r : Value × List Value} (hf : h.Faithful defs) (ha : a < h.size)
    (he : ∀ n, defs.next (n + 1) a h = some (.ok (some r), h.move a .over)) :
    Gives defs a (.yield r fun _ ↦ .done) h {a} := by
  have ha' : a < (h.move a .over).size := by rwa [Heap.size_move]
  exact gives_yield hf ha he (behaves_over defs ha' (Heap.generator_move_self ha _))

/-- A generator that finishes gives the empty trace. -/
theorem gives_done (hf : h.Faithful defs) (ha : a < h.size)
    (he : ∀ n, defs.next (n + 1) a h = some (h.finish a)) : Gives defs a .done h {a} :=
  Answers.finish (delivers_of_next_eq_some he) (.refl hf (Set.singleton_subset_iff.mpr ha)) rfl

/-- A generator of one value behaves as the trace of that value. -/
theorem behaves_value {v : Value} {ts : List Value}
    (ho : h.object? a = some (.generator (.value v ts))) :
    Behaves defs a ((Parser.pure v).run ts) h {a} :=
  behaves_alone ho fun _ hf ha hg ↦ gives_single hf ha fun n ↦ defs.next_value n hg

/-- A generator of one token behaves as the run of the token parser. -/
theorem behaves_token {image? : Value → Option Value} {ts : List Value}
    (ho : h.object? a = some (.generator (.token image? ts))) :
    Behaves defs a ((Parser.token image?).run ts) h {a} := by
  refine behaves_alone ho fun h' hf ha hg ↦ ?_
  cases ts with
  | nil => exact gives_done hf ha fun n ↦ defs.next_token_nil n hg
  | cons t ts =>
    have he (n : Nat) := defs.next_token_cons n hg
    rw [Parser.token]
    cases hi : image? t with
    | none =>
      simp only [hi] at he ⊢
      exact gives_done hf ha he
    | some v =>
      simp only [hi] at he ⊢
      exact gives_single hf ha he

/-- A generator that goes through results behaves as the trace of these results. -/
theorem behaves_listing (ho : h.object? a = some (.generator (.listing t))) :
    Behaves defs a t h {a} := by
  induction t generalizing h with
  | done =>
    exact behaves_alone ho fun _ hf ha hg ↦ gives_done hf ha fun n ↦ defs.next_listing_done n hg
  | raised fault =>
    exact behaves_alone ho fun _ hf ha hg ↦
      Answers.raise (delivers_of_next_eq_some fun n ↦ defs.next_listing_raised n hg)
        (.refl hf (Set.singleton_subset_iff.mpr ha)) rfl
  | yield r more ih =>
    exact behaves_alone ho fun _ hf ha hg ↦ gives_yield hf ha
      (fun n ↦ defs.next_listing_yield n hg) (ih () (Heap.object?_move_self ha _))

/-! ### Generators that draw from others -/

/-- A generator behaves alike after setting an object that it owns, in heaps that agree on the rest
of what it owns. -/
theorem Behaves.set {h₁ : Heap} {x : Address} {o : Object} (hb : Behaves defs a t (h.set x o) G)
    (hx : x ∈ G) (hx₁ : x < h₁.size) (hag : Agrees (G \ {x}) h h₁) :
    Behaves defs a t (h₁.set x o) G := by
  have hxh : x < h.size := by
    have hlt := hb.covers hx
    rwa [Set.mem_Iio, Heap.size_set] at hlt
  exact hb.of_agrees (hag.set hxh hx₁ o)

/-- A generator that sets an object of its own and then behaves as a trace gives that trace. -/
theorem Behaves.gives_set {h₁ : Heap} {x : Address} {o : Object} {F₁ : Set Address}
    (hb : Behaves defs a t (h₁.set x o) G) (hx : x ∈ G) (hw : Works defs F h h₁ F₁) (hsub : G ⊆ F₁)
    (he : ∀ r, Delivers defs a (h₁.set x o) r → Delivers defs a h r) : Gives defs a t h F := by
  have hwset := hw.trans (.set hw.faithful hw.covers (hsub hx) o)
  exact Gives.of_delivers he (hwset.mono hsub) (hb.gives hwset.faithful)

/-- A drawing generator gives the results of its source with their values through `f`, then behaves
as `after` does. -/
theorem behaves_drawing {source : Address} {f : Value → Except Fault Value} {after : Generator}
    (hs : Behaves defs source t h F)
    (ho : h.object? a = some (.generator (.drawing source f after)))
    (hafter : Behaves defs a t' (h.move a after) G) (hdisj : Disjoint F G) :
    Behaves defs a ((t.tryMap fun r ↦ (f r.1).map (·, r.2)).append fun _ ↦ t') h (F ∪ G) := by
  have hG : G ⊆ Set.Iio h.size := by
    have hc := hafter.covers
    rwa [Heap.size_move] at hc
  induction t generalizing h F with
  | done =>
    refine behaves_asking hs hafter.mem hG hdisj fun h' h₁ F₁ hag hnext hagG _ hw _ ↦ ?_
    have he (n : Nat) := defs.next_drawing n (hag.generator (.inr hafter.mem) ho)
    have hafter₁ := hafter.set hafter.mem (hagG.covers hG hafter.mem) (hagG.mono Set.sdiff_subset)
    exact hafter₁.gives_set hafter.mem hw Set.subset_union_right fun r hr ↦ .bind he hnext hr
  | raised fault =>
    refine behaves_asking hs hafter.mem hG hdisj fun h' h₁ F₁ hag hnext _ _ hw _ ↦ ?_
    have he (n : Nat) := defs.next_drawing n (hag.generator (.inr hafter.mem) ho)
    exact Answers.raise (.bind he hnext (.of_forall fun _ ↦ rfl)) hw (.inr hafter.mem)
  | yield r more ih =>
    refine behaves_asking hs hafter.mem hG hdisj fun h' h₁ F₁ hag hnext hagG hdisj₁ hw hmore ↦ ?_
    have he (n : Nat) := defs.next_drawing n (hag.generator (.inr hafter.mem) ho)
    rw [Trace.tryMap]
    cases hf : f r.1 with
    | error fault =>
      exact Answers.raise (.bind he hnext (.of_forall fun _ ↦ by simp only [Trace.first, hf])) hw
        (.inr hafter.mem)
    | ok w =>
      have hafter₁ :=
        hafter.set hafter.mem (hagG.covers hG hafter.mem) (hagG.mono Set.sdiff_subset)
      have hrest := ih () (hmore r more rfl) (hagG.object?_eq_some hafter.mem ho) hafter₁ hdisj₁
        (hagG.covers hG)
      exact ⟨h₁, F₁ ∪ G, .bind he hnext (.of_forall fun _ ↦ by simp only [Trace.first, hf]), hw,
        hrest⟩

end Backtrack
