import Backtrack.Iterator.Next
import Mathlib

/-!
# Work on a part of a heap

A generator works on the objects at a set of addresses. What it does is seen only there: objects
elsewhere stay what they were, what it creates is new, and the cells of the names go on to hold what
the definitions give. So work on one of two disjoint sets leaves the objects of the other alone
(`Works.agrees`) and keeps the sets disjoint (`Works.disjoint`).
-/

namespace Backtrack.Heap

/-- Every cell that is filled holds what the definition of its name gives. -/
def Faithful (defs : Definitions) (h : Heap) : Prop :=
  ∀ name p, h.cells name = some p → defs name = .ok p

/-- A second heap has the same objects as the first at the addresses of a set. -/
def Agrees (F : Set Address) (h h' : Heap) : Prop := Set.EqOn h'.object? h.object? F

/-- Work on the addresses of `F` turns `h` into `h'` and leaves the addresses of `F'` behind. -/
structure Works (defs : Definitions) (F : Set Address) (h h' : Heap) (F' : Set Address) :
    Prop where
  faithful : h'.Faithful defs
  size_le : h.size ≤ h'.size
  frame : ∀ a ∉ F, a < h.size → h'.object? a = h.object? a
  new : F' ⊆ F ∪ Set.Ici h.size
  covers : F' ⊆ Set.Iio h'.size

variable {defs : Definitions} {h h' h₁ h₂ : Heap} {F F' F₁ F₂ G : Set Address} {a : Address}
  {o : Object}

/-! ### Agreement -/

/-- Objects of the set are in a heap that agrees as well. -/
theorem Agrees.object?_eq_some (hag : Agrees F h h') (ha : a ∈ F) (ho : h.object? a = some o) :
    h'.object? a = some o := (hag ha).trans ho

/-- Addresses in use are in use in a heap that agrees. -/
theorem Agrees.covers (hag : Agrees F h h') (hF : F ⊆ Set.Iio h.size) :
    F ⊆ Set.Iio h'.size := by
  intro a ha
  have hlt : a < h.objects.size := hF ha
  have ho : h.object? a = some h.objects[a] := Array.getElem?_eq_getElem hlt
  exact lt_size_of_object? (hag.object?_eq_some ha ho)

/-- An object changed in both heaps makes no difference to their agreement on the others. -/
theorem Agrees.set (hag : Agrees (F \ {a}) h h') (ha : a < h.size) (ha' : a < h'.size)
    (o : Object) : Agrees F (h.set a o) (h'.set a o) := by
  intro b hb
  by_cases hba : b = a
  · rw [hba, object?_set_self ha, object?_set_self ha']
  · rw [object?_set_of_ne h o hba, object?_set_of_ne h' o hba]
    exact hag ⟨hb, hba⟩

/-- A heap agrees with one in which an object elsewhere is changed. -/
theorem agrees_set (h : Heap) (o : Object) (ha : a ∉ F) : Agrees F h (h.set a o) :=
  fun _ hb ↦ object?_set_of_ne h o fun hba ↦ ha (hba ▸ hb)

/-- A heap agrees with one in which a generator elsewhere is moved. -/
theorem agrees_move (h : Heap) (g : Generator) (ha : a ∉ F) : Agrees F h (h.move a g) :=
  h.agrees_set _ ha

/-- A heap agrees with one in which there is an object more. -/
theorem agrees_push (o : Object) (hF : F ⊆ Set.Iio h.size) : Agrees F h (h.push o) :=
  fun _ ha ↦ object?_push_of_lt o (hF ha)

/-! ### Work -/

/-- Work followed by work on what it leaves behind is work. -/
theorem Works.trans (hw : Works defs F h h₁ F₁) (hw' : Works defs F₁ h₁ h₂ F₂) :
    Works defs F h h₂ F₂ where
  faithful := hw'.faithful
  size_le := hw.size_le.trans hw'.size_le
  frame a haF ha := by
    have haF₁ : a ∉ F₁ := fun ha₁ ↦ (hw.new ha₁).elim haF (Nat.not_le_of_lt ha)
    rw [hw'.frame a haF₁ (Nat.lt_of_lt_of_le ha hw.size_le), hw.frame a haF ha]
  new a ha := by
    rcases hw'.new ha with ha₁ | hge
    · exact hw.new ha₁
    · exact .inr (hw.size_le.trans hge)
  covers := hw'.covers

/-- Work on a set is work on a larger set that keeps its other addresses. -/
theorem Works.union (hw : Works defs F h h' F') (hG : G ⊆ Set.Iio h.size) :
    Works defs (F ∪ G) h h' (F' ∪ G) where
  faithful := hw.faithful
  size_le := hw.size_le
  frame a ha hlt := hw.frame a (fun haF ↦ ha (.inl haF)) hlt
  new a ha := by
    rcases ha with ha | ha
    · exact (hw.new ha).imp .inl id
    · exact .inl (.inr ha)
  covers a ha := by
    rcases ha with ha | ha
    · exact hw.covers ha
    · exact Nat.lt_of_lt_of_le (hG ha) hw.size_le

/-- Work may leave a part of what it works on to nobody. -/
theorem Works.mono (hw : Works defs F h h' F') (hsub : F₁ ⊆ F') : Works defs F h h' F₁ :=
  { hw with
    new := hsub.trans hw.new
    covers := hsub.trans hw.covers }

/-- Work on a set is work on a larger set. -/
theorem Works.widen (hw : Works defs F h h' F') (hsub : F ⊆ F₁) : Works defs F₁ h h' F' :=
  { hw with
    frame := fun a ha ↦ hw.frame a fun haF ↦ ha (hsub haF)
    new := hw.new.trans (Set.union_subset_union_left _ hsub) }

/-- Leaving a faithful heap as it is is work. -/
theorem Works.refl (hf : h.Faithful defs) (hF : F ⊆ Set.Iio h.size) : Works defs F h h F where
  faithful := hf
  size_le := Nat.le_refl _
  frame _ _ _ := rfl
  new := Set.subset_union_left
  covers := hF

/-- Changing an object of the set is work. -/
theorem Works.set (hf : h.Faithful defs) (hF : F ⊆ Set.Iio h.size) (ha : a ∈ F) (o : Object) :
    Works defs F h (h.set a o) F where
  faithful := hf
  size_le := Nat.le_of_eq (size_set h a o).symm
  frame b hb _ := object?_set_of_ne h o fun hba ↦ hb (hba ▸ ha)
  new := Set.subset_union_left
  covers := by
    rw [size_set]
    exact hF

/-- Creating an object is work that leaves its address behind as well. -/
theorem Works.push (hf : h.Faithful defs) (hF : F ⊆ Set.Iio h.size) (o : Object) :
    Works defs F h (h.push o) (F ∪ {h.size}) where
  faithful := hf
  size_le := by
    rw [size_push]
    exact Nat.le_succ _
  frame b _ hb := object?_push_of_lt o hb
  new a ha := ha.imp id fun ha ↦ Nat.le_of_eq (Set.mem_singleton_iff.mp ha).symm
  covers a ha := by
    rw [size_push]
    rcases ha with ha | ha
    · exact Nat.lt_succ_of_lt (hF ha)
    · exact Nat.lt_succ_of_le (Nat.le_of_eq (Set.mem_singleton_iff.mp ha))

/-- Objects beside the set that is worked on stay what they were. -/
theorem Works.agrees (hw : Works defs F h h' F') (hdisj : Disjoint F G)
    (hG : G ⊆ Set.Iio h.size) : Agrees G h h' :=
  fun a ha ↦ hw.frame a (fun haF ↦ Set.disjoint_left.mp hdisj haF ha) (hG ha)

/-- What work leaves behind is disjoint from every set that its own set is disjoint from. -/
theorem Works.disjoint (hw : Works defs F h h' F') (hdisj : Disjoint F G)
    (hG : G ⊆ Set.Iio h.size) : Disjoint F' G := by
  rw [Set.disjoint_left]
  intro a ha haG
  rcases hw.new ha with haF | hge
  · exact Set.disjoint_left.mp hdisj haF haG
  · exact Nat.not_le_of_lt (hG haG) hge

end Backtrack.Heap
