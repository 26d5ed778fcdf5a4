/-
# Leaf counts

The shape of a machine counts leaves from the last state to the first. In well-formed
tables children come behind their parents, so every count is taken from the final counts
of the children (`Counted`), and no child is missing: the shape always exists
(`WellFormed.exists_shape`).
-/

import Statechart.Proofs.Rom.WellFormed

namespace Statechart.Rom

/-- The count of a state, given the counts of its children. -/
def StateRecord.weigh (state : StateRecord) (counts : Array Nat) : Nat :=
  let children := state.children.toList.map fun child => counts.getD child 0
  if state.isLeaf then 1
  else if state.flags.parallel then children.foldl (· + ·) 0
  else children.foldl max 0

namespace Sections

variable {sections : Sections}

/-- The counts of all states, each taken from those of its children. -/
structure Counted (sections : Sections) (counts : Array Nat) : Prop where
  size_eq : counts.size = sections.states.size
  count_eq {index : Nat} : index < sections.states.size →
    counts.getD index 0 = (sections.states.getD index .blank).weigh counts

/-! ### Working the counts out -/

/-- Looking up what is there gives all of it. -/
theorem mapM_eq_ok {Key Value : Type} {look : Key → Except Fault Value} (value : Key → Value)
    (keys : List Key) (found : ∀ key ∈ keys, look key = .ok (value key)) :
    keys.mapM look = .ok (keys.map value) := by
  induction keys with
  | nil => rfl
  | cons key rest ih =>
    rw [List.mapM_cons, found key (List.mem_cons_self ..),
      ih fun other later => found other (List.mem_cons_of_mem _ later)]
    rfl

theorem leafCount_eq {state : StateRecord} {counts : Array Nat}
    (inside : ∀ child ∈ state.children.toList, child < counts.size) :
    Shape.leafCount state counts = .ok (state.weigh counts) := by
  unfold Shape.leafCount StateRecord.weigh
  by_cases leaf : state.isLeaf = true
  · simp only [leaf, if_true]
    rfl
  · rw [if_neg leaf, if_neg leaf,
      mapM_eq_ok (fun child => counts.getD child 0) _ fun child listed => by
        rw [Array.getD_eq_getD_getElem?, Array.getElem?_eq_getElem (inside child listed)]
        rfl]
    rfl

namespace WellFormed

/-- Children come behind their parent. -/
theorem lt_of_mem_children (wellFormed : sections.WellFormed) {state : UInt16} {index : Nat}
    (has : sections.Has state) (listed : index ∈ (sections.record state).children.toList) :
    state.toNat < index ∧ index < sections.states.size := by
  obtain ⟨inside, linked⟩ := (wellFormed.mem_children has).1 listed
  have small : sections.states.size ≤ 65535 := wellFormed.size_le
  have index16 : (UInt16.ofNat index).toNat = index :=
    UInt16.toNat_ofNat_of_lt' (show index < 65536 by omega)
  have childHas : sections.Has (UInt16.ofNat index) := by rwa [Has, index16]
  refine ⟨?_, inside⟩
  have other : UInt16.ofNat index ≠ rootIndex := by
    intro top
    rw [top, wellFormed.parent_root] at linked
    subst linked
    have bound : 65535 < sections.states.size := has
    omega
  have before := wellFormed.parent_lt childHas other
  rwa [linked, UInt16.lt_iff_toNat_lt, index16] at before

theorem index_lt (wellFormed : sections.WellFormed) {index child : Nat}
    (inside : index < sections.states.size)
    (listed : child ∈ (sections.states.getD index .blank).children.toList) :
    index < child ∧ child < sections.states.size := by
  have small : sections.states.size ≤ 65535 := wellFormed.size_le
  have index16 : (UInt16.ofNat index).toNat = index :=
    UInt16.toNat_ofNat_of_lt' (show index < 65536 by omega)
  have has : sections.Has (UInt16.ofNat index) := by rwa [Has, index16]
  have bounds : child ∈ (sections.record (UInt16.ofNat index)).children.toList → _ :=
    wellFormed.lt_of_mem_children has
  rw [record, index16] at bounds
  exact bounds listed

/-- A count only depends on those behind it. -/
theorem weigh_set (wellFormed : sections.WellFormed) {index place : Nat}
    (inside : index < sections.states.size) (early : place ≤ index) (counts : Array Nat)
    (count : Nat) :
    (sections.states.getD index .blank).weigh (counts.set! place count) =
      (sections.states.getD index .blank).weigh counts := by
  unfold StateRecord.weigh
  have same : ((sections.states.getD index .blank).children.toList.map
      fun child => (counts.set! place count).getD child 0) =
      (sections.states.getD index .blank).children.toList.map fun child => counts.getD child 0 := by
    apply List.map_congr_left
    intro child listed
    have later := (wellFormed.index_lt inside listed).1
    have differs : place ≠ child := Nat.ne_of_lt (Nat.lt_of_le_of_lt early later)
    simp only [Array.getD_eq_getD_getElem?, Array.set!_eq_setIfInBounds,
      Array.getElem?_setIfInBounds_ne differs]
  rw [same]

/-- Once the states from `left` on are counted, the others can be. -/
theorem exists_counted (wellFormed : sections.WellFormed) {left : Nat} (counts : Array Nat)
    (within : left ≤ sections.states.size) (size : counts.size = sections.states.size)
    (counted : ∀ index, left ≤ index → index < sections.states.size →
      counts.getD index 0 = (sections.states.getD index .blank).weigh counts) :
    ∃ last, (List.range left).reverse.foldlM
        (fun counts index => do
          let count ← Shape.leafCount (sections.states.getD index .blank) counts
          return counts.set! index count)
        counts = .ok last ∧ sections.Counted last := by
  induction left generalizing counts with
  | zero => exact ⟨counts, rfl, size, fun inside => counted _ (Nat.zero_le _) inside⟩
  | succ left ih =>
    have inside : left < sections.states.size := within
    have known : ∀ child ∈ (sections.states.getD left .blank).children.toList,
        child < counts.size := fun child listed =>
      size ▸ (wellFormed.index_lt inside listed).2
    obtain ⟨last, found, final⟩ := ih
      (counts.set! left ((sections.states.getD left .blank).weigh counts))
      (Nat.le_of_lt inside) (by simpa using size) fun index late indexInside => by
        rw [wellFormed.weigh_set indexInside late]
        by_cases here : left = index
        · subst here
          simp [Array.getD_eq_getD_getElem?, size ▸ inside]
        · have above : left + 1 ≤ index := Nat.lt_of_le_of_ne late here
          rw [← counted index above indexInside]
          simp [Array.getD_eq_getD_getElem?, Array.getElem?_setIfInBounds_ne here]
    refine ⟨last, ?_, final⟩
    rw [List.range_succ, List.reverse_append, List.reverse_singleton, List.singleton_append,
      List.foldlM_cons, leafCount_eq known]
    exact found

theorem exists_leafCounts (wellFormed : sections.WellFormed) :
    ∃ counts, Shape.leafCounts sections.states = .ok counts ∧ sections.Counted counts :=
  wellFormed.exists_counted (Array.replicate sections.states.size 0) (Nat.le_refl _)
    Array.size_replicate fun _ late inside => absurd inside (Nat.not_lt.2 late)

/-- Well-formed tables have a shape, whose leaf count is that of the root. -/
theorem exists_shape (wellFormed : sections.WellFormed) :
    ∃ counts shape, sections.Counted counts ∧ Shape.ofSections sections = .ok shape ∧
      shape.maxLeaves = max (counts.getD 0 0) 1 := by
  obtain ⟨counts, leaves, counted⟩ := wellFormed.exists_leafCounts
  have shaped : ∃ shape, Shape.ofSections sections = .ok shape ∧
      shape.maxLeaves = max (counts.getD 0 0) 1 := by
    rw [Shape.ofSections, leaves]
    exact ⟨_, rfl, rfl⟩
  obtain ⟨shape, worked, leafCount⟩ := shaped
  exact ⟨counts, shape, counted, worked, leafCount⟩

end WellFormed

end Sections

end Statechart.Rom
