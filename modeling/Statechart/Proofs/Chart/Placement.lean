/-
# Placements

What laying out says about one state of the order: its index is its place, it lies one
level below its parent, and if it asks for a slot it gets one. Placements, slots and depths
are all read off tables that are filled entry by entry.

Slots do not run out as long as the claims can be told apart by sixteen bits
(`mem_assign`).
-/

import Mathlib.Data.List.Nodup
import Mathlib.Data.List.Perm.Subperm
import Statechart.Proofs.Chart.BreadthFirst
import Statechart.Proofs.Folds

namespace Statechart.Chart

/-! ### Slots -/

namespace SlotClaim

/-- There are as many free slots as were asked for, while sixteen bits can tell them and
the taken ones apart. -/
theorem length_freeSlots {taken : List UInt16} {count : Nat}
    (few : count + taken.length ≤ 65536) : (freeSlots taken count).length = count := by
  have split := List.length_eq_length_filter_add (l := List.range (count + taken.length))
    fun slot => !taken.contains (UInt16.ofNat slot)
  rw [List.length_range] at split
  -- What was passed over is taken, and different numbers are different slots.
  have passed : ((List.range (count + taken.length)).filter
      fun slot => !!taken.contains (UInt16.ofNat slot)).length ≤ taken.length := by
    rw [← List.length_map UInt16.ofNat]
    refine (List.subperm_of_subset (List.Nodup.map_on ?_ (List.nodup_range.filter _)) ?_).length_le
    · intro first inFirst second inSecond same
      have firstSmall := List.mem_range.1 (List.mem_filter.1 inFirst).1
      have secondSmall := List.mem_range.1 (List.mem_filter.1 inSecond).1
      have equal := congrArg UInt16.toNat same
      have small {number : Nat} (member : number < count + taken.length) :
          (UInt16.ofNat number).toNat = number :=
        UInt16.toNat_ofNat_of_lt' (Nat.lt_of_lt_of_le member few)
      rwa [small firstSmall, small secondSmall] at equal
    · intro slot listed
      obtain ⟨number, member, rfl⟩ := List.mem_map.1 listed
      simpa using (List.mem_filter.1 member).2
  rw [freeSlots, List.length_take]
  omega

/-- Every claim is met. -/
theorem mem_assign {claims : List SlotClaim} (few : claims.length ≤ 65536) {claim : SlotClaim}
    (claimed : claim ∈ claims) : ∃ entry ∈ assign claims, entry.1 = claim.state := by
  unfold assign
  cases asked : claim.explicit with
  | some slot =>
    refine ⟨(claim.state, slot), List.mem_append_left _ ?_, rfl⟩
    exact List.mem_filterMap.2 ⟨claim, claimed, by rw [asked]; rfl⟩
  | none =>
    have pending : claim ∈ (claims.filter fun claim => claim.explicit.isNone).mergeSort precedes :=
      List.mem_mergeSort.2 (List.mem_filter.2 ⟨claimed, by rw [asked]; rfl⟩)
    have taken : (claims.filterMap fun claim => claim.explicit.map (claim.state, ·)).length =
        (claims.filter fun claim => !claim.explicit.isNone).length := by
      clear * -
      induction claims with
      | nil => rfl
      | cons first rest ih =>
        cases asked : first.explicit <;> simp [asked, ih]
    have all := List.length_eq_length_filter_add (l := claims)
      fun claim => claim.explicit.isNone
    generalize claims.filterMap (fun claim => claim.explicit.map (claim.state, ·)) = explicit at *
    have enough : (freeSlots (explicit.map Prod.snd)
        ((claims.filter fun claim => claim.explicit.isNone).mergeSort precedes).length).length =
        ((claims.filter fun claim => claim.explicit.isNone).mergeSort precedes).length := by
      refine length_freeSlots ?_
      rw [List.length_mergeSort, List.length_map]
      omega
    generalize (claims.filter fun claim => claim.explicit.isNone).mergeSort precedes = queue at *
    have firsts : ((queue.map SlotClaim.state).zip
        ((freeSlots (explicit.map Prod.snd) queue.length).map UInt16.ofNat)).map Prod.fst =
        queue.map SlotClaim.state := by
      rw [List.map_fst_zip]
      simp [enough]
    have served := firsts ▸ List.mem_map_of_mem (f := SlotClaim.state) pending
    obtain ⟨entry, member, same⟩ := List.mem_map.1 served
    exact ⟨entry, List.mem_append_right _ member, same⟩

end SlotClaim

namespace Graph

variable {graph : Graph}

/-- A state that is given a slot finds it in the table. -/
theorem exists_slotTable {assigned : List (StateId × UInt16)} {id : StateId}
    (inside : id < graph.stateCount) (met : ∃ entry ∈ assigned, entry.1 = id) :
    ∃ slot, (graph.slotTable assigned).getD id none = some slot := by
  obtain ⟨entry, -, -, found⟩ := exists_getD_foldl Prod.fst Prod.snd
    (Array.replicate graph.stateCount none) (by simpa using inside) met
  exact ⟨entry.2, found⟩

/-! ### Depths -/

/-- Write the depth of the next state. -/
def placeDepth (graph : Graph) (depths : Array Nat) (id : StateId) : Array Nat :=
  match (graph.state id).parent with
  | some parent =>
      if id = rootId then depths
      else depths.set! id (min (depths.getD parent 0 + 1) 255)
  | none => depths

theorem depths_eq (order : Array StateId) :
    graph.depths order =
      order.toList.foldl graph.placeDepth (Array.replicate graph.stateCount 0) := by
  rw [depths, ← Array.foldl_toList]
  rfl

theorem size_placeDepth (depths : Array Nat) (id : StateId) :
    (graph.placeDepth depths id).size = depths.size := by
  unfold placeDepth
  split
  · split
    · rfl
    · rw [Array.set!_eq_setIfInBounds, Array.size_setIfInBounds]
  · rfl

theorem size_foldl_placeDepth (ids : List StateId) (depths : Array Nat) :
    (ids.foldl graph.placeDepth depths).size = depths.size := by
  induction ids generalizing depths with
  | nil => rfl
  | cons id rest ih => rw [List.foldl_cons, ih, size_placeDepth]

theorem getD_placeDepth_of_ne {depths : Array Nat} {id other : StateId} (differs : id ≠ other) :
    (graph.placeDepth depths id).getD other 0 = depths.getD other 0 := by
  unfold placeDepth
  split
  · split
    · rfl
    · rw [getD_set, if_neg fun both => differs both.1]
  · rfl

theorem getD_foldl_placeDepth {ids : List StateId} {other : StateId} (absent : other ∉ ids)
    (depths : Array Nat) :
    (ids.foldl graph.placeDepth depths).getD other 0 = depths.getD other 0 := by
  induction ids generalizing depths with
  | nil => rfl
  | cons id rest ih =>
    rw [List.foldl_cons, ih fun later => absent (List.mem_cons_of_mem _ later),
      getD_placeDepth_of_ne (List.ne_of_not_mem_cons absent).symm]

theorem getD_foldl_placeDepth_root (ids : List StateId) (depths : Array Nat) :
    (ids.foldl graph.placeDepth depths).getD rootId 0 = depths.getD rootId 0 := by
  induction ids generalizing depths with
  | nil => rfl
  | cons id rest ih =>
    rw [List.foldl_cons, ih]
    unfold placeDepth
    split
    · by_cases top : id = rootId
      · rw [if_pos top]
      · rw [if_neg top, getD_set, if_neg fun both => top both.1]
    · rfl

/-- The root is not deep. -/
theorem depths_root (order : Array StateId) : (graph.depths order).getD rootId 0 = 0 := by
  rw [depths_eq, getD_foldl_placeDepth_root, Array.getD_eq_getD_getElem?, Array.getElem?_replicate]
  split <;> rfl

/-- A state lies one level below a parent that comes before it. -/
theorem depths_succ {order : Array StateId} (apart : order.toList.Nodup) {place earlier : Nat}
    {id parent : StateId} (inside : id < graph.stateCount) (here : order[place]? = some id)
    (other : id ≠ rootId) (linked : (graph.state id).parent = some parent)
    (above : order[earlier]? = some parent) (before : earlier < place) :
    (graph.depths order).getD id 0 = min ((graph.depths order).getD parent 0 + 1) 255 := by
  rw [← Array.getElem?_toList] at here above
  obtain ⟨inOrder, atPlace⟩ := List.getElem?_eq_some_iff.1 here
  -- Depths are final once written, since no state comes twice.
  have split : order.toList = order.toList.take place ++ id :: order.toList.drop (place + 1) := by
    rw [← atPlace, List.getElem_cons_drop, List.take_append_drop]
  rw [depths_eq]
  rw [split] at apart ⊢
  have parentEarly : parent ∈ order.toList.take place :=
    List.mem_take_iff_getElem.2 ⟨earlier, by
      have := (List.getElem?_eq_some_iff.1 above).1
      omega, (List.getElem?_eq_some_iff.1 above).2⟩
  generalize order.toList.take place = first at *
  generalize order.toList.drop (place + 1) = rest at *
  have disjoint := (List.nodup_append'.1 apart).2.2
  have idLate : id ∉ rest := (List.nodup_cons.1 (List.nodup_append'.1 apart).2.1).1
  have parentLate : parent ∉ id :: rest := fun later => disjoint parentEarly later
  rw [List.foldl_append, List.foldl_cons, getD_foldl_placeDepth idLate,
    getD_foldl_placeDepth fun later => parentLate (List.mem_cons_of_mem _ later),
    getD_placeDepth_of_ne (List.ne_of_not_mem_cons parentLate).symm]
  simp only [placeDepth, linked, if_neg other]
  rw [getD_set, if_pos]
  refine ⟨rfl, ?_⟩
  rw [size_foldl_placeDepth, Array.size_replicate]
  exact inside

/-! ### The placement of a state -/

/-- What is written for the state at a place of the order. -/
def placementAt (graph : Graph) (order : Array StateId) (place : Nat) (id : StateId) :
    Placement where
  flatIndex := UInt16.ofNat place
  depth := (graph.depths order).getD id 0
  initialChild := graph.defaultChild (graph.state id)
  historySlot := (graph.slotTable (SlotClaim.assign (graph.historyClaims order))).getD id none
  timerSlot := (graph.slotTable (SlotClaim.assign (graph.timerClaims order))).getD id none

theorem getD_placements {order : Array StateId} (apart : order.toList.Nodup) {place : Nat}
    {id : StateId} (inside : id < graph.stateCount) (here : order[place]? = some id) :
    (graph.placements order).getD id none = some (graph.placementAt order place id) := by
  rw [← Array.getElem?_toList] at here
  have listed : ∃ entry ∈ order.toList.zipIdx, entry.1 = id :=
    ⟨(id, place), List.mem_zipIdx_iff_getElem?.2 here, rfl⟩
  obtain ⟨⟨other, position⟩, member, rfl, found⟩ := exists_getD_foldl Prod.fst
    (fun entry => graph.placementAt order entry.2 entry.1)
    (Array.replicate graph.stateCount none) (by simpa using inside) listed
  have there : order.toList[position]? = some other := List.mem_zipIdx_iff_getElem?.1 member
  have placeInside := (List.getElem?_eq_some_iff.1 here).1
  obtain rfl : place = position :=
    (List.getElem?_inj placeInside apart).1 (here.trans there.symm)
  exact found

/-- A state of the order is placed where it stands. -/
theorem placement_layOut (inhabited : 0 < graph.stateCount) {place : Nat} {id : StateId}
    (here : graph.breadthFirst[place]? = some id) :
    (graph.layOut.state id).placement =
      some (graph.placementAt graph.breadthFirst place id) := by
  have inside := lt_stateCount_of_mem inhabited (Array.mem_of_getElem? here)
  rw [state_layOut]
  exact getD_placements (nodup_breadthFirst inhabited) inside here

end Graph

end Statechart.Chart
