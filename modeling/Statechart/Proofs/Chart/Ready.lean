/-
# Graphs that are ready to be written

A drawn graph that was laid out and accepted is ready: its links agree, all of its states
stand in the order, and every state has an index, a depth, and the slots that it asks
for. Whoever writes tables needs nothing else about how the graph came about.

The main statement is `Drawn.ready`.
-/

import Statechart.Chart.Flat
import Statechart.Proofs.Chart.Hierarchy
import Statechart.Proofs.Chart.Placement

namespace Statechart.Chart

open Statechart.Rom

namespace Graph

variable {graph : Graph}

/-- A graph with books that agree, of which every state stands in the order and is
placed. -/
structure Ready (graph : Graph) : Prop where
  links : graph.LinksAgree
  wires : graph.TransitionsAgree
  accepted : graph.Accepted
  size_events_le : graph.events.size + Event.firstUserId ≤ 65536
  first : graph.order[0]? = some rootId
  toList_order : graph.order.toList =
    rootId :: graph.order.toList.flatMap fun id => (graph.state id).children.toList
  nodup_order : graph.order.toList.Nodup
  mem_order_iff {id : StateId} : id ∈ graph.order ↔ id < graph.stateCount
  exists_parent {place : Nat} {id : StateId} : graph.order[place]? = some id → place ≠ 0 →
    ∃ earlier parent, earlier < place ∧ graph.order[earlier]? = some parent ∧
      (graph.state id).parent = some parent
  indexOf_eq {place : Nat} {id : StateId} : graph.order[place]? = some id →
    graph.indexOf id = UInt16.ofNat place
  depth_root : graph.depthOf rootId = 0
  depth_succ {id parent : StateId} : (graph.state id).parent = some parent →
    graph.depthOf id = graph.depthOf parent + 1
  depth_le {id : StateId} : id < graph.stateCount → graph.depthOf id ≤ maxDepth
  exists_placement {id : StateId} : id < graph.stateCount →
    ∃ placement, (graph.state id).placement = some placement ∧
      placement.initialChild = graph.defaultChild (graph.state id)
  exists_historySlot {id : StateId} : id < graph.stateCount → (graph.state id).history ≠ .none →
    ∃ slot, (graph.state id).placement.bind Placement.historySlot = some slot
  exists_timerSlot {id : StateId} : id < graph.stateCount → (graph.state id).timer.isSome →
    ∃ slot, (graph.state id).placement.bind Placement.timerSlot = some slot

/-! ### Claims -/

theorem exists_historySlot_of_mem {order : Array StateId} (few : order.size ≤ maxStates)
    {id : StateId} (inside : id < graph.stateCount) (listed : id ∈ order)
    (keeps : (graph.state id).history ≠ .none) :
    ∃ slot, (graph.slotTable (SlotClaim.assign (graph.historyClaims order))).getD id none =
      some slot := by
  have short : (graph.historyClaims order).length ≤ 65536 := by
    refine Nat.le_trans (List.length_filterMap_le _ _) ?_
    rw [Array.length_toList]
    exact Nat.le_trans few (by decide)
  have claimed : (⟨id, (graph.state id).stableId, (graph.state id).historySlot⟩ : SlotClaim) ∈
      graph.historyClaims order :=
    List.mem_filterMap.2 ⟨id, Array.mem_toList_iff.2 listed, by simp only [if_neg keeps]⟩
  exact exists_slotTable inside (SlotClaim.mem_assign short claimed)

theorem exists_timerSlot_of_mem {order : Array StateId} (few : order.size ≤ maxStates)
    {id : StateId} (inside : id < graph.stateCount) (listed : id ∈ order)
    (runs : (graph.state id).timer.isSome) :
    ∃ slot, (graph.slotTable (SlotClaim.assign (graph.timerClaims order))).getD id none =
      some slot := by
  have short : (graph.timerClaims order).length ≤ 65536 := by
    refine Nat.le_trans (List.length_filterMap_le _ _) ?_
    rw [Array.length_toList]
    exact Nat.le_trans few (by decide)
  obtain ⟨timer, spec⟩ := Option.isSome_iff_exists.1 runs
  have claimed : (⟨id, (graph.state id).stableId, timer.slot⟩ : SlotClaim) ∈
      graph.timerClaims order :=
    List.mem_filterMap.2 ⟨id, Array.mem_toList_iff.2 listed, by simp only [spec, Option.map_some]⟩
  exact exists_slotTable inside (SlotClaim.mem_assign short claimed)

/-! ### From drawing to tables -/

theorem defaultChild_congr {next : Graph} (initials : ∀ id,
    (next.state id).initial = (graph.state id).initial) (node : StateNode)
    (placement : Option Placement) :
    next.defaultChild { node with placement } = graph.defaultChild node := by
  simp only [defaultChild, initials]

theorem depthOf_layOut (inhabited : 0 < graph.stateCount) {place : Nat} {id : StateId}
    (here : graph.layOut.order[place]? = some id) :
    graph.layOut.depthOf id = (graph.depths graph.breadthFirst).getD id 0 := by
  rw [depthOf, placement_layOut inhabited here]
  rfl

/-- Laying out an accepted graph leaves no state out. -/
theorem Drawn.mem_order (drawn : Drawn graph) (accepted : graph.layOut.Accepted) {id : StateId}
    (inside : id < graph.layOut.stateCount) : id ∈ graph.layOut.order :=
  accepted.mem_breadthFirst drawn.linksAgree.parent_root (by simpa using inside)

theorem Drawn.exists_place (drawn : Drawn graph) (accepted : graph.layOut.Accepted)
    {id : StateId} (inside : id < graph.layOut.stateCount) :
    ∃ place : Nat, graph.layOut.order[place]? = some id :=
  Array.mem_iff_getElem?.1 (drawn.mem_order accepted inside)

theorem Drawn.depthOf_le (drawn : Drawn graph) (accepted : graph.layOut.Accepted) {id : StateId}
    (inside : id < graph.layOut.stateCount) : graph.layOut.depthOf id ≤ maxDepth := by
  obtain ⟨place, here⟩ := drawn.exists_place accepted inside
  have placed := placement_layOut drawn.stateCount_pos here
  have bound := accepted.depth_le (drawn.mem_order accepted inside) placed
  rwa [depthOf_layOut drawn.stateCount_pos here]

/-- A state is written one level below its parent. -/
theorem Drawn.depthOf_succ (drawn : Drawn graph) (accepted : graph.layOut.Accepted)
    {id parent : StateId} (linked : (graph.layOut.state id).parent = some parent) :
    graph.layOut.depthOf id = graph.layOut.depthOf parent + 1 := by
  have links := (Drawn.layOut drawn).linksAgree
  have inhabited := drawn.stateCount_pos
  have first := getElem?_breadthFirst_zero inhabited
  have inside := lt_stateCount_of_parent linked
  have bound := drawn.depthOf_le accepted inside
  have parentBound :=
    drawn.depthOf_le accepted (lt_stateCount_of_child (links.mem_children.2 linked))
  obtain ⟨place, here⟩ := drawn.exists_place accepted inside
  have other : id ≠ rootId := by
    rintro rfl
    rw [links.parent_root] at linked
    cases linked
  have later : place ≠ 0 := by
    rintro rfl
    exact other (Option.some.inj (here.symm.trans first))
  obtain ⟨earlier, found, before, above, same, -⟩ := exists_parent_before inhabited here later
  rw [parent_layOut] at linked
  obtain rfl : parent = found := Option.some.inj (linked.symm.trans same)
  have step := depths_succ (nodup_breadthFirst inhabited) (by simpa using inside) here other
    linked above before
  rw [depthOf_layOut inhabited here] at bound ⊢
  rw [depthOf_layOut inhabited above] at parentBound ⊢
  rw [step]
  simp only [maxDepth] at parentBound
  omega

/-- A drawn graph is ready once it was laid out and accepted. -/
theorem Drawn.ready (drawn : Drawn graph) (accepted : graph.layOut.Accepted) :
    graph.layOut.Ready := by
  have laid := Drawn.layOut drawn
  have inhabited := drawn.stateCount_pos
  have placed {place : Nat} {id : StateId} (here : graph.layOut.order[place]? = some id) :=
    placement_layOut inhabited here
  have positioned {id : StateId} (inside : id < graph.layOut.stateCount) :=
    drawn.exists_place accepted inside
  exact {
    links := laid.linksAgree
    wires := laid.transitionsAgree
    accepted := accepted
    size_events_le := laid.size_events_le
    first := getElem?_breadthFirst_zero inhabited
    toList_order := by
      simp only [children_layOut]
      exact drawn.linksAgree.toList_breadthFirst inhabited
    nodup_order := nodup_breadthFirst inhabited
    mem_order_iff := by
      intro id
      refine ⟨fun listed => ?_, drawn.mem_order accepted⟩
      rw [stateCount_layOut]
      exact lt_stateCount_of_mem inhabited listed
    exists_parent := by
      intro place id here later
      obtain ⟨earlier, parent, before, above, linked, -⟩ :=
        exists_parent_before inhabited here later
      exact ⟨earlier, parent, before, above, (parent_layOut id).trans linked⟩
    indexOf_eq := by
      intro place id here
      rw [indexOf, placed here]
      rfl
    depth_root := by
      rw [depthOf_layOut inhabited (getElem?_breadthFirst_zero inhabited)]
      exact depths_root _
    depth_succ := drawn.depthOf_succ accepted
    depth_le := drawn.depthOf_le accepted
    exists_placement := by
      intro id inside
      obtain ⟨place, here⟩ := positioned inside
      refine ⟨_, placed here, ?_⟩
      rw [state_layOut]
      exact (defaultChild_congr (fun other => by rw [state_layOut]) _ _).symm
    exists_historySlot := by
      intro id inside keeps
      obtain ⟨place, here⟩ := positioned inside
      rw [state_layOut] at keeps
      rw [placed here]
      exact exists_historySlot_of_mem accepted.size_order_le (by simpa using inside)
        (drawn.mem_order accepted inside) keeps
    exists_timerSlot := by
      intro id inside runs
      obtain ⟨place, here⟩ := positioned inside
      rw [state_layOut] at runs
      rw [placed here]
      exact exists_timerSlot_of_mem accepted.size_order_le (by simpa using inside)
        (drawn.mem_order accepted inside) runs }

end Graph

end Statechart.Chart
