/-
# Shared slots

States that cannot be active together may share a slot. The rule about slots looks at all
pairs of states with one slot, whether one contains the other or the lowest state above both
is parallel, so in what an accepted graph compiles to two states that may be active together
never have one timer slot (`Drawn.timersApart`), nor do they keep history in one slot
(`Drawn.historiesApart`).

Two things have to be seen for this. The walks up the parent links find what the tables say
about the tree (`Ready.coActive_eq`); and the states of one number are all in one run
(`exists_owners`).
-/

import Statechart.Proofs.Chart.Compilation
import Statechart.Proofs.Chart.Runs
import Statechart.Proofs.Rom.Tree

namespace Statechart

namespace Chart.Graph

open Rom

variable {graph : Graph} {id top parent : StateId}

/-! ### Walks to the root -/

/-- With enough fuel the list of the states above a state is complete. -/
theorem Climbs.climb_eq {above : List StateId}
    (climbs : graph.Climbs (graph.state id).parent above) {steps : Nat}
    (enough : above.length ≤ steps) : graph.climb steps id = above := by
  induction steps generalizing id above with
  | zero =>
    rw [List.length_eq_zero_iff.1 (Nat.le_zero.1 enough)]
    rfl
  | succ steps ih =>
    unfold climb
    cases up : (graph.state id).parent with
    | none =>
      rw [up] at climbs
      cases climbs
      rfl
    | some parent =>
      rw [up] at climbs
      cases climbs with
      | next rest => exact congrArg _ (ih rest (Nat.le_of_succ_le_succ enough))

/-- With enough fuel the walk up finds exactly the states that it should. -/
theorem Climbs.climbsTo_iff {above : List StateId}
    (climbs : graph.Climbs (graph.state id).parent above) {steps : Nat}
    (enough : above.length ≤ steps) :
    graph.climbsTo top (steps + 1) id = true ↔ top ∈ id :: above := by
  induction steps generalizing id above with
  | zero =>
    obtain rfl := List.length_eq_zero_iff.1 (Nat.le_zero.1 enough)
    unfold climbsTo
    cases up : (graph.state id).parent with
    | none => rw [Bool.or_false, beq_iff_eq, List.mem_singleton, eq_comm]
    | some parent =>
      rw [up] at climbs
      cases climbs
  | succ steps ih =>
    unfold climbsTo
    cases up : (graph.state id).parent with
    | none =>
      rw [up] at climbs
      cases climbs
      rw [Bool.or_false, beq_iff_eq, List.mem_singleton, eq_comm]
    | some parent =>
      rw [up] at climbs
      cases climbs with
      | next rest =>
        rw [Bool.or_eq_true, beq_iff_eq, ih rest (Nat.le_of_succ_le_succ enough),
          List.mem_cons (a := top) (b := id)]
        exact or_congr_left eq_comm

namespace Rooted

theorem properAncestors_eq (rooted : graph.Rooted parent)
    (linked : graph.HangsFrom id parent) :
    graph.properAncestors id = parent :: graph.properAncestors parent := by
  obtain ⟨above, climbs⟩ := rooted
  have longer : graph.Climbs (graph.state id).parent (parent :: above) :=
    linked.symm ▸ .next climbs
  rw [properAncestors, properAncestors, climbs.climb_eq climbs.length_le,
    longer.climb_eq longer.length_le]

theorem isAncestorOrSelf_iff (rooted : graph.Rooted parent)
    (linked : graph.HangsFrom id parent) :
    graph.isAncestorOrSelf top id = true ↔
      top = id ∨ graph.isAncestorOrSelf top parent = true := by
  obtain ⟨above, climbs⟩ := rooted
  have longer : graph.Climbs (graph.state id).parent (parent :: above) :=
    linked.symm ▸ .next climbs
  rw [isAncestorOrSelf, isAncestorOrSelf, climbs.climbsTo_iff climbs.length_le,
    longer.climbsTo_iff longer.length_le, List.mem_cons]

end Rooted

theorem isAncestorOrSelf_top (endless : (graph.state id).parent = none) :
    graph.isAncestorOrSelf top id = true ↔ top = id := by
  unfold isAncestorOrSelf climbsTo
  rw [endless, Bool.or_false, beq_iff_eq, eq_comm]

/-! ### What the tables say -/

namespace Ready

variable (actions guards : NameTable) (ready : graph.Ready) {first second state : UInt16}
  {firstId secondId : StateId}

include ready

/-- Every state hangs from the root. -/
theorem rooted {place : Nat} (here : graph.order[place]? = some id) : graph.Rooted id := by
  induction place using Nat.strong_induction_on generalizing id with
  | _ place ih =>
    by_cases isFirst : place = 0
    · subst isFirst
      obtain rfl : rootId = id := Option.some.inj (ready.first.symm.trans here)
      exact ⟨[], ready.links.parent_root ▸ .ended⟩
    · obtain ⟨earlier, parent, before, above, linked⟩ := ready.exists_parent here isFirst
      exact .of_parent linked (ih earlier before above)

/-- A child's parent, in the graph. -/
theorem exists_hangsFrom {parent child : UInt16}
    (linked : (graph.sections actions guards).Child parent child)
    (here : graph.order[child.toNat]? = some id) :
    ∃ above, graph.order[parent.toNat]? = some above ∧ graph.HangsFrom id above ∧
      graph.Rooted above := by
  obtain ⟨above, hangs, same, there, _⟩ :=
    ready.exists_parent_record actions guards here linked.ne_root
  rw [← same, linked.parent_eq] at there
  exact ⟨above, there, hangs, ready.rooted there⟩

/-- The walk up a graph finds what the tables have above a state. -/
theorem isAncestorOrSelf_iff (there : graph.order[first.toNat]? = some firstId)
    (here : graph.order[second.toNat]? = some secondId) :
    graph.isAncestorOrSelf firstId secondId = true ↔
      (graph.sections actions guards).Beneath first second := by
  have wellFormed := ready.wellFormed actions guards
  have same {other : UInt16} {otherId : StateId}
      (otherHere : graph.order[other.toNat]? = some otherId) :
      firstId = otherId ↔ first = other := by
    constructor
    · rintro rfl
      exact UInt16.toNat_inj.1 (ready.place_inj there otherHere)
    · rintro rfl
      exact Option.some.inj (there.symm.trans otherHere)
  have has : (graph.sections actions guards).Has second := by
    have inside := ready.has_indexOf actions guards (ready.lt_stateCount here)
    rwa [ready.indexOf_eq here, UInt16.ofNat_toNat] at inside
  induction wellFormed.beneath_root has generalizing secondId with
  | self hasRoot =>
    obtain rfl : rootId = secondId := Option.some.inj (ready.first.symm.trans here)
    rw [isAncestorOrSelf_top ready.links.parent_root, same here]
    constructor
    · rintro rfl
      exact .self hasRoot
    · exact wellFormed.eq_root_of_beneath
  | @under upper child above linked ih =>
    obtain ⟨parentId, parentHere, hangs, rooted⟩ :=
    ready.exists_hangsFrom actions guards linked here
    have upward := or_congr (same here) (ih parentHere above.has)
    refine ((rooted.isAncestorOrSelf_iff hangs).trans upward).trans ?_
    constructor
    · rintro (rfl | down)
      · exact .self has
      · exact .under down linked
    · intro down
      cases down with
      | self _ => exact .inl rfl
      | under down otherLinked =>
        rw [← linked.parent_eq, otherLinked.parent_eq]
        exact .inr down

/-- Where the ways up from two states meet. -/
theorem find_meeting {meeting left right : UInt16} {meetingId : StateId}
    (meetingHere : graph.order[meeting.toNat]? = some meetingId)
    (leftLinked : (graph.sections actions guards).Child meeting left)
    (rightLinked : (graph.sections actions guards).Child meeting right) (differ : left ≠ right)
    (leftDown : (graph.sections actions guards).Beneath left first)
    (rightDown : (graph.sections actions guards).Beneath right second)
    (here : graph.order[first.toNat]? = some firstId)
    (there : graph.order[second.toNat]? = some secondId) :
    (graph.properAncestors firstId).find?
      (fun candidate => graph.isAncestorOrSelf candidate secondId) = some meetingId := by
  have wellFormed := ready.wellFormed actions guards
  let meets (candidate : StateId) : Bool := graph.isAncestorOrSelf candidate secondId
  induction leftDown generalizing firstId with
  | self _ =>
    obtain ⟨aboveId, aboveHere, hangs, rooted⟩ :=
      ready.exists_hangsFrom actions guards leftLinked here
    obtain rfl : meetingId = aboveId := Option.some.inj (meetingHere.symm.trans aboveHere)
    have met : meets meetingId = true :=
      (ready.isAncestorOrSelf_iff actions guards meetingHere there).2
        ((wellFormed.beneath_of_child rightLinked).trans rightDown)
    rw [rooted.properAncestors_eq hangs, List.find?_cons_of_pos (p := meets) met]
  | @under upper child above linked ih =>
    obtain ⟨aboveId, aboveHere, hangs, rooted⟩ := ready.exists_hangsFrom actions guards linked here
    have passed : ¬ meets aboveId = true := by
      intro met
      have down := (ready.isAncestorOrSelf_iff actions guards aboveHere there).1 met
      exact differ (wellFormed.child_eq leftLinked rightLinked (above.trans down) rightDown)
    rw [rooted.properAncestors_eq hangs, List.find?_cons_of_neg (p := meets) passed]
    exact ih aboveHere

/-- States that may be active together by the tables are found to be so in the graph. -/
theorem coActive_eq (together : (graph.sections actions guards).CoActive first second)
    (here : graph.order[first.toNat]? = some firstId)
    (there : graph.order[second.toNat]? = some secondId) :
    graph.coActive firstId secondId = true := by
  unfold coActive
  rw [Bool.or_eq_true, Bool.or_eq_true]
  cases together with
  | above down => exact .inl (.inl ((ready.isAncestorOrSelf_iff actions guards here there).2 down))
  | below down => exact .inl (.inr ((ready.isAncestorOrSelf_iff actions guards there here).2 down))
  | @across meeting left right parallel leftLinked rightLinked differ leftDown rightDown =>
    have has := (ready.wellFormed actions guards).has_of_child leftLinked
    obtain ⟨meetingId, meetingHere, _⟩ := ready.exists_state actions guards has
    rw [ready.find_meeting actions guards meetingHere leftLinked rightLinked differ leftDown
      rightDown here there]
    rw [record_eq actions guards meetingHere] at parallel
    exact .inr parallel

end Ready

/-! ### Slots of one number -/

/-- Two states with one slot are never active together, whichever of the two one begins with, if
nothing was found against sharing. -/
theorem not_coActive_of_clean {kind : String} {slotOf : Placement → Option UInt16}
    (clean : (graph.sharedSlotFindings kind slotOf).hasErrors = false) {first second : StateId}
    {slot : UInt16} (one : first ∈ graph.order) (two : second ∈ graph.order)
    (firstUses : (graph.state first).placement.bind slotOf = some slot)
    (secondUses : (graph.state second).placement.bind slotOf = some slot)
    (differ : first ≠ second) :
    graph.coActive first second = false ∨ graph.coActive second first = false := by
  have keyed {id : StateId} (listed : id ∈ graph.order)
      (uses : (graph.state id).placement.bind slotOf = some slot) :
      (slot.toNat, id) ∈ graph.order.toList.filterMap fun id =>
        ((graph.state id).placement.bind slotOf).map fun slot => (slot.toNat, id) :=
    List.mem_filterMap.2 ⟨id, Array.mem_toList_iff.2 listed, by rw [uses]; rfl⟩
  obtain ⟨owners, listed, oneIn, twoIn⟩ := exists_owners (keyed one firstUses)
    (keyed two secondUses)
  have apart := (Diagnostics.hasErrors_flatMap _ _).1
    ((Diagnostics.hasErrors_flatMap _ _).1 clean _ listed)
  have separate {left right : StateId} (paired : (left, right) ∈ pairs owners) :
      graph.coActive left right = false := by
    have none := apart _ paired
    rw [Diagnostics.hasErrors_ite rfl] at none
    exact Bool.eq_false_iff.2 none
  exact (mem_pairs oneIn twoIn differ).imp separate separate

/-- In the tables of a ready graph, states with one slot are never active together if nothing was
found against sharing. -/
theorem Ready.eq_of_coActive (ready : graph.Ready) (actions guards : NameTable) {kind : String}
    {slotOf : Placement → Option UInt16}
    (clean : (graph.sharedSlotFindings kind slotOf).hasErrors = false) {first second : UInt16}
    (slot : UInt16) (together : (graph.sections actions guards).CoActive first second)
    (uses : ∀ state id, state = first ∨ state = second → graph.order[state.toNat]? = some id →
      (graph.state id).placement.bind slotOf = some slot) : first = second := by
  have has := together.has
  obtain ⟨firstId, firstHere, firstIndex⟩ := ready.exists_state actions guards has.1
  obtain ⟨secondId, secondHere, secondIndex⟩ := ready.exists_state actions guards has.2
  apply Classical.byContradiction
  intro differ
  have apart := not_coActive_of_clean clean (Array.mem_of_getElem? firstHere)
    (Array.mem_of_getElem? secondHere) (uses first firstId (.inl rfl) firstHere)
    (uses second secondId (.inr rfl) secondHere) (by
      rintro rfl
      exact differ (firstIndex.symm.trans secondIndex))
  rw [ready.coActive_eq actions guards together firstHere secondHere,
    ready.coActive_eq actions guards together.symm secondHere firstHere] at apart
  simp at apart

/-- Whoever runs a timer has the slot of its placement. -/
theorem exists_slot_of_hasTimer (actions guards : NameTable) {state : UInt16}
    (here : graph.order[state.toNat]? = some id)
    (runs : ((graph.sections actions guards).record state).hasTimer = true) :
    (graph.state id).placement.bind Placement.timerSlot =
      some ((graph.sections actions guards).record state).timerSlot := by
  rw [Ready.record_eq actions guards here] at runs ⊢
  obtain ⟨timed, used⟩ := (Bool.and_eq_true _ _).mp runs
  have timed : (graph.state id).timer.isSome = true := timed
  simp only [stateRecord, timed, if_true] at used ⊢
  cases claimed : (graph.state id).placement.bind Placement.timerSlot with
  | none => simp [claimed] at used
  | some slot => rfl

/-- In the tables of a ready graph timer slots are apart. -/
theorem Ready.timersApart (ready : graph.Ready) (actions guards : NameTable) :
    (graph.sections actions guards).TimersApart := by
  intro first second slot together firstRuns secondRuns
  have clean : (graph.sharedSlotFindings "timer" Placement.timerSlot).hasErrors = false :=
    ((Diagnostics.hasErrors_append _ _).1 ready.accepted.slots).2
  refine ready.eq_of_coActive actions guards clean (.ofNat slot) together ?_
  rintro state id (rfl | rfl) here
  · rw [exists_slot_of_hasTimer actions guards here firstRuns.runs, ← firstRuns.slot_eq,
      UInt16.ofNat_toNat]
  · rw [exists_slot_of_hasTimer actions guards here secondRuns.runs, ← secondRuns.slot_eq,
      UInt16.ofNat_toNat]

/-- In what a drawn graph compiles to, two states that may be active together have different
timer slots. -/
theorem Drawn.timersApart (drawn : Drawn graph) {compiled : Compiled}
    (compiles : graph.compile = .ok (.ok compiled)) :
    compiled.definition.sections.TimersApart := by
  obtain ⟨_, ready, actions, guards, tables⟩ := drawn.exists_tables compiles
  rw [tables]
  exact ready.timersApart actions guards

/-- A machine whose one state is entered again whenever its timer runs out. -/
def clock : Graph :=
  ((lone.modifyState 1 fun node =>
    { node with timer := some ⟨10, none, none⟩ }).addTransition 1 (some 1) .timer).2

theorem drawn_clock : Drawn clock := by
  have armed :
      Drawn (lone.modifyState 1 fun node => { node with timer := some ⟨10, none, none⟩ }) :=
    .configure 1 drawn_lone (fun _ => rfl) (fun _ => rfl) (fun _ => rfl)
  exact .addTransition (some 1) .timer armed (by decide +kernel)

theorem exists_compiled_clock : ∃ compiled, clock.compile = .ok (.ok compiled) :=
  drawn_clock.exists_compiled (by decide +kernel) (by decide +kernel)

end Chart.Graph

end Statechart
