/-
# Lost states

Parent links can say anything. From a state outside the breadth-first order the parents
either end, or they come round; and then the state lies on the circle or only runs into it.

Each of the three is reported in its own way. A state is an orphan exactly when its parents
end, it reports a circle exactly when it is the earliest on it, and all others are passed
over (`strayFindings_eq`).

A circle is a list up to where it begins, whose members hang from each other all the way
round. Following the parents from any of its members writes it down
(`IsCircle.eq_circleFrom`), so the earliest member stands for it. The main statement counts:
the circles and their reports are in correspondence, and so are the lost states whose
parents end and the reports of orphans (`treeFindings_exact`).
-/

import Mathlib.Data.List.Cycle
import Statechart.Proofs.Chart.Hierarchy
import Statechart.Proofs.Gathering

namespace Statechart.Chart

open Function (minimalPeriod periodicPts periodicOrbit)

namespace Graph

variable {graph : Graph}

/-! ### Circles -/

/-- Different states, of which each hangs from the next and the last from the first. -/
structure IsCircle (graph : Graph) (circle : Cycle StateId) : Prop where
  ne_nil : circle ≠ Cycle.nil
  nodup : circle.Nodup
  chain : circle.Chain graph.HangsFrom

/-- The states from `id` on until `id` comes again. -/
noncomputable def circleFrom (graph : Graph) (id : StateId) : List StateId :=
  (graph.trail id (minimalPeriod graph.above id)).reverse

theorem circleFrom_eq (id : StateId) :
    graph.circleFrom id =
      (List.range (minimalPeriod graph.above id)).map fun steps => graph.above^[steps] id := by
  rw [circleFrom, trail, List.reverse_reverse]

theorem coe_circleFrom (id : StateId) :
    (graph.circleFrom id : Cycle StateId) = periodicOrbit graph.above id := by
  rw [circleFrom_eq]
  rfl

/-- A state whose parents come back to it begins a circle. -/
theorem isCircle_circleFrom {id : StateId} (endless : ¬graph.Rooted id)
    (round : id ∈ periodicPts graph.above) : graph.IsCircle (graph.circleFrom id) := by
  rw [coe_circleFrom]
  refine ⟨?_, Function.nodup_periodicOrbit, ?_⟩
  · rw [Ne, Function.periodicOrbit_eq_nil_iff_not_periodic_pt]
    exact not_not_intro round
  · rw [Function.periodicOrbit_chain]
    intro steps _
    rw [Function.iterate_succ_apply']
    exact (parent_of_not_rooted (not_rooted_iterate endless steps)).1

/-- A circle can be written down from any of its members on. -/
theorem exists_rotation {circle : Cycle StateId} {id : StateId} (on : id ∈ circle) :
    ∃ rest : List StateId, circle = (id :: rest : List StateId) := by
  induction circle using Quotient.inductionOn with
  | _ members =>
    obtain ⟨before, after, rfl⟩ := List.append_of_mem on
    exact ⟨after ++ before, Cycle.coe_eq_coe.2 List.isRotated_append⟩

theorem HangsFrom.above_eq {child parent : StateId} (link : graph.HangsFrom child parent) :
    graph.above child = parent := by
  rw [above, link, Option.getD_some]

/-- Along a chain of parents the states above one another are met. -/
theorem getElem_of_isChain {id : StateId} {rest : List StateId}
    (chain : List.IsChain graph.HangsFrom (id :: rest)) {steps : Nat}
    (inside : steps < (id :: rest).length) : (id :: rest)[steps] = graph.above^[steps] id := by
  induction steps with
  | zero => rfl
  | succ steps ih =>
    rw [Function.iterate_succ_apply', ← ih (Nat.lt_of_succ_lt inside)]
    exact (List.isChain_iff_getElem.1 chain steps inside).above_eq.symm

/-- The parents of a circle's members do not end. -/
theorem IsCircle.not_rooted {circle : Cycle StateId} (closed : graph.IsCircle circle)
    {id : StateId} (on : id ∈ circle) : ¬graph.Rooted id := by
  obtain ⟨rest, rfl⟩ := exists_rotation on
  have chain := (Cycle.chain_coe_cons _ _ _).1 closed.chain
  obtain ⟨next, tail, split⟩ : ∃ next tail, rest ++ [id] = next :: tail :=
    List.exists_cons_of_ne_nil (List.append_ne_nil_of_right_ne_nil _ (List.cons_ne_nil _ _))
  have last : (next :: tail).getLast (List.cons_ne_nil next tail) = id := by
    simp [← split]
  rw [split, List.isChain_cons_cons] at chain
  have upward := Relation.TransGen.head' chain.1
    (List.relationReflTransGen_of_exists_isChain_cons tail chain.2 last)
  exact fun rooted => rooted.acyclic upward

/-- A member of a circle finds itself above itself, and the circle is what it meets. -/
theorem IsCircle.eq_circleFrom {circle : Cycle StateId} (closed : graph.IsCircle circle)
    {id : StateId} (on : id ∈ circle) :
    id ∈ periodicPts graph.above ∧ circle = graph.circleFrom id := by
  obtain ⟨rest, rfl⟩ := exists_rotation on
  have chain := (Cycle.chain_coe_cons _ _ _).1 closed.chain
  have apart := Cycle.nodup_coe_iff.1 closed.nodup
  have met {steps : Nat} (inside : steps < (id :: rest).length) :
      (id :: rest)[steps] = graph.above^[steps] id := by
    rw [← getElem_of_isChain chain (by simp at inside ⊢; omega)]
    exact (List.getElem_append_left inside).symm
  have back : graph.above^[rest.length + 1] id = id := by
    rw [← getElem_of_isChain chain (by simp)]
    simp
  have round : id ∈ periodicPts graph.above := ⟨rest.length + 1, Nat.succ_pos _, back⟩
  have period : minimalPeriod graph.above id = rest.length + 1 := by
    refine Nat.le_antisymm (Function.IsPeriodicPt.minimalPeriod_le (Nat.succ_pos _) back) ?_
    by_contra less
    -- Otherwise the first member would be there a second time.
    have inside : minimalPeriod graph.above id < (id :: rest).length := Nat.lt_of_not_le less
    have again : (id :: rest)[minimalPeriod graph.above id] = (id :: rest)[0] := by
      rw [met inside, Function.iterate_minimalPeriod, List.getElem_cons_zero]
    have positive := Function.minimalPeriod_pos_of_mem_periodicPts round
    exact Nat.ne_of_gt positive ((List.Nodup.getElem_inj_iff apart).1 again)
  refine ⟨round, congrArg _ (List.ext_getElem ?_ fun steps inside _ => ?_)⟩
  · rw [circleFrom_eq, List.length_map, List.length_range, period, List.length_cons]
  · simp only [circleFrom_eq, List.getElem_map, List.getElem_range]
    exact met inside

/-! ### One report -/

/-- What is reported of a circle that is written down from its first member on. -/
def circleReport (graph : Graph) (members : List StateId) : Diagnostic :=
  .report .parentCycle (some (" -> ".intercalate (members.map graph.nameOf)))
    (members.head?.map graph.nameOf)

/-- What is reported of a state that nothing above it connects to the root. -/
def orphanReport (graph : Graph) (id : StateId) : Diagnostic :=
  .report .orphanState none (some (graph.nameOf id))

/-- A state is the earliest one on a circle. -/
structure Leads (graph : Graph) (id : StateId) : Prop where
  endless : ¬graph.Rooted id
  round : id ∈ periodicPts graph.above
  earliest : ∀ member ∈ graph.circleFrom id, id ≤ member

/-- A circle is written down from the state that it is followed from. -/
theorem head?_circleFrom {id : StateId} (round : id ∈ periodicPts graph.above) :
    (graph.circleFrom id).head? = some id := by
  have positive := Function.minimalPeriod_pos_of_mem_periodicPts round
  rw [circleFrom_eq, List.head?_map, List.head?_range, if_neg (Nat.ne_of_gt positive)]
  rfl

/-- No circle is found through a state that its parents do not lead back to. -/
theorem cycleFrom_eq_none {id : StateId} (endless : ¬graph.Rooted id)
    (aside : id ∉ periodicPts graph.above) (steps : Nat) {count : Nat} (started : 0 < count)
    (chain : List StateId) :
    graph.cycleFrom id steps chain (some (graph.above^[count] id)) = none := by
  induction steps generalizing count chain with
  | zero => rfl
  | succ steps ih =>
    have other : graph.above^[count] id ≠ id := fun same => aside ⟨count, started, same⟩
    have link := (parent_of_not_rooted (not_rooted_iterate endless count)).1
    rw [cycleFrom, if_neg other, link, ← Function.iterate_succ_apply' graph.above count id]
    split
    · rfl
    · exact ih (Nat.succ_pos count) _

/-- Parents that do not end are found to run into a circle. -/
theorem entersCycleFrom_of_not_rooted {id : StateId} (endless : ¬graph.Rooted id) (steps : Nat)
    (seen : List StateId) : graph.entersCycleFrom steps seen (some id) = true := by
  induction steps generalizing id seen with
  | zero => rfl
  | succ steps ih =>
    obtain ⟨link, further⟩ := parent_of_not_rooted endless
    rw [entersCycleFrom, link, ih further, Bool.or_true]

/-- A circle is reported by its earliest member, an orphan by itself, and nothing else is
reported of a state. -/
theorem strayFindings_eq (id : StateId) [Decidable (graph.Leads id)]
    [Decidable (graph.Rooted id)] :
    graph.strayFindings id =
      (if graph.Leads id then [graph.circleReport (graph.circleFrom id)] else []) ++
        (if graph.Rooted id then [graph.orphanReport id] else []) := by
  by_cases rooted : graph.Rooted id
  · rw [rooted.strayFindings_eq, if_pos rooted, if_neg fun leads => leads.endless rooted]
    rfl
  rw [if_neg rooted, List.append_nil]
  by_cases round : id ∈ periodicPts graph.above
  · have found : graph.cycleThrough id = some (graph.circleFrom id) :=
      cycleThrough_eq rooted round
    have leads : graph.Leads id ↔
        ((graph.circleFrom id).all fun member => id ≤ member) = true := by
      rw [List.all_eq_true]
      exact ⟨fun leads member on => decide_eq_true (leads.earliest member on),
        fun earliest => ⟨rooted, round, fun member on => of_decide_eq_true (earliest member on)⟩⟩
    simp only [strayFindings, found, leads, circleReport, head?_circleFrom round, Option.map_some]
  · have link := (parent_of_not_rooted rooted).1
    have alone : graph.cycleThrough id = none := by
      rw [cycleThrough, link]
      exact cycleFrom_eq_none rooted round _ Nat.one_pos _
    have enters : graph.entersCycle id = true := by
      rw [entersCycle, link]
      exact entersCycleFrom_of_not_rooted (parent_of_not_rooted rooted).2 _ _
    rw [if_neg fun leads => round leads.round, strayFindings, alone]
    simp [enters]

/-! ### All reports -/

theorem nameOf_layOut : graph.layOut.nameOf = graph.nameOf := by
  funext id
  rw [nameOf, nameOf, state_layOut]

theorem cycleFrom_layOut (id : StateId) (steps : Nat) (chain : List StateId)
    (next : Option StateId) :
    graph.layOut.cycleFrom id steps chain next = graph.cycleFrom id steps chain next := by
  induction steps generalizing chain next with
  | zero => rfl
  | succ steps ih =>
    cases next with
    | none => rfl
    | some next => rw [cycleFrom, cycleFrom, ih, parent_layOut]

theorem entersCycleFrom_layOut (steps : Nat) (seen : List StateId) (next : Option StateId) :
    graph.layOut.entersCycleFrom steps seen next = graph.entersCycleFrom steps seen next := by
  induction steps generalizing seen next with
  | zero => rfl
  | succ steps ih =>
    cases next with
    | none => rfl
    | some next => rw [entersCycleFrom, entersCycleFrom, ih, parent_layOut]

/-- Placing states changes nothing in what is said of lost ones. -/
theorem strayFindings_layOut (id : StateId) :
    graph.layOut.strayFindings id = graph.strayFindings id := by
  have circle : graph.layOut.cycleThrough id = graph.cycleThrough id := by
    rw [cycleThrough, cycleFrom_layOut, parent_layOut, stateCount_layOut, cycleThrough]
  have enters : graph.layOut.entersCycle id = graph.entersCycle id := by
    rw [entersCycle, entersCycleFrom_layOut, parent_layOut, stateCount_layOut, entersCycle]
  rw [strayFindings, strayFindings, circle, enters, nameOf_layOut]

theorem Climbs.of_layOut {next : Option StateId} {above : List StateId}
    (climbs : graph.layOut.Climbs next above) : graph.Climbs next above := by
  induction climbs with
  | ended => exact .ended
  | @next parent above _ ih =>
    rw [parent_layOut] at ih
    exact .next ih

/-- The states outside the order. -/
def lost (graph : Graph) : List StateId :=
  (List.range graph.stateCount).filter fun id => id ∉ graph.breadthFirst

theorem mem_lost {id : StateId} :
    id ∈ graph.lost ↔ id < graph.stateCount ∧ id ∉ graph.breadthFirst := by
  rw [lost, List.mem_filter, List.mem_range, decide_eq_true_iff]

theorem nodup_lost : graph.lost.Nodup :=
  List.nodup_range.filter _

/-- The states outside the order are looked at one by one. -/
theorem treeFindings_layOut :
    graph.layOut.treeFindings = graph.lost.flatMap graph.strayFindings := by
  rw [treeFindings, lost, stateCount_layOut, flatMap_filter]
  refine List.flatMap_congr fun id inside => ?_
  have marked : graph.layOut.inTree.getD id false = true ↔ id ∈ graph.breadthFirst := by
    rw [getD_inTree, stateCount_layOut]
    exact and_iff_right (List.mem_range.1 inside)
  by_cases found : id ∈ graph.breadthFirst
  · rw [if_pos (.inr (marked.2 found)), if_neg (by simpa using found)]
  · rw [if_neg, if_pos (by simpa using found), strayFindings_layOut]
    rintro (rfl | known)
    · exact found (rootId_mem_breadthFirst (Nat.zero_lt_of_lt (List.mem_range.1 inside)))
    · exact found (marked.1 known)

/-- While the root has no parent, no state of the order is on a circle or runs into one. -/
theorem mem_lost_of_not_rooted (top : (graph.state rootId).parent = none) {id : StateId}
    (endless : ¬graph.Rooted id) : id ∈ graph.lost := by
  have inside := lt_stateCount_of_not_rooted endless
  refine mem_lost.2 ⟨inside, fun found => endless ?_⟩
  obtain ⟨above, climbs⟩ := rooted_of_mem_breadthFirst (Nat.zero_lt_of_lt inside) top found
  rw [parent_layOut] at climbs
  exact ⟨above, climbs.of_layOut⟩

/-- A list whose end is followed by its beginning, wherever that is. -/
def closeUp (members : List StateId) : Cycle StateId :=
  members

/-- What there is to report of a graph: each circle of parents once, written down from its
earliest member on in the order of the parents, and each lost state whose parents end. -/
structure Astray (graph : Graph) (circles : List (List StateId)) (orphans : List StateId) :
    Prop where
  nodup_circles : (circles.map closeUp).Nodup
  mem_circles (circle : Cycle StateId) :
    circle ∈ circles.map closeUp ↔ graph.IsCircle circle
  earliest : ∀ members ∈ circles, ∀ first ∈ members.head?, ∀ member ∈ members, first ≤ member
  nodup_orphans : orphans.Nodup
  mem_orphans (id : StateId) :
    id ∈ orphans ↔ id < graph.stateCount ∧ id ∉ graph.breadthFirst ∧ graph.Rooted id

/-- The earliest member of a circle leads it. -/
theorem IsCircle.exists_leads {circle : Cycle StateId} (closed : graph.IsCircle circle) :
    ∃ id, graph.Leads id ∧ circle = graph.circleFrom id := by
  obtain ⟨entry, on⟩ : ∃ entry, entry ∈ circle := by
    induction circle using Cycle.induction_on with
    | nil => exact absurd rfl closed.ne_nil
    | cons id rest => exact ⟨id, Cycle.mem_coe_iff.2 (List.mem_cons_self ..)⟩
  obtain ⟨round, same⟩ := closed.eq_circleFrom on
  obtain ⟨count, -, earliest⟩ := exists_earliest round
  have onToo : graph.above^[count] entry ∈ circle := by
    rw [same, coe_circleFrom, Function.mem_periodicOrbit_iff round]
    exact ⟨count, rfl⟩
  obtain ⟨roundToo, sameToo⟩ := closed.eq_circleFrom onToo
  refine ⟨_, ⟨closed.not_rooted onToo, roundToo, fun member passed => ?_⟩, sameToo⟩
  rw [circleFrom_eq, List.mem_map] at passed
  obtain ⟨further, -, rfl⟩ := passed
  exact earliest further

/-- One circle is led by one state. -/
theorem Leads.unique {first second : StateId} (one : graph.Leads first)
    (other : graph.Leads second)
    (same : (graph.circleFrom first : Cycle StateId) = graph.circleFrom second) :
    first = second := by
  have before {id member : StateId} (leads : graph.Leads id) (follows : graph.Leads member)
      (same : (graph.circleFrom id : Cycle StateId) = graph.circleFrom member) : id ≤ member := by
    refine leads.earliest member (Cycle.mem_coe_iff.1 ?_)
    rw [same]
    exact Cycle.mem_coe_iff.2 (List.mem_of_head? (head?_circleFrom follows.round))
  exact Nat.le_antisymm (before one other same) (before other one same.symm)

open Classical in
/-- The lost states that lead a circle and those whose parents end are what there is to
report. -/
theorem astray_lost (top : (graph.state rootId).parent = none) :
    graph.Astray ((graph.lost.filter graph.Leads).map graph.circleFrom)
      (graph.lost.filter graph.Rooted) where
  nodup_circles := by
    rw [List.map_map]
    refine (nodup_lost.filter _).map_on fun first one second other same => ?_
    exact (of_decide_eq_true (List.mem_filter.1 one).2).unique
      (of_decide_eq_true (List.mem_filter.1 other).2) same
  mem_circles circle := by
    simp only [List.map_map, List.mem_map, List.mem_filter, decide_eq_true_eq,
      Function.comp_apply]
    constructor
    · rintro ⟨id, ⟨-, leads⟩, rfl⟩
      exact isCircle_circleFrom leads.endless leads.round
    · intro closed
      obtain ⟨id, leads, same⟩ := closed.exists_leads
      exact ⟨id, ⟨mem_lost_of_not_rooted top leads.endless, leads⟩, same.symm⟩
  earliest members listed first begins := by
    obtain ⟨id, passed, rfl⟩ := List.mem_map.1 listed
    have leads : graph.Leads id := of_decide_eq_true (List.mem_filter.1 passed).2
    rw [head?_circleFrom leads.round, Option.mem_some_iff] at begins
    exact begins ▸ leads.earliest
  nodup_orphans := nodup_lost.filter _
  mem_orphans id := by
    rw [List.mem_filter, mem_lost, decide_eq_true_iff, and_assoc]

/-- Lost states are reported exactly. There is one report for each circle of parents, by its
earliest member and with its members in the order of their parents, and one for each lost
state whose parents end. Of a state whose parents only run into a circle nothing is
reported, and nothing at all exactly when no state is lost. -/
theorem treeFindings_exact (top : (graph.state rootId).parent = none) :
    (∃ circles orphans, graph.Astray circles orphans ∧
      graph.layOut.treeFindings.Perm
        (circles.map graph.circleReport ++ orphans.map graph.orphanReport)) ∧
    (∀ id, ¬graph.Rooted id → (∀ circle, graph.IsCircle circle → id ∉ circle) →
      graph.layOut.strayFindings id = []) ∧
    (graph.layOut.treeFindings = [] ↔ ∀ id < graph.stateCount, id ∈ graph.breadthFirst) := by
  classical
  refine ⟨⟨_, _, astray_lost top, ?_⟩, fun id endless aside => ?_, ?_⟩
  · rw [treeFindings_layOut, List.flatMap_congr fun id _ => strayFindings_eq id, List.map_map]
    exact flatMap_ite_perm _ _ _ _ _
  · rw [strayFindings_layOut, strayFindings_eq, if_neg endless, if_neg]
    · rfl
    · intro leads
      exact aside _ (isCircle_circleFrom endless leads.round)
        (Cycle.mem_coe_iff.2 (List.mem_of_head? (head?_circleFrom leads.round)))
  · rw [treeFindings_layOut, List.flatMap_eq_nil_iff]
    constructor
    · intro silent id inside
      by_contra missed
      by_cases rooted : graph.Rooted id
      · have reported := silent id (mem_lost.2 ⟨inside, missed⟩)
        rw [rooted.strayFindings_eq] at reported
        cases reported
      · obtain ⟨member, endless, reported⟩ := exists_reported rooted
        rw [silent member (mem_lost_of_not_rooted top endless)] at reported
        cases reported
    · intro found id missed
      exact absurd (found id (mem_lost.1 missed).1) (mem_lost.1 missed).2

/-- Beside `A` below the root there are `B` and `C` below each other, `D` below `B`, and `E`
below nothing. -/
def adrift : Graph :=
  let apart := ((lone.insertDetached "B").2.insertState "C" 2).2
  (((apart.attach 2 3).insertState "D" 2).2.insertDetached "E").2

theorem treeFindings_adrift :
    (adrift.state rootId).parent = none ∧
    (∃ circles orphans, adrift.Astray circles orphans ∧
      adrift.layOut.treeFindings.Perm
        (circles.map adrift.circleReport ++ orphans.map adrift.orphanReport)) ∧
    (∀ id, ¬adrift.Rooted id → (∀ circle, adrift.IsCircle circle → id ∉ circle) →
      adrift.layOut.strayFindings id = []) ∧
    (adrift.layOut.treeFindings = [] ↔ ∀ id < adrift.stateCount, id ∈ adrift.breadthFirst) :=
  ⟨by decide +kernel, treeFindings_exact (by decide +kernel)⟩

example : adrift.layOut.treeFindings =
    [adrift.circleReport [2, 3], adrift.orphanReport 5] := by
  decide +kernel

end Graph

end Statechart.Chart
