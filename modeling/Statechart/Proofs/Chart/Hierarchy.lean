/-
# Accepted hierarchies

A hierarchy is a graph whose parent links form a tree below the root and whose child
lists say the same: each state other than the root is listed once, by its parent, and
nowhere else.

Findings are made about states outside the breadth-first order, and the order follows
only those list entries that parent links confirm. What an accepted graph owes to
them is therefore one half of a hierarchy, and it owes that only while the root has no
parent: every state hangs from the root, because the parents of a lost state either end
(an orphan) or come round (a circle, reported by its earliest member). The entries that
were passed over are the other half, and nothing looks at them. So an accepted graph is
a hierarchy exactly when the root has no parent and every list entry is written once and
confirmed (`isHierarchy_iff_of_accepted`).
-/

import Mathlib.Data.Fintype.Pigeonhole
import Mathlib.Dynamics.PeriodicPts.Lemmas
import Mathlib.Logic.Relation
import Statechart.Proofs.Chart.Accepted
import Statechart.Proofs.Chart.BreadthFirst

namespace Statechart.Chart

namespace Graph

variable {graph : Graph}

/-- A state hangs from its parent. -/
def HangsFrom (graph : Graph) (child parent : StateId) : Prop :=
  (graph.state child).parent = some parent

instance (child parent : StateId) : Decidable (graph.HangsFrom child parent) :=
  inferInstanceAs (Decidable (_ = _))

/-- The root is the only state without a parent, nobody is above itself, and a state is
listed once by its parent and by no other state. -/
structure IsHierarchy (graph : Graph) : Prop where
  parent_root : (graph.state rootId).parent = none
  exists_parent {id : StateId} : id < graph.stateCount → id ≠ rootId →
    ∃ parent, graph.HangsFrom id parent
  acyclic (id : StateId) : ¬Relation.TransGen graph.HangsFrom id id
  count_children {id parent : StateId} : graph.HangsFrom id parent →
    (graph.state parent).children.count id = 1
  hangsFrom_of_child {id lister : StateId} : id ∈ (graph.state lister).children →
    graph.HangsFrom id lister

/-! ### Parents that end -/

/-- The parents from `next` on are `above`, and the last of them has none. -/
inductive Climbs (graph : Graph) : Option StateId → List StateId → Prop
  | ended : Climbs graph none []
  | next {parent : StateId} {above : List StateId} :
      Climbs graph (graph.state parent).parent above →
        Climbs graph (some parent) (parent :: above)

/-- The parents of a state end. -/
def Rooted (graph : Graph) (id : StateId) : Prop :=
  ∃ above, graph.Climbs (graph.state id).parent above

theorem Climbs.unique {next : Option StateId} {first second : List StateId}
    (one : graph.Climbs next first) (other : graph.Climbs next second) : first = second := by
  induction one generalizing second with
  | ended =>
    cases other
    rfl
  | next _ ih =>
    cases other with
    | next rest => rw [ih rest]

/-- From a state on the way up the way is shorter. -/
theorem Climbs.of_mem {next : Option StateId} {above : List StateId} {id : StateId}
    (climbs : graph.Climbs next above) (passed : id ∈ above) :
    ∃ rest, graph.Climbs (graph.state id).parent rest ∧ rest.length < above.length := by
  induction climbs with
  | ended => cases passed
  | next rest ih =>
    rcases List.mem_cons.1 passed with rfl | later
    · exact ⟨_, rest, Nat.lt_succ_self _⟩
    · obtain ⟨shorter, climbs, less⟩ := ih later
      exact ⟨shorter, climbs, Nat.lt_succ_of_lt less⟩

/-- Nobody is above itself if its parents end. -/
theorem Climbs.notMem {id : StateId} {above : List StateId}
    (climbs : graph.Climbs (graph.state id).parent above) : id ∉ above := by
  intro passed
  obtain ⟨rest, again, less⟩ := climbs.of_mem passed
  rw [climbs.unique again] at less
  exact Nat.lt_irrefl _ less

theorem Climbs.nodup {next : Option StateId} {above : List StateId}
    (climbs : graph.Climbs next above) : above.Nodup := by
  induction climbs with
  | ended => exact List.nodup_nil
  | next rest ih => exact List.nodup_cons.2 ⟨rest.notMem, ih⟩

/-- All states on the way up exist, but for the last one, which may not. -/
theorem Climbs.length_le {id : StateId} {above : List StateId}
    (climbs : graph.Climbs (graph.state id).parent above) :
    above.length ≤ graph.stateCount := by
  have inside : ∀ child ∈ (id :: above).dropLast, child < graph.stateCount := by
    generalize start : (graph.state id).parent = next at climbs
    induction climbs generalizing id with
    | ended => simp
    | @next parent above _ ih =>
      intro child passed
      rw [List.dropLast_cons_of_ne_nil (List.cons_ne_nil _ _)] at passed
      rcases List.mem_cons.1 passed with rfl | later
      · exact lt_stateCount_of_parent start
      · exact ih rfl child later
  have apart : (id :: above).dropLast.Nodup :=
    (List.nodup_cons.2 ⟨climbs.notMem, climbs.nodup⟩).sublist (List.dropLast_sublist _)
  have all : (id :: above).dropLast ⊆ List.range graph.stateCount := fun child passed =>
    List.mem_range.2 (inside child passed)
  simpa using (List.subperm_of_subset apart all).length_le

/-- The way up goes on to the parents of those on it. -/
theorem Climbs.mem_of_hangsFrom {next : Option StateId} {above : List StateId}
    (climbs : graph.Climbs next above) {id parent : StateId} (passed : id ∈ above)
    (link : graph.HangsFrom id parent) : parent ∈ above := by
  induction climbs with
  | ended => cases passed
  | next rest ih =>
    rcases List.mem_cons.1 passed with rfl | later
    · rw [link] at rest
      cases rest with
      | next _ => exact List.mem_cons_of_mem _ (List.mem_cons_self ..)
    · exact List.mem_cons_of_mem _ (ih later)

theorem Rooted.acyclic {id : StateId} (rooted : graph.Rooted id) :
    ¬Relation.TransGen graph.HangsFrom id id := by
  obtain ⟨above, climbs⟩ := rooted
  have passed {top : StateId} (reached : Relation.TransGen graph.HangsFrom id top) :
      top ∈ above := by
    induction reached with
    | single link =>
      rw [link] at climbs
      cases climbs with
      | next _ => exact List.mem_cons_self ..
    | tail _ link ih => exact climbs.mem_of_hangsFrom ih link
  exact fun round => climbs.notMem (passed round)

/-- A state is rooted when its parent is. -/
theorem Rooted.of_parent {id parent : StateId} (linked : graph.HangsFrom id parent)
    (rooted : graph.Rooted parent) : graph.Rooted id := by
  obtain ⟨above, climbs⟩ := rooted
  refine ⟨parent :: above, ?_⟩
  rw [linked]
  exact .next climbs

/-! ### Orphans are reported -/

theorem Climbs.cycleFrom_eq_none {id : StateId} {next : Option StateId} {above : List StateId}
    (climbs : graph.Climbs next above) (elsewhere : id ∉ above) (steps : Nat)
    (chain : List StateId) : graph.cycleFrom id steps chain next = none := by
  induction climbs generalizing steps chain with
  | ended => cases steps <;> rfl
  | @next parent above _ ih =>
    cases steps with
    | zero => rfl
    | succ steps =>
      have differs : parent ≠ id := fun same => elsewhere (same ▸ List.mem_cons_self ..)
      rw [cycleFrom, if_neg differs]
      split
      · rfl
      · exact ih (fun later => elsewhere (List.mem_cons_of_mem _ later)) steps _

theorem Climbs.entersCycleFrom_eq_false {next : Option StateId} {above : List StateId}
    (climbs : graph.Climbs next above) {seen : List StateId}
    (fresh : ∀ id ∈ above, id ∉ seen) {steps : Nat} (enough : above.length < steps) :
    graph.entersCycleFrom steps seen next = false := by
  induction climbs generalizing seen steps with
  | ended =>
    cases steps with
    | zero => cases enough
    | succ steps => rfl
  | @next parent above rest ih =>
    cases steps with
    | zero => cases enough
    | succ steps =>
      rw [entersCycleFrom, Bool.or_eq_false_iff]
      constructor
      · simpa using fresh parent (List.mem_cons_self ..)
      · refine ih (fun id later => ?_) (Nat.lt_of_succ_lt_succ enough)
        rintro (_ | ⟨_, old⟩)
        · exact rest.notMem later
        · exact fresh id (List.mem_cons_of_mem _ later) old

/-- A lost state whose parents end is reported as an orphan. -/
theorem Rooted.strayFindings_eq {id : StateId} (rooted : graph.Rooted id) :
    graph.strayFindings id = [.report .orphanState none (some (graph.nameOf id))] := by
  obtain ⟨above, climbs⟩ := rooted
  have alone : graph.cycleThrough id = none := climbs.cycleFrom_eq_none climbs.notMem _ _
  have ends : graph.entersCycle id = false := by
    refine climbs.entersCycleFrom_eq_false (fun parent passed => ?_)
      (Nat.lt_succ_of_le climbs.length_le)
    rw [List.mem_singleton]
    rintro rfl
    exact climbs.notMem passed
  simp [strayFindings, alone, ends]

/-! ### Circles are reported -/

/-- The state above, or the state itself at the top. -/
def above (graph : Graph) (id : StateId) : StateId :=
  (graph.state id).parent.getD id

/-- A state whose parents do not end has one, and its parents do not end either. -/
theorem parent_of_not_rooted {id : StateId} (endless : ¬graph.Rooted id) :
    (graph.state id).parent = some (graph.above id) ∧ ¬graph.Rooted (graph.above id) := by
  cases linked : (graph.state id).parent with
  | none =>
    refine absurd ⟨[], ?_⟩ endless
    rw [linked]
    exact .ended
  | some parent =>
    have same : graph.above id = parent := by rw [above, linked, Option.getD_some]
    rw [same]
    exact ⟨rfl, fun rooted => endless (rooted.of_parent linked)⟩

theorem not_rooted_iterate {id : StateId} (endless : ¬graph.Rooted id) (count : Nat) :
    ¬graph.Rooted (graph.above^[count] id) := by
  induction count with
  | zero => exact endless
  | succ count ih =>
    rw [Function.iterate_succ_apply']
    exact (parent_of_not_rooted ih).2

theorem lt_stateCount_of_not_rooted {id : StateId} (endless : ¬graph.Rooted id) :
    id < graph.stateCount :=
  lt_stateCount_of_parent (parent_of_not_rooted endless).1

/-- Parents that do not end come round. -/
theorem exists_periodic {id : StateId} (endless : ¬graph.Rooted id) :
    ∃ count, graph.above^[count] id ∈ Function.periodicPts graph.above := by
  have inside (count : Nat) : graph.above^[count] id < graph.stateCount :=
    lt_stateCount_of_not_rooted (not_rooted_iterate endless count)
  obtain ⟨first, second, differs, same⟩ := Finite.exists_ne_map_eq_of_infinite
    fun count => (⟨graph.above^[count] id, inside count⟩ : Fin graph.stateCount)
  have equal : graph.above^[first] id = graph.above^[second] id := congrArg Fin.val same
  -- The one met earlier is met again after as many steps as lie between the two.
  have round {early late : Nat} (before : early < late)
      (again : graph.above^[early] id = graph.above^[late] id) :
      graph.above^[early] id ∈ Function.periodicPts graph.above := by
    refine ⟨late - early, Nat.sub_pos_of_lt before, ?_⟩
    show graph.above^[late - early] (graph.above^[early] id) = graph.above^[early] id
    rw [← Function.iterate_add_apply, Nat.sub_add_cancel (Nat.le_of_lt before)]
    exact again.symm
  rcases Nat.lt_or_gt_of_ne differs with before | after
  · exact ⟨first, round before equal⟩
  · exact ⟨second, round after equal.symm⟩

/-- A circle has an earliest member. -/
theorem exists_earliest {id : StateId} (round : id ∈ Function.periodicPts graph.above) :
    ∃ count, graph.above^[count] id ∈ Function.periodicPts graph.above ∧
      ∀ further, graph.above^[count] id ≤ graph.above^[further] (graph.above^[count] id) := by
  have occupied : (Finset.range (Function.minimalPeriod graph.above id)).Nonempty :=
    Finset.nonempty_range_iff.2
      (Nat.ne_of_gt (Function.minimalPeriod_pos_of_mem_periodicPts round))
  obtain ⟨count, -, least⟩ := Finset.exists_min_image _ (fun count => graph.above^[count] id)
    occupied
  refine ⟨count, ?_, fun further => ?_⟩
  · obtain ⟨period, positive, periodic⟩ := round
    exact ⟨period, positive, periodic.apply_iterate count⟩
  · have positive := Function.minimalPeriod_pos_of_mem_periodicPts round
    have wound := Function.iterate_mod_minimalPeriod_eq (f := graph.above) (x := id)
      (n := further + count)
    rw [← Function.iterate_add_apply, ← wound]
    exact least _ (Finset.mem_range.2 (Nat.mod_lt _ positive))

/-- The first `count` states from `id` on, latest first. -/
def trail (graph : Graph) (id : StateId) (count : Nat) : List StateId :=
  ((List.range count).map fun steps => graph.above^[steps] id).reverse

theorem trail_succ (id : StateId) (count : Nat) :
    graph.trail id (count + 1) = graph.above^[count] id :: graph.trail id count := by
  simp [trail, List.range_succ]

/-- Once `count` states of a circle have been met, the rest of it is found. -/
theorem cycleFrom_trail {id : StateId} (endless : ¬graph.Rooted id) (left : Nat) {count : Nat}
    (part : count + left = Function.minimalPeriod graph.above id) (started : 0 < count)
    {steps : Nat} (enough : left < steps) :
    graph.cycleFrom id steps (graph.trail id count) (some (graph.above^[count] id)) =
      some (graph.trail id (Function.minimalPeriod graph.above id)).reverse := by
  induction left generalizing count steps with
  | zero =>
    obtain ⟨steps, rfl⟩ := Nat.exists_eq_succ_of_ne_zero (Nat.ne_of_gt enough)
    obtain rfl : count = Function.minimalPeriod graph.above id := part
    rw [cycleFrom, if_pos Function.iterate_minimalPeriod]
  | succ left ih =>
    obtain ⟨steps, rfl⟩ := Nat.exists_eq_succ_of_ne_zero (Nat.ne_of_gt (Nat.zero_lt_of_lt enough))
    -- Before the period is over no state is met twice.
    have new {earlier : Nat} (before : earlier < count) :
        graph.above^[earlier] id ≠ graph.above^[count] id := by
      intro same
      have inside : count < Function.minimalPeriod graph.above id := by omega
      exact Nat.ne_of_lt before (Function.iterate_injOn_Iio_minimalPeriod
        (Set.mem_Iio.2 (Nat.lt_trans before inside)) (Set.mem_Iio.2 inside) same)
    have unmet : graph.above^[count] id ∉ graph.trail id count := by
      simp only [trail, List.mem_reverse, List.mem_map, List.mem_range, not_exists, not_and]
      exact fun earlier before => new before
    have other : graph.above^[count] id ≠ id := fun same => new started same.symm
    have link := (parent_of_not_rooted (not_rooted_iterate endless count)).1
    rw [cycleFrom, if_neg other, if_neg (by simpa using unmet), link, ← trail_succ,
      ← Function.iterate_succ_apply' graph.above count id]
    exact ih (by omega) (Nat.succ_pos count) (Nat.lt_of_succ_lt_succ enough)

/-- The circle through a state of it. -/
theorem cycleThrough_eq {id : StateId} (endless : ¬graph.Rooted id)
    (round : id ∈ Function.periodicPts graph.above) :
    graph.cycleThrough id =
      some (graph.trail id (Function.minimalPeriod graph.above id)).reverse := by
  have positive := Function.minimalPeriod_pos_of_mem_periodicPts round
  -- The members of the circle are different states, so there are no more than states.
  have short : Function.minimalPeriod graph.above id ≤ graph.stateCount := by
    have maps : Set.MapsTo (fun count => graph.above^[count] id)
        (Finset.range (Function.minimalPeriod graph.above id)) (Finset.range graph.stateCount) :=
      fun count _ => Finset.mem_coe.2 (Finset.mem_range.2
        (lt_stateCount_of_not_rooted (not_rooted_iterate endless count)))
    have apart : Set.InjOn (fun count => graph.above^[count] id)
        (Finset.range (Function.minimalPeriod graph.above id)) := by
      rw [Finset.coe_range]
      exact Function.iterate_injOn_Iio_minimalPeriod
    simpa using Finset.card_le_card_of_injOn _ maps apart
  have link := (parent_of_not_rooted endless).1
  rw [cycleThrough, link]
  exact cycleFrom_trail endless (Function.minimalPeriod graph.above id - 1)
    (by omega : 1 + _ = _) Nat.one_pos (by omega)

/-- The earliest member of a circle reports it. -/
theorem hasErrors_of_earliest {id : StateId} (endless : ¬graph.Rooted id)
    (round : id ∈ Function.periodicPts graph.above)
    (earliest : ∀ further, id ≤ graph.above^[further] id) :
    (graph.strayFindings id).hasErrors = true := by
  have first : (graph.trail id (Function.minimalPeriod graph.above id)).reverse.all
      (fun member => id ≤ member) = true := by
    simp only [trail, List.reverse_reverse, List.all_eq_true, List.mem_map, decide_eq_true_eq]
    rintro member ⟨further, -, rfl⟩
    exact earliest further
  rw [strayFindings, cycleThrough_eq endless round]
  simp only [first, if_true]
  exact Diagnostics.hasErrors_report rfl _ _

/-- A lost state whose parents do not end has a lost state in its circle that is
reported. -/
theorem exists_reported {id : StateId} (endless : ¬graph.Rooted id) :
    ∃ member, ¬graph.Rooted member ∧ (graph.strayFindings member).hasErrors = true := by
  obtain ⟨entry, round⟩ := exists_periodic endless
  obtain ⟨further, roundFirst, earliest⟩ := exists_earliest round
  have endlessFirst := not_rooted_iterate (not_rooted_iterate endless entry) further
  exact ⟨_, endlessFirst, hasErrors_of_earliest endlessFirst roundFirst earliest⟩

/-! ### Accepted graphs -/

theorem hangsFrom_layOut : graph.layOut.HangsFrom = graph.HangsFrom := by
  funext child parent
  rw [HangsFrom, HangsFrom, parent_layOut]

/-- An accepted graph has states. -/
theorem Accepted.stateCount_pos (accepted : graph.layOut.Accepted) : 0 < graph.stateCount := by
  have listed := accepted.children_root_ne
  rw [children_layOut] at listed
  by_contra empty
  have absent : graph.state rootId = default := state_eq_default (Nat.le_of_not_lt empty)
  rw [absent] at listed
  exact listed rfl

/-- While the root has no parent, all parents of states in the order end. -/
theorem rooted_of_mem_breadthFirst (inhabited : 0 < graph.stateCount)
    (top : (graph.state rootId).parent = none) {id : StateId}
    (found : id ∈ graph.breadthFirst) : graph.layOut.Rooted id := by
  obtain ⟨place, here⟩ := Array.mem_iff_getElem?.1 found
  induction place using Nat.strong_induction_on generalizing id with
  | _ place ih =>
    by_cases first : place = 0
    · subst first
      rw [getElem?_breadthFirst_zero inhabited] at here
      obtain rfl := Option.some.inj here
      refine ⟨[], ?_⟩
      rw [parent_layOut, top]
      exact .ended
    · obtain ⟨earlier, parent, before, there, link, -⟩ :=
        exists_parent_before inhabited here first
      refine (ih earlier before (Array.mem_of_getElem? there) there).of_parent ?_
      rw [hangsFrom_layOut]
      exact link

/-- While the root has no parent, an accepted graph has no lost state. -/
theorem Accepted.mem_breadthFirst (accepted : graph.layOut.Accepted)
    (top : (graph.state rootId).parent = none) {id : StateId} (inside : id < graph.stateCount) :
    id ∈ graph.breadthFirst := by
  have inhabited := accepted.stateCount_pos
  have unreported {lost : StateId} (stateInside : lost < graph.layOut.stateCount)
      (missed : lost ∉ graph.breadthFirst) :
      (graph.layOut.strayFindings lost).hasErrors = false := by
    refine accepted.stray stateInside ?_ missed
    rintro rfl
    exact missed (rootId_mem_breadthFirst inhabited)
  by_contra missed
  have clean := unreported (stateCount_layOut.symm ▸ inside) missed
  by_cases rooted : graph.layOut.Rooted id
  · rw [rooted.strayFindings_eq, Diagnostics.hasErrors_report rfl] at clean
    cases clean
  · obtain ⟨member, endless, reported⟩ := exists_reported rooted
    have unfound : member ∉ graph.breadthFirst := fun found =>
      endless (rooted_of_mem_breadthFirst inhabited top found)
    rw [unreported (lt_stateCount_of_not_rooted endless) unfound] at reported
    cases reported

/-- An accepted graph is a hierarchy exactly when its root has no parent and every entry
of a child list is written once and confirmed by the child's parent link. -/
theorem isHierarchy_iff_of_accepted (accepted : graph.layOut.findings.hasErrors = false) :
    graph.IsHierarchy ↔
      (graph.state rootId).parent = none ∧
        ∀ id, (graph.state id).children.toList.Nodup ∧
          ∀ child ∈ (graph.state id).children, graph.HangsFrom child id := by
  constructor
  · intro hierarchy
    refine ⟨hierarchy.parent_root, fun id => ⟨?_, fun child => hierarchy.hangsFrom_of_child⟩⟩
    apply List.nodup_iff_count_le_one.2
    intro child
    by_cases listed : child ∈ (graph.state id).children
    · have once := hierarchy.count_children (hierarchy.hangsFrom_of_child listed)
      rw [Array.count_toList, once]
    · rw [List.count_eq_zero.2 (fun member => listed (Array.mem_toList_iff.1 member))]
      exact Nat.zero_le 1
  · rintro ⟨top, confirmed⟩
    have clean := accepted_iff.2 accepted
    have inhabited := clean.stateCount_pos
    have found {id : StateId} (inside : id < graph.stateCount) : id ∈ graph.breadthFirst :=
      clean.mem_breadthFirst top inside
    exact {
      parent_root := top
      exists_parent := by
        intro id inside other
        obtain ⟨parent, -, link, -⟩ := parent_mem_breadthFirst inhabited (found inside) other
        exact ⟨parent, link⟩
      acyclic := by
        intro id round
        obtain ⟨parent, link, -⟩ := Relation.TransGen.head'_iff.1 round
        have rooted := rooted_of_mem_breadthFirst inhabited top
          (found (lt_stateCount_of_parent link))
        rw [← hangsFrom_layOut] at round
        exact rooted.acyclic round
      count_children := by
        intro id parent link
        have other : id ≠ rootId := by
          rintro rfl
          rw [HangsFrom, top] at link
          cases link
        obtain ⟨lister, -, same, listed⟩ := parent_mem_breadthFirst inhabited
          (found (lt_stateCount_of_parent link)) other
        obtain rfl : parent = lister := Option.some.inj (link.symm.trans same)
        rw [← Array.count_toList]
        exact List.count_eq_one_of_mem (confirmed parent).1 (Array.mem_toList_iff.2 listed)
      hangsFrom_of_child := fun listed => (confirmed _).2 _ listed }

/-- A state of a new name can be added below any state. -/
theorem Drawn.insertState (drawn : Drawn graph) {name : String} {parent : StateId}
    (inside : parent < graph.stateCount) (proper : name ≠ rootName)
    (fresh : name ∉ graph.stateNames.names) : Drawn (graph.insertState name parent).2 := by
  have unnamed : ¬ (name = rootName ∨ graph.stateNames.contains name = true) :=
    not_or.2 ⟨proper, fun listed => fresh (Name.Roster.contains_iff.1 listed)⟩
  have added : graph.addState name parent = .ok (graph.insertState name parent) := by
    rw [Graph.addState, stateProblem?, if_neg unnamed]
  exact .addState drawn inside added

/-- A machine with one state, `A`. -/
def lone : Graph :=
  ((Graph.named "M").insertState "A" rootId).2

theorem drawn_lone : Drawn lone :=
  .insertState (.named "M") Nat.one_pos (by decide) (Array.not_mem_empty "A")

theorem isHierarchy_iff_lone :
    lone.layOut.findings.hasErrors = false ∧
      (lone.IsHierarchy ↔
        (lone.state rootId).parent = none ∧
          ∀ id, (lone.state id).children.toList.Nodup ∧
            ∀ child ∈ (lone.state id).children, lone.HangsFrom child id) :=
  ⟨by decide +kernel, isHierarchy_iff_of_accepted (by decide +kernel)⟩

/-- The root hung below its own child: parents come round and nothing is reported. -/
theorem uprooted_accepted :
    (lone.reparent rootId 1).layOut.findings.hasErrors = false ∧
      ¬(lone.reparent rootId 1).IsHierarchy := by
  refine ⟨by decide +kernel, fun hierarchy => ?_⟩
  have upward : (lone.reparent rootId 1).HangsFrom rootId 1 := by decide +kernel
  have downward : (lone.reparent rootId 1).HangsFrom 1 rootId := by decide +kernel
  exact hierarchy.acyclic rootId (.tail (.single upward) downward)

end Graph

end Statechart.Chart
