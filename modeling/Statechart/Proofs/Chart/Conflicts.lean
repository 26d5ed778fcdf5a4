/-
# Conflicts over slots

Two states that can be active together must not have one slot. The test for it looks at the
hierarchy only: one of the two is above the other, or the lowest state above both is
parallel. In a hierarchy this is exactly what it takes for a configuration with both of them
(`IsHierarchy.coActive_iff`).

The pairs to be tested are those of the states that have one slot, each pair once. So the
findings about one kind of slot are in correspondence with the unordered pairs of different
states that share a slot of this kind and can be active together
(`slotFindings_exact`).
-/

import Statechart.Proofs.Chart.Configurations
import Statechart.Proofs.Chart.Slots
import Statechart.Proofs.Gathering

namespace Statechart.Chart

namespace Graph

variable {graph : Graph} {first second : StateId} {slot : Placement → Option UInt16}

/-! ### The test -/

namespace IsHierarchy

variable (hierarchy : graph.IsHierarchy)

include hierarchy

/-- One state above another is where nothing parts. -/
theorem not_parts_of_beneath (beneath : graph.Beneath first second) {meeting left right : StateId} :
    ¬graph.Parts first second meeting left right := fun parts =>
  parts.not_beneath (hierarchy.rooted second) (parts.leftAbove.trans beneath)

/-- Where two states part, the test looks at the state that they part below. -/
theorem coActive_of_parts {meeting left right : StateId}
    (parts : graph.Parts first second meeting left right) :
    graph.coActive first second = (graph.state meeting).parallel := by
  have notAbove : graph.isAncestorOrSelf first second = false := by
    rw [Bool.eq_false_iff, Ne, (hierarchy.rooted second).isAncestorOrSelf_iff_beneath]
    exact fun beneath => hierarchy.not_parts_of_beneath beneath parts
  have notBelow : graph.isAncestorOrSelf second first = false := by
    rw [Bool.eq_false_iff, Ne, (hierarchy.rooted first).isAncestorOrSelf_iff_beneath]
    exact fun beneath => hierarchy.not_parts_of_beneath beneath parts.symm
  rw [coActive, notAbove, notBelow,
    parts.find_meeting (hierarchy.rooted first) (hierarchy.rooted second)]
  rfl

/-- The test finds exactly the states that can be active together. -/
theorem coActive_iff (firstInside : first < graph.stateCount)
    (secondInside : second < graph.stateCount) :
    graph.coActive first second = true ↔ graph.Together first second := by
  rw [hierarchy.together_iff firstInside secondInside]
  by_cases above : graph.Beneath first second
  · have found := (hierarchy.rooted second).isAncestorOrSelf_iff_beneath.2 above
    simp only [coActive, found, Bool.true_or, true_iff]
    exact fun meeting left right parts => absurd parts (hierarchy.not_parts_of_beneath above)
  by_cases below : graph.Beneath second first
  · have found := (hierarchy.rooted first).isAncestorOrSelf_iff_beneath.2 below
    simp only [coActive, found, Bool.true_or, Bool.or_true, true_iff]
    exact fun meeting left right parts =>
      absurd parts.symm (hierarchy.not_parts_of_beneath below)
  · obtain ⟨meeting, left, right, parts⟩ := exists_parts (hierarchy.beneath_root firstInside)
      (hierarchy.beneath_root secondInside) above below
    constructor
    · intro found other otherLeft otherRight otherParts
      rwa [← hierarchy.coActive_of_parts otherParts]
    · intro regions
      rw [hierarchy.coActive_of_parts parts]
      exact regions meeting left right parts

end IsHierarchy

/-! ### The pairs -/

/-- What is reported of two states with one slot. -/
def conflictReport (graph : Graph) (what : String) (slot : Placement → Option UInt16)
    (pair : StateId × StateId) : Diagnostic :=
  let number := ((graph.state pair.1).placement.bind slot).elim 0 UInt16.toNat
  let firstName := graph.nameOf pair.1
  let secondName := graph.nameOf pair.2
  .report .regionSlotConflict (some s!"{what} slot {number} by `{firstName}` and `{secondName}`")
    (some secondName)

/-- Two states have the same slot. -/
def ShareSlot (graph : Graph) (slot : Placement → Option UInt16) (first second : StateId) : Prop :=
  ∃ number, (graph.state first).placement.bind slot = some number ∧
    (graph.state second).placement.bind slot = some number

/-- What there is to report of one kind of slot: each pair of different states that share one
and can be active together, once, the earlier state first. -/
structure Conflicts (graph : Graph) (slot : Placement → Option UInt16)
    (conflicts : List (StateId × StateId)) : Prop where
  nodup : (conflicts.map fun pair => s(pair.1, pair.2)).Nodup
  mem_iff (first second : StateId) :
    s(first, second) ∈ conflicts.map (fun pair => s(pair.1, pair.2)) ↔
      first ≠ second ∧ graph.ShareSlot slot first second ∧ graph.Together first second
  inOrder : ∀ pair ∈ conflicts, [pair.1, pair.2].Sublist graph.order.toList

/-- The states that have a slot, with its number. -/
def slotted (graph : Graph) (slot : Placement → Option UInt16) : List (Nat × StateId) :=
  graph.order.toList.filterMap fun id =>
    ((graph.state id).placement.bind slot).map fun slot => (slot.toNat, id)

theorem mem_slotted {number : Nat} {id : StateId} :
    (number, id) ∈ graph.slotted slot ↔
      id ∈ graph.order ∧ ∃ own, (graph.state id).placement.bind slot = some own ∧
        own.toNat = number := by
  rw [slotted, List.mem_filterMap]
  constructor
  · rintro ⟨other, listed, keyed⟩
    obtain ⟨own, has, same⟩ := Option.map_eq_some_iff.1 keyed
    cases same
    exact ⟨Array.mem_toList_iff.1 listed, own, has, rfl⟩
  · rintro ⟨listed, own, has, rfl⟩
    exact ⟨id, Array.mem_toList_iff.2 listed, by rw [has]; rfl⟩

/-- Only states that exist have a slot. -/
theorem lt_stateCount_of_slotted {number : Nat} {id : StateId}
    (has : (number, id) ∈ graph.slotted slot) : id < graph.stateCount := by
  obtain ⟨-, own, placed, -⟩ := mem_slotted.1 has
  by_contra outside
  rw [state_eq_default (Nat.le_of_not_lt outside)] at placed
  cases placed

/-- Those who have a slot stand in the order. -/
theorem havers_slotted_sublist (number : Nat) :
    (havers (graph.slotted slot) number).Sublist graph.order.toList := by
  have whole : ((graph.slotted slot).map Prod.snd).Sublist graph.order.toList := by
    rw [slotted, List.map_filterMap]
    have plain : (fun id => (((graph.state id).placement.bind slot).map
        fun slot => (slot.toNat, id)).map Prod.snd) =
        Option.guard fun id => ((graph.state id).placement.bind slot).isSome := by
      funext id
      cases held : (graph.state id).placement.bind slot <;> simp [Option.guard, held]
    rw [plain, List.filterMap_eq_filter]
    exact List.filter_sublist
  exact (List.filter_sublist.map _).trans whole

/-- The pairs of states with one slot that pass the test. -/
def slotConflicts (graph : Graph) (slot : Placement → Option UInt16) : List (StateId × StateId) :=
  (runsByKey (graph.slotted slot)).flatMap fun run =>
    (pairs run.2).filter fun pair => graph.coActive pair.1 pair.2

theorem mem_slotConflicts {pair : StateId × StateId} :
    pair ∈ graph.slotConflicts slot ↔
      (∃ number, [pair.1, pair.2].Sublist (havers (graph.slotted slot) number)) ∧
        graph.coActive pair.1 pair.2 = true := by
  simp only [slotConflicts, List.mem_flatMap, List.mem_filter, Prod.exists]
  constructor
  · rintro ⟨number, owners, listed, paired, together⟩
    obtain rfl := (mem_runsByKey.1 listed).2
    exact ⟨⟨number, mem_pairs_iff.1 paired⟩, together⟩
  · rintro ⟨⟨number, sub⟩, together⟩
    have some := List.ne_nil_of_mem (sub.subset (List.mem_cons_self ..))
    exact ⟨number, _, mem_runsByKey.2 ⟨some, rfl⟩, mem_pairs_iff.2 sub, together⟩

/-- One finding is made for each of these pairs. -/
theorem sharedSlotFindings_eq (what : String) (slot : Placement → Option UInt16) :
    graph.sharedSlotFindings what slot =
      (graph.slotConflicts slot).map (graph.conflictReport what slot) := by
  rw [slotConflicts, List.map_flatMap]
  refine List.flatMap_congr fun run listed => ?_
  rw [← flatMap_ite_singleton]
  refine List.flatMap_congr fun pair paired => ?_
  -- The number in the report is that of the run.
  have number : ((graph.state pair.1).placement.bind slot).elim 0 UInt16.toNat = run.1 := by
    rw [(mem_runsByKey.1 listed).2] at paired
    have first := mem_havers.1 ((mem_pairs_iff.1 paired).subset (List.mem_cons_self ..))
    obtain ⟨-, own, has, same⟩ := mem_slotted.1 first
    rw [has, Option.elim_some, same]
  simp only [conflictReport, number]

/-- Two states share a slot when they are among those who have one number. -/
theorem shareSlot_iff (all : first ∈ graph.order ∧ second ∈ graph.order) :
    graph.ShareSlot slot first second ↔
      ∃ number, first ∈ havers (graph.slotted slot) number ∧
        second ∈ havers (graph.slotted slot) number := by
  simp only [mem_havers, mem_slotted, all.1, all.2, true_and]
  constructor
  · rintro ⟨own, one, other⟩
    exact ⟨own.toNat, ⟨own, one, rfl⟩, own, other, rfl⟩
  · rintro ⟨number, ⟨own, one, rfl⟩, other, two, same⟩
    obtain rfl := UInt16.toNat_inj.1 same
    exact ⟨_, one, two⟩

theorem ShareSlot.symm (shared : graph.ShareSlot slot first second) :
    graph.ShareSlot slot second first := by
  obtain ⟨number, one, other⟩ := shared
  exact ⟨number, other, one⟩

/-- No two states are tested twice: a state has one number, and a run repeats nobody. -/
theorem nodup_slotConflicts (apart : graph.order.toList.Nodup) :
    ((graph.slotConflicts slot).map fun pair => s(pair.1, pair.2)).Nodup := by
  rw [slotConflicts, List.map_flatMap, List.nodup_flatMap]
  constructor
  · intro run listed
    have owners : run.2.Nodup := by
      rw [(mem_runsByKey.1 listed).2]
      exact apart.sublist (havers_slotted_sublist run.1)
    exact (nodup_pairs owners).sublist (List.filter_sublist.map _)
  · refine (pairwise_runsByKey _).imp_of_mem fun {run next} listed nextListed less => ?_
    -- Both members of a pair have the number of its run.
    have own {run : Nat × List StateId} (listed : run ∈ runsByKey (graph.slotted slot))
        {both : Sym2 StateId} (paired : both ∈ ((pairs run.2).filter fun pair =>
          graph.coActive pair.1 pair.2).map fun pair => s(pair.1, pair.2)) :
        ∀ id ∈ both, (run.1, id) ∈ graph.slotted slot := by
      obtain ⟨pair, inPairs, rfl⟩ := List.mem_map.1 paired
      have sub := mem_pairs_iff.1 (List.mem_filter.1 inPairs).1
      rw [(mem_runsByKey.1 listed).2] at sub
      intro id among
      refine mem_havers.1 (sub.subset ?_)
      simpa using among
    refine List.disjoint_left.2 fun both one other => ?_
    induction both with
    | _ first second =>
      obtain ⟨-, number, has, same⟩ := mem_slotted.1 (own listed one first (Sym2.mem_mk_left ..))
      obtain ⟨-, again, hasAgain, sameAgain⟩ :=
        mem_slotted.1 (own nextListed other first (Sym2.mem_mk_left ..))
      obtain rfl : number = again := Option.some.inj (has.symm.trans hasAgain)
      exact Nat.ne_of_lt less (same.symm.trans sameAgain)

theorem Together.symm (together : graph.Together first second) : graph.Together second first := by
  obtain ⟨leaves, legal, one, other⟩ := together
  exact ⟨leaves, legal, other, one⟩

theorem Together.inside (hierarchy : graph.IsHierarchy) (together : graph.Together first second) :
    first < graph.stateCount := by
  obtain ⟨leaves, legal, ⟨leaf, listed, beneath⟩, -⟩ := together
  exact hierarchy.lt_stateCount_of_beneath beneath (legal.childless leaf listed).1

/-- In a hierarchy that stands in the order as a whole, the pairs found are those that there are
to report. -/
theorem IsHierarchy.conflicts (hierarchy : graph.IsHierarchy) (apart : graph.order.toList.Nodup)
    (all : ∀ id < graph.stateCount, id ∈ graph.order) :
    graph.Conflicts slot (graph.slotConflicts slot) where
  nodup := nodup_slotConflicts apart
  mem_iff first second := by
    have found {one other : StateId} (paired : (one, other) ∈ graph.slotConflicts slot) :
        one ≠ other ∧ graph.ShareSlot slot one other ∧ graph.Together one other := by
      obtain ⟨⟨number, sub⟩, active⟩ := mem_slotConflicts.1 paired
      have oneIn := sub.subset (List.mem_cons_self ..)
      have otherIn := sub.subset (List.mem_cons_of_mem _ (List.mem_cons_self ..))
      have oneInside := lt_stateCount_of_slotted (mem_havers.1 oneIn)
      have otherInside := lt_stateCount_of_slotted (mem_havers.1 otherIn)
      have differ := apart.sublist (sub.trans (havers_slotted_sublist number))
      exact ⟨by simpa using differ,
        (shareSlot_iff ⟨all one oneInside, all other otherInside⟩).2 ⟨number, oneIn, otherIn⟩,
        (hierarchy.coActive_iff oneInside otherInside).1 active⟩
    rw [List.mem_map]
    constructor
    · rintro ⟨⟨one, other⟩, paired, same⟩
      obtain ⟨differ, shared, together⟩ := found paired
      rcases Sym2.eq_iff.1 same with ⟨rfl, rfl⟩ | ⟨rfl, rfl⟩
      · exact ⟨differ, shared, together⟩
      · exact ⟨differ.symm, shared.symm, together.symm⟩
    · rintro ⟨differ, shared, together⟩
      have firstInside := together.inside hierarchy
      have secondInside := together.symm.inside hierarchy
      obtain ⟨number, firstIn, secondIn⟩ :=
        (shareSlot_iff ⟨all first firstInside, all second secondInside⟩).1 shared
      rcases mem_pairs firstIn secondIn differ with paired | paired
      · refine ⟨(first, second), mem_slotConflicts.2 ⟨⟨number, mem_pairs_iff.1 paired⟩, ?_⟩, rfl⟩
        exact (hierarchy.coActive_iff firstInside secondInside).2 together
      · refine ⟨(second, first), mem_slotConflicts.2 ⟨⟨number, mem_pairs_iff.1 paired⟩, ?_⟩,
          Sym2.eq_swap⟩
        exact (hierarchy.coActive_iff secondInside firstInside).2 together.symm
  inOrder pair listed := by
    obtain ⟨⟨number, sub⟩, -⟩ := mem_slotConflicts.1 listed
    exact sub.trans (havers_slotted_sublist number)

/-- In a hierarchy that was laid out, the test for two states finds exactly those that are active
together in some configuration. For history slots and for timer slots alike, one conflict is
reported for each unordered pair of different states that share a slot and can be active
together, and none besides. -/
theorem slotFindings_exact (hierarchy : graph.IsHierarchy) :
    (∀ first < graph.stateCount, ∀ second < graph.stateCount,
      graph.layOut.coActive first second = true ↔ graph.layOut.Together first second) ∧
    ∃ histories timers,
      graph.layOut.slotFindings =
        histories.map (graph.layOut.conflictReport "history" Placement.historySlot) ++
          timers.map (graph.layOut.conflictReport "timer" Placement.timerSlot) ∧
      graph.layOut.Conflicts Placement.historySlot histories ∧
      graph.layOut.Conflicts Placement.timerSlot timers := by
  have laid := hierarchy.layOut
  refine ⟨fun first firstInside second secondInside => ?_, ?_⟩
  · exact laid.coActive_iff (by simpa using firstInside) (by simpa using secondInside)
  have apart : graph.layOut.order.toList.Nodup := by
    rcases Nat.eq_zero_or_pos graph.stateCount with empty | inhabited
    · simp [Graph.layOut, breadthFirst, empty, visit]
    · exact nodup_breadthFirst inhabited
  have all : ∀ id < graph.layOut.stateCount, id ∈ graph.layOut.order := fun id inside =>
    hierarchy.mem_breadthFirst (by simpa using inside)
  exact ⟨_, _, congrArg₂ _ (sharedSlotFindings_eq _ _) (sharedSlotFindings_eq _ _),
    laid.conflicts apart all, laid.conflicts apart all⟩

/-- Two regions whose timers are to have the same slot. -/
def twins : Graph :=
  let timed (node : StateNode) : StateNode := { node with timer := some ⟨5, none, some 0⟩ }
  (pair.modifyState 2 timed).modifyState 3 timed

theorem drawn_twins : Drawn twins :=
  .configure 3 (.configure 2 drawn_pair (fun _ => rfl) (fun _ => rfl) fun _ => rfl)
    (fun _ => rfl) (fun _ => rfl) fun _ => rfl

theorem slotFindings_twins :
    twins.IsHierarchy ∧
    (∀ first < twins.stateCount, ∀ second < twins.stateCount,
      twins.layOut.coActive first second = true ↔ twins.layOut.Together first second) ∧
    ∃ histories timers,
      twins.layOut.slotFindings =
        histories.map (twins.layOut.conflictReport "history" Placement.historySlot) ++
          timers.map (twins.layOut.conflictReport "timer" Placement.timerSlot) ∧
      twins.layOut.Conflicts Placement.historySlot histories ∧
      twins.layOut.Conflicts Placement.timerSlot timers := by
  have hierarchy : twins.IsHierarchy := drawn_twins.linksAgree.isHierarchy fun id inside =>
    beneath_root_of_mem_breadthFirst (by decide +kernel)
      ((by decide +kernel : ∀ id < twins.stateCount, id ∈ twins.breadthFirst) id inside)
  exact ⟨hierarchy, slotFindings_exact hierarchy⟩

end Graph

end Statechart.Chart
