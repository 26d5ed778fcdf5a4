/-
# A hierarchy and its tables

What is written about a graph that is ready says about its states what the graph says about
them. Each state has an index of its own, an index is written as the parent of another
exactly where one state hangs from the other (`Ready.child_iff`), and so it is with
everything that is made of parents: what lies above what (`Ready.beneath_iff`), what is
active with some leaves (`Ready.active_iff`), and which leaves make a legal configuration
(`Ready.legal_iff`).

The depth that is written for a state counts the states on the way up to the root, so a
difference of depths counts those between two states (`Ready.depthOf_eq_add`).
-/

import Statechart.Proofs.Chart.Configurations
import Statechart.Proofs.Rom.Legal

namespace Statechart.Chart

open Statechart.Rom

namespace Graph

variable {graph : Graph} {top id parent child : StateId} {leaves : List StateId}

/-- An accepted transition that is not internal has a target. -/
theorem Wired.exists_target {transition : TransitionNode} (wired : graph.Wired transition)
    (external : transition.isInternal = false) : ∃ target, transition.target = some target := by
  cases leads : transition.target with
  | none =>
    rw [wired.isInternal_of_none leads] at external
    cases external
  | some target => exact ⟨target, rfl⟩

namespace Ready

/-- A graph that is ready is a hierarchy. -/
theorem isHierarchy (ready : graph.Ready) : graph.IsHierarchy := by
  refine ready.links.isHierarchy fun id inside => ?_
  obtain ⟨place, here⟩ := ready.exists_place inside
  induction place using Nat.strong_induction_on generalizing id with
  | _ place ih =>
    by_cases first : place = 0
    · subst first
      exact Option.some.inj (ready.first.symm.trans here) ▸ .refl rootId
    · obtain ⟨earlier, parent, before, there, link⟩ := ready.exists_parent here first
      exact (ih earlier before parent (ready.lt_stateCount there) there).trans
        (HangsFrom.beneath link)

/-- The place of a state is its index. -/
theorem order_indexOf (ready : graph.Ready) (inside : id < graph.stateCount) :
    graph.order[(graph.indexOf id).toNat]? = some id := by
  obtain ⟨place, here⟩ := ready.exists_place inside
  rwa [ready.indexOf_eq here, ready.toNat_place here]

/-- Only the root has the index of the root. -/
theorem indexOf_eq_root_iff (ready : graph.Ready) (inside : id < graph.stateCount) :
    graph.indexOf id = rootIndex ↔ id = rootId := by
  rw [← ready.indexOf_root]
  exact ⟨ready.indexOf_inj inside (Nat.zero_lt_of_lt inside), congrArg graph.indexOf⟩

/-- A transition that is not global has a source. -/
theorem source_lt (ready : graph.Ready) {transition : TransitionId}
    (known : transition < graph.transitions.size)
    (isLocal : (graph.transition transition).isGlobal = false) :
    (graph.transition transition).source < graph.stateCount := by
  have listed := ready.wires.mem_transitions.2 ⟨known, rfl, isLocal⟩
  by_contra outside
  rw [state_eq_default (Nat.le_of_not_lt outside)] at listed
  cases listed with
  | mk listed => cases listed

section Tables

variable (actions guards : NameTable) (ready : graph.Ready)

include ready

theorem parallel_indexOf (inside : id < graph.stateCount) :
    ((graph.sections actions guards).record (graph.indexOf id)).flags.parallel =
      (graph.state id).parallel := by
  rw [record_eq actions guards (ready.order_indexOf inside)]
  rfl

theorem exists_indexOf {state : UInt16} (has : (graph.sections actions guards).Has state) :
    ∃ id < graph.stateCount, graph.indexOf id = state := by
  obtain ⟨id, here, same⟩ := ready.exists_state actions guards has
  exact ⟨id, ready.lt_stateCount here, same⟩

/-- One index is written as the parent of another where one state hangs from the other. -/
theorem child_iff (inside : parent < graph.stateCount) (childInside : child < graph.stateCount) :
    (graph.sections actions guards).Child (graph.indexOf parent) (graph.indexOf child) ↔
      graph.HangsFrom child parent := by
  have written := ready.record_parent_eq_iff actions guards (ready.order_indexOf childInside)
    (ready.order_indexOf inside) rfl
  constructor
  · exact fun linked => written.1 linked.parent_eq
  · intro link
    refine ⟨ready.has_indexOf actions guards childInside, fun isRoot => ?_, written.2 link⟩
    rw [(ready.indexOf_eq_root_iff childInside).1 isRoot, HangsFrom,
      ready.links.parent_root] at link
    cases link

/-- What lies above what is the same in the tables. -/
theorem beneath_iff (topInside : top < graph.stateCount) (inside : id < graph.stateCount) :
    (graph.sections actions guards).Beneath (graph.indexOf top) (graph.indexOf id) ↔
      graph.Beneath top id := by
  rw [← ready.isAncestorOrSelf_iff actions guards (ready.order_indexOf topInside)
    (ready.order_indexOf inside)]
  exact (ready.isHierarchy.rooted id).isAncestorOrSelf_iff_beneath

/-- What is active with some leaves is the same in the tables. -/
theorem active_iff (exist : ∀ leaf ∈ leaves, leaf < graph.stateCount)
    (inside : id < graph.stateCount) :
    (graph.sections actions guards).Active (leaves.map graph.indexOf) (graph.indexOf id) ↔
      graph.Active leaves id := by
  constructor
  · rintro ⟨_, listed, beneath⟩
    obtain ⟨leaf, member, rfl⟩ := List.mem_map.1 listed
    exact ⟨leaf, member, (ready.beneath_iff actions guards inside (exist leaf member)).1 beneath⟩
  · rintro ⟨leaf, member, beneath⟩
    exact ⟨_, List.mem_map_of_mem member,
      (ready.beneath_iff actions guards inside (exist leaf member)).2 beneath⟩

/-- Whatever is written below a state is the index of one that hangs from it. -/
theorem exists_hangsFrom_of_child (inside : id < graph.stateCount) {state : UInt16}
    (linked : (graph.sections actions guards).Child (graph.indexOf id) state) :
    ∃ child < graph.stateCount, graph.indexOf child = state ∧ graph.HangsFrom child id := by
  obtain ⟨child, childInside, rfl⟩ := ready.exists_indexOf actions guards linked.has
  exact ⟨child, childInside, rfl, (ready.child_iff actions guards inside childInside).1 linked⟩

theorem composite_iff (inside : id < graph.stateCount) :
    ((graph.sections actions guards).record (graph.indexOf id)).flags.composite = true ↔
      ∃ child, graph.HangsFrom child id := by
  rw [record_eq actions guards (ready.order_indexOf inside)]
  show (!(graph.state id).children.isEmpty) = true ↔ _
  rw [Bool.not_eq_true', Array.isEmpty_eq_false_iff]
  constructor
  · intro some
    obtain ⟨child, listed⟩ := Array.exists_mem_of_ne_empty _ some
    exact ⟨child, ready.links.mem_children.1 listed⟩
  · rintro ⟨child, link⟩
    exact Array.ne_empty_of_mem (ready.links.mem_children.2 link)

/-- Whatever is active in the tables is the index of an active state. -/
theorem exists_active (exist : ∀ leaf ∈ leaves, leaf < graph.stateCount) {state : UInt16}
    (isActive : (graph.sections actions guards).Active (leaves.map graph.indexOf) state) :
    ∃ id < graph.stateCount, graph.indexOf id = state ∧ graph.Active leaves id := by
  obtain ⟨leaf, listed, beneath⟩ := isActive
  obtain ⟨id, inside, rfl⟩ := ready.exists_indexOf actions guards beneath.has_top
  exact ⟨id, inside, rfl, (ready.active_iff actions guards exist inside).1 ⟨leaf, listed, beneath⟩⟩

/-- The legal configurations of a graph are legal in its tables. -/
theorem legal_indices (legal : graph.Legal leaves) :
    (graph.sections actions guards).Legal (leaves.map graph.indexOf) := by
  have exist : ∀ leaf ∈ leaves, leaf < graph.stateCount := fun leaf listed =>
    (legal.childless leaf listed).1
  have active {id : StateId} (inside : id < graph.stateCount) :=
    ready.active_iff actions guards exist inside
  refine ⟨legal.nodup.map_on fun first one second other => ?_, ?_, ?_, ?_, ?_⟩
  · exact ready.indexOf_inj (exist first one) (exist second other)
  · intro state listed
    obtain ⟨leaf, member, rfl⟩ := List.mem_map.1 listed
    refine ⟨ready.has_indexOf actions guards (exist leaf member), fun other linked => ?_⟩
    obtain ⟨own, -, -, link⟩ :=
      ready.exists_hangsFrom_of_child actions guards (exist leaf member) linked
    exact (legal.childless leaf member).2 own link
  · exact ready.indexOf_root ▸ (active (ready.lt_stateCount ready.first)).2 legal.root
  · intro state isActive composite alone
    obtain ⟨id, inside, rfl, own⟩ := ready.exists_active actions guards exist isActive
    obtain ⟨child, ⟨link, below⟩, only⟩ := legal.one id own
      ((ready.parallel_indexOf actions guards inside).symm.trans alone)
      ((ready.composite_iff actions guards inside).1 composite)
    have childInside := lt_stateCount_of_parent link
    refine ⟨graph.indexOf child, ⟨(ready.child_iff actions guards inside childInside).2 link,
      (active childInside).2 below⟩, fun other linked otherActive => ?_⟩
    obtain ⟨otherId, otherInside, rfl, otherLink⟩ :=
      ready.exists_hangsFrom_of_child actions guards inside linked
    exact congrArg _ (only otherId ⟨otherLink, (active otherInside).1 otherActive⟩)
  · intro state isActive parallel other linked
    obtain ⟨id, inside, rfl, own⟩ := ready.exists_active actions guards exist isActive
    obtain ⟨child, childInside, rfl, link⟩ :=
      ready.exists_hangsFrom_of_child actions guards inside linked
    exact (active childInside).2 (legal.all id own
      ((ready.parallel_indexOf actions guards inside).symm.trans parallel) child link)

/-- What is legal in the tables of a graph are its legal configurations. -/
theorem legal_of_indices (exist : ∀ leaf ∈ leaves, leaf < graph.stateCount)
    (legal : (graph.sections actions guards).Legal (leaves.map graph.indexOf)) :
    graph.Legal leaves := by
  have active {id : StateId} (inside : id < graph.stateCount) :=
    ready.active_iff actions guards exist inside
  have child {id child : StateId} (inside : id < graph.stateCount)
      (link : graph.HangsFrom child id) :
      (graph.sections actions guards).Child (graph.indexOf id) (graph.indexOf child) :=
    (ready.child_iff actions guards inside (lt_stateCount_of_parent link)).2 link
  have insideOf {id : StateId} : graph.Active leaves id → id < graph.stateCount := by
    rintro ⟨leaf, listed, beneath⟩
    exact ready.isHierarchy.lt_stateCount_of_beneath beneath (exist leaf listed)
  refine ⟨legal.nodup.of_map _, fun leaf listed => ⟨exist leaf listed, fun other link => ?_⟩, ?_,
    fun id isActive alone some => ?_, fun id isActive parallel other link => ?_⟩
  · exact (legal.childless _ (List.mem_map_of_mem listed)).2 _ (child (exist leaf listed) link)
  · exact (active (ready.lt_stateCount ready.first)).1 (ready.indexOf_root.symm ▸ legal.root)
  · have inside := insideOf isActive
    obtain ⟨_, ⟨linked, below⟩, only⟩ := legal.one _ ((active inside).2 isActive)
      ((ready.composite_iff actions guards inside).2 some)
      ((ready.parallel_indexOf actions guards inside).trans alone)
    obtain ⟨own, ownInside, rfl, link⟩ :=
      ready.exists_hangsFrom_of_child actions guards inside linked
    refine ⟨own, ⟨link, (active ownInside).1 below⟩, ?_⟩
    rintro other ⟨otherLink, otherActive⟩
    have otherInside := lt_stateCount_of_parent otherLink
    exact ready.indexOf_inj otherInside ownInside
      (only _ (child inside otherLink) ((active otherInside).2 otherActive))
  · have inside := insideOf isActive
    exact (active (lt_stateCount_of_parent link)).1 (legal.all _ ((active inside).2 isActive)
      ((ready.parallel_indexOf actions guards inside).trans parallel) _ (child inside link))

/-- The legal configurations are the same in the tables. -/
theorem legal_iff (exist : ∀ leaf ∈ leaves, leaf < graph.stateCount) :
    (graph.sections actions guards).Legal (leaves.map graph.indexOf) ↔ graph.Legal leaves :=
  ⟨ready.legal_of_indices actions guards exist, ready.legal_indices actions guards⟩

end Tables

/-! ### Depths -/

/-- Only the root has no parent. -/
theorem eq_root_of_parent (ready : graph.Ready) (inside : id < graph.stateCount)
    (endless : (graph.state id).parent = none) : id = rootId := by
  by_contra other
  obtain ⟨parent, link⟩ := ready.isHierarchy.exists_parent inside other
  cases endless.symm.trans link

/-- The depth of a state is the number of states above it. -/
theorem depthOf_eq_length (ready : graph.Ready) {id : StateId} (inside : id < graph.stateCount)
    {above : List StateId} (climbs : graph.Climbs (graph.state id).parent above) :
    graph.depthOf id = above.length := by
  generalize start : (graph.state id).parent = next at climbs
  cases climbs with
  | ended => exact (ready.eq_root_of_parent inside start).symm ▸ ready.depth_root
  | @next parent above rest =>
    have parentInside := ready.parent_lt start
    rw [ready.depth_succ start, ready.depthOf_eq_length parentInside rest, List.length_cons]

/-- As many states lie between two as their depths differ. -/
theorem depthOf_eq_add (ready : graph.Ready) (beneath : graph.Beneath top id) :
    graph.depthOf id = graph.depthOf top + (graph.between top id).ncard := by
  have hierarchy := ready.isHierarchy
  suffices counted : (graph.between top id).encard = (graph.depthOf id - graph.depthOf top : Nat) ∧
      graph.depthOf top ≤ graph.depthOf id by
    rw [Set.ncard_def, counted.1, ENat.toNat_natCast]
    omega
  induction beneath using Relation.ReflTransGen.head_induction_on with
  | refl =>
    rw [(hierarchy.rooted top).between_self, Set.encard_empty, Nat.sub_self]
    exact ⟨rfl, Nat.le_refl _⟩
  | @head lower upper link beneath ih =>
    obtain ⟨counted, deeper⟩ := ih
    have level := ready.depth_succ link
    rw [(hierarchy.rooted lower).encard_between link beneath, counted, level,
      Nat.sub_add_comm deeper]
    exact ⟨rfl, Nat.le_succ_of_le deeper⟩

end Ready

end Graph

end Statechart.Chart
