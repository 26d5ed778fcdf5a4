/-
# Flattening a ready graph

Writing the tables of a ready graph asks only for placements of states of the tree
(`Ready.placed_of_mem_needs`), so it ends with tables or with two names that have one id
(`Ready.flatten_eq`). A name table holds names with different ids, none of them zero, and
so never more than its count can say; the other tables are bounded by what was accepted.

The main statement is that the tables of a ready graph are encodable.
-/

import Statechart.Proofs.Chart.Tables
import Statechart.Proofs.Rom.Encoding

namespace Statechart.Chart

open Statechart.Rom

/-! ### Name tables -/

namespace NameTable

/-- No two names have the same id. -/
def Apart (table : NameTable) : Prop :=
  (table.names.toList.map Name.hash16).Nodup

theorem apart_empty : empty.Apart :=
  List.nodup_nil

/-- A name that got its id leaves the others apart. -/
theorem Apart.intern {table next : NameTable} {name : String} (apart : table.Apart)
    (interned : table.intern name = .ok next) : next.Apart := by
  unfold NameTable.intern at interned
  split at interned
  · cases interned
    exact apart
  · simp only at interned
    split at interned
    · cases interned
    · rename_i unused
      cases interned
      unfold Apart
      rw [Array.toList_push, List.map_append]
      refine List.Nodup.append apart (List.nodup_singleton _) (List.disjoint_singleton.2 ?_)
      intro listed
      obtain ⟨other, member, same⟩ := List.mem_map.1 listed
      have differs := Array.find?_eq_none.1 unused other (Array.mem_toList_iff.1 member)
      simp [same] at differs

/-- Ids are not zero, so there are fewer names than 16-bit words. -/
theorem Apart.size_ids {table : NameTable} (apart : table.Apart) :
    table.ids.size < 65536 := by
  have numbers : (table.names.toList.map fun name => (Name.hash16 name).toNat).Nodup := by
    have distinct := apart.map (f := UInt16.toNat) fun first second => UInt16.toNat_inj.1
    rwa [List.map_map] at distinct
  have positive : (table.names.toList.map fun name => (Name.hash16 name).toNat) ⊆
      List.range' 1 65535 := by
    intro number listed
    obtain ⟨name, -, rfl⟩ := List.mem_map.1 listed
    have some : (Name.hash16 name).toNat ≠ 0 := fun zero =>
      Name.hash16_ne_noId name (UInt16.toNat_inj.1 zero)
    have bound := (Name.hash16 name).toNat_lt
    rw [List.mem_range'_1]
    omega
  have few := (List.subperm_of_subset numbers positive).length_le
  rw [List.length_map, List.length_range'] at few
  rw [ids, Array.size_map]
  exact Nat.lt_of_le_of_lt few (by decide)

end NameTable

namespace Graph

variable {graph : Graph}

/-- Satisfying needs whose placements exist ends with names that are apart, or with a
collision. -/
theorem satisfy_eq {needs : List Need}
    (placed : ∀ id, Need.placement id ∈ needs → (graph.state id).placement.isSome = true)
    {actions guards : NameTable} (apartActions : actions.Apart) (apartGuards : guards.Apart) :
    (∃ collision, graph.satisfy actions guards needs = .ok (.error collision)) ∨
      ∃ lastActions lastGuards,
        graph.satisfy actions guards needs = .ok (.ok (lastActions, lastGuards)) ∧
          lastActions.Apart ∧ lastGuards.Apart := by
  induction needs generalizing actions guards with
  | nil => exact .inr ⟨actions, guards, rfl, apartActions, apartGuards⟩
  | cons need rest ih =>
    have later := fun id member => placed id (List.mem_cons_of_mem need member)
    cases need with
    | placement id =>
      obtain ⟨placement, here⟩ := Option.isSome_iff_exists.1 (placed id (List.mem_cons_self ..))
      have found : (graph.state id).place = .ok placement := by rw [StateNode.place, here]
      rw [satisfy, found]
      exact ih later apartActions apartGuards
    | action name =>
      rw [satisfy]
      cases interned : actions.intern name with
      | error collision => exact .inl ⟨collision, rfl⟩
      | ok next => exact ih later (apartActions.intern interned) apartGuards
    | guard name =>
      rw [satisfy]
      cases interned : guards.intern name with
      | error collision => exact .inl ⟨collision, rfl⟩
      | ok next => exact ih later apartActions (apartGuards.intern interned)

/-! ### The state that a transition stays below -/

namespace Ready

theorem parent_lt (ready : graph.Ready) {id parent : StateId}
    (linked : (graph.state id).parent = some parent) : parent < graph.stateCount :=
  lt_stateCount_of_child (ready.links.mem_children.2 linked)

theorem root_lt (ready : graph.Ready) : rootId < graph.stateCount :=
  ready.lt_stateCount ready.first

theorem lt_of_mem_climb (ready : graph.Ready) {steps : Nat} {id other : StateId}
    (above : other ∈ graph.climb steps id) : other < graph.stateCount := by
  induction steps generalizing id with
  | zero => cases above
  | succ steps ih =>
    rw [climb] at above
    split at above
    · rename_i parent linked
      rcases List.mem_cons.1 above with rfl | further
      · exact ready.parent_lt linked
      · exact ih further
    · cases above

theorem lt_of_mem_path (ready : graph.Ready) {id other : StateId}
    (inside : id < graph.stateCount) (listed : other ∈ graph.path id) :
    other < graph.stateCount := by
  rcases List.mem_cons.1 (List.mem_reverse.1 listed) with rfl | above
  · exact inside
  · exact ready.lt_of_mem_climb above

theorem lastCommon_mem (default : StateId) (first second : List StateId) :
    lastCommon default first second = default ∨ lastCommon default first second ∈ first := by
  induction first generalizing default second with
  | nil => exact .inl (by rw [lastCommon]; simp)
  | cons head rest ih =>
    cases second with
    | nil => exact .inl (by rw [lastCommon]; simp)
    | cons other others =>
      rw [lastCommon]
      split
      · rcases ih head others with same | member
        · rw [same]
          exact .inr (List.mem_cons_self ..)
        · exact .inr (List.mem_cons_of_mem _ member)
      · exact .inl rfl

theorem parentOrRoot_lt (ready : graph.Ready) (id : StateId) :
    graph.parentOrRoot id < graph.stateCount := by
  unfold parentOrRoot
  cases linked : (graph.state id).parent with
  | none => exact ready.root_lt
  | some parent => exact ready.parent_lt linked

theorem liftParallel_lt (ready : graph.Ready) (steps : Nat) {id : StateId}
    (inside : id < graph.stateCount) : graph.liftParallel steps id < graph.stateCount := by
  induction steps generalizing id with
  | zero => exact inside
  | succ steps ih =>
    rw [liftParallel]
    split
    · exact ih (ready.parentOrRoot_lt id)
    · exact inside

theorem lastCommon_lt (ready : graph.Ready) {source : StateId}
    (inside : source < graph.stateCount) (target : StateId) :
    lastCommon rootId (graph.path source) (graph.path target) < graph.stateCount := by
  rcases lastCommon_mem rootId (graph.path source) (graph.path target) with root | member
  · rw [root]
    exact ready.root_lt
  · exact ready.lt_of_mem_path inside member

/-- The meeting state of two states of the tree is in the tree. -/
theorem meetingState_lt (ready : graph.Ready) {source : StateId}
    (inside : source < graph.stateCount) (target : StateId) :
    graph.meetingState source target < graph.stateCount := by
  refine ready.liftParallel_lt _ ?_
  split
  · exact ready.parentOrRoot_lt _
  · exact ready.lastCommon_lt inside target

/-! ### What is asked for -/

theorem notMem_needName (need : String → Need) {name : Option String} {id : StateId}
    (differs : ∀ name, need name ≠ .placement id) : Need.placement id ∉ needName need name := by
  intro asked
  obtain ⟨same, -, equal⟩ : ∃ same, name = some same ∧ need same = .placement id := by
    simpa [needName] using asked
  exact differs same equal

theorem lt_of_mem_transitionNeeds (ready : graph.Ready) {transition : TransitionId}
    (wired : graph.Wired (graph.transition transition))
    (source : (graph.transition transition).source < graph.stateCount) {id : StateId}
    (asked : Need.placement id ∈ graph.transitionNeeds transition) : id < graph.stateCount := by
  have target : targetOf (graph.transition transition) < graph.stateCount := by
    unfold targetOf
    cases leads : (graph.transition transition).target with
    | none => exact source
    | some target => exact wired.target_lt leads
  simp only [transitionNeeds, List.mem_append,
    notMem_needName Need.guard (fun _ => Need.noConfusion),
    notMem_needName Need.action (fun _ => Need.noConfusion), or_false] at asked
  rcases asked with (inSource | inTarget) | inMeeting
  · split at inSource
    · cases inSource
    · obtain rfl := Need.placement.inj (List.mem_singleton.1 inSource)
      exact source
  · obtain rfl := Need.placement.inj (List.mem_singleton.1 inTarget)
    exact target
  · split at inMeeting
    · cases inMeeting
    · obtain rfl := Need.placement.inj (List.mem_singleton.1 inMeeting)
      exact ready.meetingState_lt source _

theorem lt_of_mem_stateNeeds (ready : graph.Ready) {state id : StateId}
    (inside : state < graph.stateCount)
    (asked : Need.placement id ∈ graph.stateNeeds state) : id < graph.stateCount := by
  have linked {other : Option StateId} (whole : ∀ id, other = some id → id < graph.stateCount)
      (asked : Need.placement id ∈ (other.map Need.placement).toList) : id < graph.stateCount := by
    obtain ⟨same, some, equal⟩ : ∃ same, other = some same ∧ same = id := by simpa using asked
    exact equal ▸ whole same some
  have childInside {child : StateId} (listed : child ∈ (graph.state state).children) :
      child < graph.stateCount :=
    lt_stateCount_of_parent (ready.links.mem_children.1 listed)
  obtain ⟨placement, placed, initial⟩ := ready.exists_placement inside
  simp only [stateNeeds, List.mem_append,
    notMem_needName Need.action (fun _ => Need.noConfusion), or_false] at asked
  rcases asked with ((((own | above) | initialChild) | firstChild) | wires)
  · obtain rfl := Need.placement.inj (List.mem_singleton.1 own)
    exact inside
  · exact linked (fun parent => ready.parent_lt) above
  · refine linked (fun child enters => ?_) initialChild
    rw [placed, Option.bind_some, initial] at enters
    exact childInside (defaultChild_mem enters)
  · exact linked (fun child first => childInside (Array.mem_of_getElem? first)) firstChild
  · obtain ⟨transition, inRun, asked⟩ := List.mem_flatMap.1 wires
    have source := (ready.mem_localTransitions.1 inRun).2.1
    exact ready.lt_of_mem_transitionNeeds (ready.wired_of_mem_local inside inRun)
      (source ▸ inside) asked

/-- Only states of the tree are asked for their placement. -/
theorem placed_of_mem_needs (ready : graph.Ready) {id : StateId}
    (asked : Need.placement id ∈ graph.needs) : (graph.state id).placement.isSome = true := by
  have inside : id < graph.stateCount := by
    have everyone {state : StateId} (listed : state ∈ graph.order.toList) :
        state < graph.stateCount := ready.mem_order_iff.1 (Array.mem_toList_iff.1 listed)
    rcases List.mem_append.1 asked with inStates | inGlobals
    · rcases List.mem_append.1 inStates with inRegions | inRecords
      · obtain ⟨state, listed, asked⟩ := List.mem_flatMap.1 inRegions
        unfold regionNeeds at asked
        split at asked
        · obtain ⟨child, member, same⟩ := List.mem_flatMap.1 asked
          have childInside : child < graph.stateCount :=
            lt_stateCount_of_parent (ready.links.mem_children.1 (Array.mem_toList_iff.1 member))
          rcases List.mem_cons.1 same with own | below
          · obtain rfl := Need.placement.inj own
            exact everyone listed
          · obtain rfl := Need.placement.inj (List.mem_singleton.1 below)
            exact childInside
        · cases asked
      · obtain ⟨state, listed, asked⟩ := List.mem_flatMap.1 inRecords
        exact ready.lt_of_mem_stateNeeds (everyone listed) asked
    · obtain ⟨transition, inTable, asked⟩ := List.mem_flatMap.1 inGlobals
      rw [byPriority, List.mem_mergeSort, Array.mem_toList_iff] at inTable
      obtain ⟨bound, isGlobal⟩ := ready.wires.mem_globals.1 inTable
      have source := ready.wires.source_global bound isGlobal
      exact ready.lt_of_mem_transitionNeeds (ready.wired_of_mem_globals inTable)
        (source ▸ ready.root_lt) asked
  obtain ⟨placement, placed, -⟩ := ready.exists_placement inside
  rw [placed]
  rfl

/-- A ready graph is flattened, unless two names have one id. -/
theorem flatten_eq (ready : graph.Ready) :
    (∃ collision, graph.flatten = .ok (.error collision)) ∨
      ∃ actions guards : NameTable, actions.Apart ∧ guards.Apart ∧
        graph.flatten = .ok (.ok {
          sections := graph.sections actions guards
          actionNames := actions.toMap
          guardNames := guards.toMap }) := by
  rcases satisfy_eq (fun id => ready.placed_of_mem_needs) NameTable.apart_empty
    NameTable.apart_empty with ⟨collision, found⟩ | ⟨actions, guards, found, apart, apartGuards⟩
  · refine .inl ⟨collision, ?_⟩
    rw [flatten, found]
    rfl
  · refine .inr ⟨actions, guards, apart, apartGuards, ?_⟩
    rw [flatten, found]
    rfl

/-! ### Table lengths -/

theorem length_regions_le (ready : graph.Ready) :
    (graph.order.toList.flatMap graph.regionRecords).length ≤ graph.order.size := by
  have shorter (ids : List StateId) : (ids.flatMap graph.regionRecords).length ≤
      (ids.flatMap fun id => (graph.state id).children.toList).length := by
    induction ids with
    | nil => exact Nat.le_refl 0
    | cons id rest ih =>
      rw [List.flatMap_cons, List.flatMap_cons, List.length_append, List.length_append,
        length_regionRecords]
      refine Nat.add_le_add ?_ ih
      split
      · exact Nat.le_of_eq Array.length_toList.symm
      · exact Nat.zero_le _
  have all := congrArg List.length ready.toList_order
  rw [List.length_cons] at all
  have size := graph.order.length_toList
  have bound := shorter graph.order.toList
  omega

theorem length_globals_le (ready : graph.Ready) :
    (graph.byPriority graph.globals).length ≤ maxTransitions := by
  have all : graph.globals.toList ⊆ List.range graph.transitions.size := fun id listed =>
    List.mem_range.2 (ready.wires.mem_globals.1 (Array.mem_toList_iff.1 listed)).1
  have bound := (List.subperm_of_subset ready.wires.nodup_globals all).length_le
  rw [List.length_range] at bound
  rw [byPriority, List.length_mergeSort]
  exact Nat.le_trans bound ready.accepted.size_transitions_le

/-- The tables of a ready graph fit a blob. -/
theorem encodable (ready : graph.Ready) {actions guards : NameTable} (apart : actions.Apart)
    (apartGuards : guards.Apart) : (graph.sections actions guards).Encodable where
  states := by
    show graph.stateRecords.size < 65536
    rw [size_stateRecords]
    exact Nat.lt_succ_of_le ready.accepted.size_order_le
  transitions := by
    show (List.map graph.transitionRecord _).toArray.size < 65536
    rw [List.size_toArray, List.length_map]
    exact Nat.lt_succ_of_le ready.length_localTransitions_le
  regions := by
    show (List.flatMap graph.regionRecords _).toArray.size < 65536
    rw [List.size_toArray]
    exact Nat.lt_succ_of_le (Nat.le_trans ready.length_regions_le ready.accepted.size_order_le)
  globals := by
    show (List.map graph.transitionRecord _).toArray.size < 65536
    rw [List.size_toArray, List.length_map]
    exact Nat.lt_succ_of_le ready.length_globals_le
  events := by
    show (graph.events.map eventRecord).size < 65536
    have bound := ready.size_events_le
    rw [Array.size_map]
    simp only [Event.firstUserId] at bound
    omega
  actions := apart.size_ids
  guards := apartGuards.size_ids
  priority_transitions transition listed := by
    obtain ⟨state, inOrder, id, inRun, rfl⟩ := mem_sections_transitions actions guards listed
    exact (ready.wired_of_mem_local (ready.mem_order_iff.1 inOrder) inRun).priority_le
  priority_globals transition listed := by
    obtain ⟨id, inTable, rfl⟩ := mem_sections_globals actions guards listed
    exact (ready.wired_of_mem_globals inTable).priority_le

end Ready

end Graph

end Statechart.Chart
