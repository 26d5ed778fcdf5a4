/-
# The tables of a ready graph

The state at a place of the order is written at that index, its transitions and regions
behind those of the states before it (`getElem?_states`). Children were appended to the
order one state after the other, so those of a state follow each other in the table
(`getElem?_children`), and so do its transitions (`getElem?_transitions`).

The main statement is that the tables of a ready graph are well-formed
(`Ready.wellFormed`).
-/

import Statechart.Proofs.Chart.Ready
import Statechart.Proofs.Rom.WellFormed

namespace Statechart.Chart

open Statechart.Rom

/-! ### Lists put together from runs -/

theorem eq_take_append_cons_drop {Key : Type} {keys : List Key} {place : Nat} {key : Key}
    (here : keys[place]? = some key) :
    keys = keys.take place ++ key :: keys.drop (place + 1) := by
  obtain ⟨inside, rfl⟩ := List.getElem?_eq_some_iff.1 here
  rw [List.getElem_cons_drop, List.take_append_drop]

/-- In a list of runs, each run starts behind those before it. -/
theorem getElem?_flatMap {Key Entry : Type} (run : Key → List Entry) {keys : List Key}
    {place : Nat} {key : Key} (here : keys[place]? = some key) {offset : Nat}
    (inside : offset < (run key).length) :
    (keys.flatMap run)[((keys.take place).flatMap run).length + offset]? = (run key)[offset]? := by
  have split := eq_take_append_cons_drop here
  generalize keys.take place = before at *
  generalize keys.drop (place + 1) = behind at *
  rw [split, List.flatMap_append, List.getElem?_append_right (Nat.le_add_right _ _),
    Nat.add_sub_cancel_left, List.flatMap_cons, List.getElem?_append_left inside]

/-- A run ends before the list does. -/
theorem length_flatMap_take_le {Key Entry : Type} (run : Key → List Entry) {keys : List Key}
    {place : Nat} {key : Key} (here : keys[place]? = some key) :
    ((keys.take place).flatMap run).length + (run key).length ≤ (keys.flatMap run).length := by
  have split := eq_take_append_cons_drop here
  generalize keys.take place = before at *
  generalize keys.drop (place + 1) = behind at *
  rw [split, List.flatMap_append, List.flatMap_cons, List.length_append, List.length_append]
  omega

theorem toNat_ofNat_of_le {number : Nat} (small : number ≤ maxStates) :
    (UInt16.ofNat number).toNat = number :=
  UInt16.toNat_ofNat_of_lt' (Nat.lt_of_le_of_lt small (by decide))

/-- The indices of a run are its places. -/
theorem toList_ofRun {first count : Nat} (fits : first + count ≤ 65536)
    (small : count ≤ maxStates) :
    (IndexRange.ofRun (if count = 0 then noIndex else UInt16.ofNat first)
      (UInt16.ofNat count)).toList = List.range' first count := by
  have countSame := toNat_ofNat_of_le small
  unfold IndexRange.ofRun
  by_cases none : count = 0
  · subst none
    rfl
  · have some : UInt16.ofNat count ≠ 0 := by
      intro zero
      rw [zero] at countSame
      exact none countSame.symm
    have firstSame : (UInt16.ofNat first).toNat = first :=
      UInt16.toNat_ofNat_of_lt' (by simp only [UInt16.size]; omega)
    rw [if_neg some, if_neg none, IndexRange.toList, countSame, firstSame,
      Nat.add_sub_cancel_left]

namespace Graph

variable {graph : Graph}

/-! ### State records -/

/-- The records of some states, given how many transitions and regions come before. -/
def recordsFrom (graph : Graph) : List StateId → Nat → Nat → List StateRecord
  | [], _, _ => []
  | id :: rest, transitions, regions =>
      graph.stateRecord id transitions regions ::
        recordsFrom graph rest (transitions + (graph.localTransitions id).length)
          (regions + (graph.regionRecords id).length)

theorem length_localTransitions (id : StateId) :
    (graph.localTransitions id).length = (graph.state id).transitions.size := by
  simp [localTransitions, byPriority]

theorem length_regionRecords (id : StateId) :
    (graph.regionRecords id).length =
      if graph.hasRegions id then (graph.state id).children.size else 0 := by
  unfold regionRecords
  split <;> simp

theorem foldl_appendState (ids : List StateId) (table : StateTable) :
    (ids.foldl graph.appendState table).records.toList =
      table.records.toList ++ graph.recordsFrom ids table.transitionCount table.regionCount := by
  induction ids generalizing table with
  | nil => simp [recordsFrom]
  | cons id rest ih =>
    rw [List.foldl_cons, ih, recordsFrom, length_localTransitions, length_regionRecords]
    simp [appendState]

theorem getElem?_recordsFrom {ids : List StateId} {place : Nat} {id : StateId}
    (here : ids[place]? = some id) (transitions regions : Nat) :
    (graph.recordsFrom ids transitions regions)[place]? =
      some (graph.stateRecord id
        (transitions + ((ids.take place).flatMap graph.localTransitions).length)
        (regions + ((ids.take place).flatMap graph.regionRecords).length)) := by
  induction ids generalizing place transitions regions with
  | nil => cases here
  | cons first rest ih =>
    cases place with
    | zero =>
      obtain rfl : first = id := Option.some.inj here
      simp [recordsFrom]
    | succ place =>
      rw [recordsFrom, List.getElem?_cons_succ, ih (by simpa using here)]
      simp only [List.take_succ_cons, List.flatMap_cons, List.length_append, Nat.add_assoc]

theorem length_recordsFrom (ids : List StateId) (transitions regions : Nat) :
    (graph.recordsFrom ids transitions regions).length = ids.length := by
  induction ids generalizing transitions regions with
  | nil => rfl
  | cons id rest ih => rw [recordsFrom, List.length_cons, ih, List.length_cons]

theorem toList_stateRecords :
    graph.stateRecords.toList = graph.recordsFrom graph.order.toList 0 0 := by
  rw [stateRecords, ← Array.foldl_toList, foldl_appendState]
  rfl

@[simp]
theorem size_stateRecords : graph.stateRecords.size = graph.order.size := by
  rw [← Array.length_toList, toList_stateRecords, length_recordsFrom, Array.length_toList]

/-- How many transitions are written before those of the state at a place. -/
def transitionsBefore (graph : Graph) (place : Nat) : Nat :=
  ((graph.order.toList.take place).flatMap graph.localTransitions).length

/-- How many regions are written before those of the state at a place. -/
def regionsBefore (graph : Graph) (place : Nat) : Nat :=
  ((graph.order.toList.take place).flatMap graph.regionRecords).length

/-- How many states stand between the root and the children of the state at a place. -/
def childrenBefore (graph : Graph) (place : Nat) : Nat :=
  ((graph.order.toList.take place).flatMap fun id => (graph.state id).children.toList).length

variable (actions guards : NameTable)

/-- The state at a place of the order is written there. -/
theorem getElem?_states {place : Nat} {id : StateId} (here : graph.order[place]? = some id) :
    (graph.sections actions guards).states[place]? =
      some (graph.stateRecord id (graph.transitionsBefore place) (graph.regionsBefore place)) := by
  rw [← Array.getElem?_toList] at here ⊢
  have written : (graph.recordsFrom graph.order.toList 0 0)[place]? = _ :=
    getElem?_recordsFrom here 0 0
  rw [Nat.zero_add, Nat.zero_add] at written
  refine Eq.trans ?_ written
  exact congrArg (fun records => records[place]?) toList_stateRecords

namespace Ready

/-- Places are small enough for an index. -/
theorem place_lt (ready : graph.Ready) {place : Nat} {id : StateId}
    (here : graph.order[place]? = some id) : place < maxStates :=
  Nat.lt_of_lt_of_le (Array.getElem?_eq_some_iff.1 here).1 ready.accepted.size_order_le

theorem toNat_place (ready : graph.Ready) {place : Nat} {id : StateId}
    (here : graph.order[place]? = some id) : (UInt16.ofNat place).toNat = place :=
  toNat_ofNat_of_le (Nat.le_of_lt (ready.place_lt here))

/-- No place has the index that names nothing. -/
theorem ofNat_place_ne (ready : graph.Ready) {place : Nat} {id : StateId}
    (here : graph.order[place]? = some id) : UInt16.ofNat place ≠ noIndex := by
  intro same
  have equal := congrArg UInt16.toNat same
  rw [ready.toNat_place here] at equal
  exact Nat.ne_of_lt (ready.place_lt here) equal

theorem place_inj (ready : graph.Ready) {first second : Nat} {id : StateId}
    (atFirst : graph.order[first]? = some id) (atSecond : graph.order[second]? = some id) :
    first = second := by
  rw [← Array.getElem?_toList] at atFirst atSecond
  have inside := (List.getElem?_eq_some_iff.1 atFirst).1
  exact (List.getElem?_inj inside ready.nodup_order).1 (atFirst.trans atSecond.symm)

theorem exists_place (ready : graph.Ready) {id : StateId} (inside : id < graph.stateCount) :
    ∃ place : Nat, graph.order[place]? = some id :=
  Array.mem_iff_getElem?.1 (ready.mem_order_iff.2 inside)

theorem lt_stateCount (ready : graph.Ready) {place : Nat} {id : StateId}
    (here : graph.order[place]? = some id) : id < graph.stateCount :=
  ready.mem_order_iff.1 (Array.mem_of_getElem? here)

/-- Each state has one place. -/
theorem size_order (ready : graph.Ready) : graph.order.size = graph.stateCount := by
  have same : graph.order.toList.Perm (List.range graph.stateCount) := by
    rw [List.perm_ext_iff_of_nodup ready.nodup_order List.nodup_range]
    intro id
    rw [Array.mem_toList_iff, ready.mem_order_iff, List.mem_range]
  rw [← Array.length_toList, same.length_eq, List.length_range]

/-- Different states have different indices. -/
theorem indexOf_inj (ready : graph.Ready) {first second : StateId}
    (firstInside : first < graph.stateCount) (secondInside : second < graph.stateCount)
    (same : graph.indexOf first = graph.indexOf second) : first = second := by
  obtain ⟨place, here⟩ := ready.exists_place firstInside
  obtain ⟨other, there⟩ := ready.exists_place secondInside
  rw [ready.indexOf_eq here, ready.indexOf_eq there] at same
  have equal := congrArg UInt16.toNat same
  rw [ready.toNat_place here, ready.toNat_place there] at equal
  subst equal
  exact Option.some.inj (here.symm.trans there)

theorem indexOf_ne (ready : graph.Ready) {id : StateId} (inside : id < graph.stateCount) :
    graph.indexOf id ≠ noIndex := by
  obtain ⟨place, here⟩ := ready.exists_place inside
  rw [ready.indexOf_eq here]
  exact ready.ofNat_place_ne here

theorem indexOf_root (ready : graph.Ready) : graph.indexOf rootId = rootIndex :=
  ready.indexOf_eq ready.first

/-- The index of every state names a record. -/
theorem has_indexOf (ready : graph.Ready) {id : StateId} (inside : id < graph.stateCount) :
    (graph.sections actions guards).Has (graph.indexOf id) := by
  obtain ⟨place, here⟩ := ready.exists_place inside
  rw [ready.indexOf_eq here, Sections.Has, ready.toNat_place here]
  show place < graph.stateRecords.size
  rw [size_stateRecords]
  exact (Array.getElem?_eq_some_iff.1 here).1

/-- Every record is that of a state. -/
theorem exists_state (ready : graph.Ready) {state : UInt16}
    (has : (graph.sections actions guards).Has state) :
    ∃ id, graph.order[state.toNat]? = some id ∧ graph.indexOf id = state := by
  have inside : state.toNat < graph.order.size := by
    rw [← size_stateRecords]
    exact has
  have here := Array.getElem?_eq_getElem inside
  refine ⟨_, here, ?_⟩
  rw [ready.indexOf_eq here, UInt16.ofNat_toNat]

theorem record_eq {state : UInt16} {id : StateId} (here : graph.order[state.toNat]? = some id) :
    (graph.sections actions guards).record state =
      graph.stateRecord id (graph.transitionsBefore state.toNat)
        (graph.regionsBefore state.toNat) := by
  rw [Sections.record, Array.getD_eq_getD_getElem?, getElem?_states actions guards here]
  rfl

/-! ### Children -/

/-- The children of a state follow each other. -/
theorem getElem?_children (ready : graph.Ready) {place : Nat} {id : StateId}
    (here : graph.order[place]? = some id) {offset : Nat}
    (inside : offset < (graph.state id).children.size) :
    graph.order[graph.childrenBefore place + 1 + offset]? =
      (graph.state id).children[offset]? := by
  rw [← Array.getElem?_toList] at here
  have run := getElem?_flatMap (fun id => (graph.state id).children.toList) here
    (by simpa using inside)
  rw [← Array.getElem?_toList, ready.toList_order, Nat.add_right_comm, List.getElem?_cons_succ,
    childrenBefore, run, Array.getElem?_toList]

theorem childrenBefore_add_le (ready : graph.Ready) {place : Nat} {id : StateId}
    (here : graph.order[place]? = some id) :
    graph.childrenBefore place + 1 + (graph.state id).children.size ≤ graph.order.size := by
  rw [← Array.getElem?_toList] at here
  have bound := length_flatMap_take_le (fun id => (graph.state id).children.toList) here
  have all := congrArg List.length ready.toList_order
  have size := graph.order.length_toList
  have childCount := (graph.state id).children.length_toList
  rw [List.length_cons] at all
  rw [childrenBefore]
  omega

/-- The places of a state's children are those of the states that name it. -/
theorem mem_places_iff (ready : graph.Ready) {place index : Nat} {id : StateId}
    (here : graph.order[place]? = some id) :
    graph.childrenBefore place + 1 ≤ index ∧
        index < graph.childrenBefore place + 1 + (graph.state id).children.size ↔
      ∃ child, graph.order[index]? = some child ∧ (graph.state child).parent = some id := by
  constructor
  · rintro ⟨low, high⟩
    obtain ⟨offset, rfl⟩ := Nat.exists_eq_add_of_le low
    have inside : offset < (graph.state id).children.size := Nat.lt_of_add_lt_add_left high
    have found := (ready.getElem?_children here inside).trans (Array.getElem?_eq_getElem inside)
    exact ⟨_, found, ready.links.mem_children.1 (Array.getElem_mem inside)⟩
  · rintro ⟨child, there, linked⟩
    obtain ⟨offset, atOffset⟩ := Array.mem_iff_getElem?.1 (ready.links.mem_children.2 linked)
    have inside := (Array.getElem?_eq_some_iff.1 atOffset).1
    obtain rfl := ready.place_inj there ((ready.getElem?_children here inside).trans atOffset)
    exact ⟨Nat.le_add_right _ _, Nat.add_lt_add_left inside _⟩

/-- The child indices of a record are the places of the state's children. -/
theorem toList_children (ready : graph.Ready) {place : Nat} {id : StateId}
    (here : graph.order[place]? = some id) (transitions regions : Nat) :
    (graph.stateRecord id transitions regions).children.toList =
      List.range' (graph.childrenBefore place + 1) (graph.state id).children.size := by
  have fits := ready.childrenBefore_add_le here
  have small : graph.order.size ≤ 65535 := ready.accepted.size_order_le
  have firstChild : (graph.stateRecord id transitions regions).firstChild =
      if (graph.state id).children.size = 0 then noIndex
      else UInt16.ofNat (graph.childrenBefore place + 1) := by
    show (graph.state id).children[0]?.elim noIndex graph.indexOf = _
    by_cases none : (graph.state id).children.size = 0
    · rw [if_pos none, Array.getElem?_eq_none (Nat.le_of_eq none)]
      rfl
    · have inside := Nat.pos_of_ne_zero none
      have first := ready.getElem?_children here inside
      rw [Array.getElem?_eq_getElem inside] at first ⊢
      rw [if_neg none, Option.elim_some, ready.indexOf_eq first, Nat.add_zero]
  rw [StateRecord.children, firstChild]
  exact toList_ofRun (by omega) (show _ ≤ 65535 by omega)

theorem mem_children_iff (ready : graph.Ready) {place index : Nat} {id : StateId}
    (here : graph.order[place]? = some id) (transitions regions : Nat) :
    index ∈ (graph.stateRecord id transitions regions).children.toList ↔
      graph.childrenBefore place + 1 ≤ index ∧
        index < graph.childrenBefore place + 1 + (graph.state id).children.size := by
  rw [ready.toList_children here, List.mem_range'_1]

theorem toList_children_eq_nil_iff (ready : graph.Ready) {id : StateId}
    (inside : id < graph.stateCount) (transitions regions : Nat) :
    (graph.stateRecord id transitions regions).children.toList = [] ↔
      (graph.state id).children = #[] := by
  obtain ⟨place, here⟩ := ready.exists_place inside
  rw [List.eq_nil_iff_forall_not_mem, ← Array.size_eq_zero_iff]
  constructor
  · intro empty
    by_contra some
    exact empty _ ((ready.mem_children_iff here transitions regions).2
      ⟨Nat.le_refl _, Nat.lt_add_of_pos_right (Nat.pos_of_ne_zero some)⟩)
  · intro empty index listed
    have bounds := (ready.mem_children_iff here transitions regions).1 listed
    omega

theorem record_parent {state : UInt16} {id : StateId}
    (here : graph.order[state.toNat]? = some id) :
    ((graph.sections actions guards).record state).parent =
      (graph.state id).parent.elim noIndex graph.indexOf := by
  rw [record_eq actions guards here]
  rfl

/-- The default child is a child. -/
theorem defaultChild_mem {id child : StateId}
    (enters : graph.defaultChild (graph.state id) = some child) :
    child ∈ (graph.state id).children := by
  unfold defaultChild at enters
  split at enters
  · cases enters
  · split at enters
    · rename_i found
      cases enters
      exact Array.mem_of_find?_eq_some found
    · exact Array.mem_of_getElem? enters

theorem defaultChild_eq_none_iff (id : StateId) :
    graph.defaultChild (graph.state id) = none ↔
      (graph.state id).children = #[] ∨ (graph.state id).parallel = true := by
  unfold defaultChild
  by_cases parallel : (graph.state id).parallel = true
  · simp [parallel]
  · rw [if_neg parallel]
    split
    · rename_i child found
      have member := Array.mem_of_find?_eq_some found
      have some : (graph.state id).children ≠ #[] := fun empty => by simp [empty] at member
      simp [parallel, some]
    · rw [Array.getElem?_eq_none_iff, Nat.le_zero, Array.size_eq_zero_iff]
      simp [parallel]

theorem record_initialChild (ready : graph.Ready) {state : UInt16} {id : StateId}
    (here : graph.order[state.toNat]? = some id) :
    ((graph.sections actions guards).record state).initialChild =
      (graph.defaultChild (graph.state id)).elim noIndex graph.indexOf := by
  obtain ⟨placement, placed, initial⟩ := ready.exists_placement (ready.lt_stateCount here)
  rw [record_eq actions guards here]
  show ((graph.state id).placement.bind Placement.initialChild).elim noIndex graph.indexOf = _
  rw [placed, Option.bind_some, initial]

theorem record_depth (ready : graph.Ready) {state : UInt16} {id : StateId}
    (here : graph.order[state.toNat]? = some id) :
    ((graph.sections actions guards).record state).depth.toNat = graph.depthOf id := by
  have shallow : graph.depthOf id ≤ 15 := ready.depth_le (ready.lt_stateCount here)
  rw [record_eq actions guards here]
  show (UInt8.ofNat (graph.depthOf id)).toNat = graph.depthOf id
  exact UInt8.toNat_ofNat_of_lt' (Nat.lt_of_le_of_lt shallow (by decide))

/-! ### Transitions -/

theorem mem_localTransitions (ready : graph.Ready) {id : StateId} {transition : TransitionId} :
    transition ∈ graph.localTransitions id ↔
      transition < graph.transitions.size ∧ (graph.transition transition).source = id ∧
        (graph.transition transition).isGlobal = false := by
  rw [localTransitions, byPriority, List.mem_mergeSort, Array.mem_toList_iff]
  exact ready.wires.mem_transitions

theorem nodup_localTransitions (ready : graph.Ready) :
    (graph.order.toList.flatMap graph.localTransitions).Nodup := by
  rw [List.nodup_flatMap]
  constructor
  · intro id _
    exact (List.mergeSort_perm _ _).nodup_iff.2 (ready.wires.nodup_transitions id)
  · refine ready.nodup_order.imp fun {first second} differs => ?_
    intro transition inFirst inSecond
    have fromFirst := (ready.mem_localTransitions.1 inFirst).2.1
    have fromSecond := (ready.mem_localTransitions.1 inSecond).2.1
    exact differs (fromFirst.symm.trans fromSecond)

/-- There are no more transitions in the table than in the graph. -/
theorem length_localTransitions_le (ready : graph.Ready) :
    (graph.order.toList.flatMap graph.localTransitions).length ≤ maxTransitions := by
  have all : graph.order.toList.flatMap graph.localTransitions ⊆
      List.range graph.transitions.size := by
    intro transition listed
    obtain ⟨id, -, member⟩ := List.mem_flatMap.1 listed
    exact List.mem_range.2 (ready.mem_localTransitions.1 member).1
  have bound := (List.subperm_of_subset ready.nodup_localTransitions all).length_le
  rw [List.length_range] at bound
  exact Nat.le_trans bound ready.accepted.size_transitions_le

/-- The transitions of a state follow each other. -/
theorem getElem?_transitions {place : Nat} {id : StateId}
    (here : graph.order[place]? = some id) {offset : Nat}
    (inside : offset < (graph.localTransitions id).length) :
    (graph.sections actions guards).transitions[graph.transitionsBefore place + offset]? =
      ((graph.localTransitions id)[offset]?).map graph.transitionRecord := by
  rw [← Array.getElem?_toList] at here
  have run := getElem?_flatMap graph.localTransitions here inside
  rw [← run, ← List.getElem?_map]
  show (List.map graph.transitionRecord _).toArray[_]? = _
  rw [List.getElem?_toArray]
  rfl

theorem mem_transitions_iff (ready : graph.Ready) {place index : Nat} {id : StateId}
    (here : graph.order[place]? = some id) (regions : Nat) :
    index ∈ (graph.stateRecord id (graph.transitionsBefore place) regions).transitions.toList ↔
      graph.transitionsBefore place ≤ index ∧
        index < graph.transitionsBefore place + (graph.localTransitions id).length := by
  have few := ready.length_localTransitions_le
  rw [← Array.getElem?_toList] at here
  have bound := length_flatMap_take_le graph.localTransitions here
  simp only [maxTransitions] at few
  have start : (graph.stateRecord id (graph.transitionsBefore place) regions).transitionStart =
      if (graph.localTransitions id).length = 0 then noIndex
      else UInt16.ofNat (graph.transitionsBefore place) := by
    rw [length_localTransitions]
    rfl
  have count : (graph.stateRecord id (graph.transitionsBefore place) regions).transitionCount =
      UInt16.ofNat (graph.localTransitions id).length := by
    rw [length_localTransitions]
    rfl
  have fits : graph.transitionsBefore place + (graph.localTransitions id).length ≤ 65536 := by
    rw [transitionsBefore]
    omega
  rw [StateRecord.transitions, start, count, toList_ofRun fits (show _ ≤ 65535 by omega),
    List.mem_range'_1]

/-- An accepted transition that is not internal leads to a state other than the root. -/
theorem target_of_wired (ready : graph.Ready) {id : TransitionId}
    (wired : graph.Wired (graph.transition id))
    (outer : (graph.transition id).isInternal = false) :
    (graph.sections actions guards).Has (graph.transitionRecord id).target ∧
      (graph.transitionRecord id).target ≠ rootIndex := by
  cases leads : (graph.transition id).target with
  | none =>
    rw [wired.isInternal_of_none leads] at outer
    cases outer
  | some target =>
    have record : (graph.transitionRecord id).target = graph.indexOf target := by
      show graph.indexOf (targetOf (graph.transition id)) = _
      rw [targetOf, leads, Option.getD_some]
    have inside := wired.target_lt leads
    rw [record]
    refine ⟨ready.has_indexOf actions guards inside, fun root => wired.target_ne leads ?_⟩
    exact ready.indexOf_inj inside (Nat.zero_lt_of_lt inside) (root.trans ready.indexOf_root.symm)

/-- Every transition of a state is accepted. -/
theorem wired_of_mem_local (ready : graph.Ready) {state : StateId} {id : TransitionId}
    (inside : state < graph.stateCount) (listed : id ∈ graph.localTransitions state) :
    graph.Wired (graph.transition id) := by
  obtain ⟨idInside, source, -⟩ := ready.mem_localTransitions.1 listed
  refine ready.accepted.wired idInside (.inr ?_)
  rw [source]
  exact ⟨inside, ready.mem_order_iff.2 inside⟩

/-- Every global transition is accepted. -/
theorem wired_of_mem_globals (ready : graph.Ready) {id : TransitionId}
    (listed : id ∈ graph.globals) : graph.Wired (graph.transition id) := by
  obtain ⟨idInside, isGlobal⟩ := ready.wires.mem_globals.1 listed
  exact ready.accepted.wired idInside (.inl isGlobal)

theorem mem_sections_transitions {transition : TransitionRecord}
    (listed : transition ∈ (graph.sections actions guards).transitions) :
    ∃ state ∈ graph.order, ∃ id ∈ graph.localTransitions state,
      graph.transitionRecord id = transition := by
  have member := List.mem_toArray.1 listed
  obtain ⟨id, inRuns, same⟩ := List.mem_map.1 member
  obtain ⟨state, inOrder, inRun⟩ := List.mem_flatMap.1 inRuns
  exact ⟨state, Array.mem_toList_iff.1 inOrder, id, inRun, same⟩

theorem mem_sections_globals {transition : TransitionRecord}
    (listed : transition ∈ (graph.sections actions guards).globals) :
    ∃ id ∈ graph.globals, graph.transitionRecord id = transition := by
  have member := List.mem_toArray.1 listed
  obtain ⟨id, inTable, same⟩ := List.mem_map.1 member
  rw [byPriority, List.mem_mergeSort, Array.mem_toList_iff] at inTable
  exact ⟨id, inTable, same⟩

/-! ### Well-formedness -/

/-- The index of the parent that a record names. -/
theorem record_parent_eq_iff (ready : graph.Ready) {state other : UInt16} {id parent : StateId}
    (here : graph.order[state.toNat]? = some id)
    (parentHere : graph.order[other.toNat]? = some parent)
    (own : graph.indexOf parent = other) :
    ((graph.sections actions guards).record state).parent = other ↔
      (graph.state id).parent = some parent := by
  rw [record_parent actions guards here, ← own]
  have inside := ready.lt_stateCount parentHere
  cases linked : (graph.state id).parent with
  | none => simpa using fun same => ready.indexOf_ne inside same.symm
  | some above =>
    have aboveInside := lt_stateCount_of_child (ready.links.mem_children.2 linked)
    rw [Option.elim_some, Option.some.injEq]
    exact ⟨ready.indexOf_inj aboveInside inside, congrArg graph.indexOf⟩

/-- What a record that is not the root's says about its parent. -/
theorem exists_parent_record (ready : graph.Ready) {state : UInt16} {id : StateId}
    (here : graph.order[state.toNat]? = some id) (other : state ≠ rootIndex) :
    ∃ parent, (graph.state id).parent = some parent ∧
      ((graph.sections actions guards).record state).parent = graph.indexOf parent ∧
      graph.order[(graph.indexOf parent).toNat]? = some parent ∧
      graph.indexOf parent < state := by
  have later : state.toNat ≠ 0 := fun zero => other (UInt16.toNat_inj.1 zero)
  obtain ⟨earlier, parent, before, above, linked⟩ := ready.exists_parent here later
  have index : (graph.indexOf parent).toNat = earlier := by
    rw [ready.indexOf_eq above, ready.toNat_place above]
  refine ⟨parent, linked, ?_, index.symm ▸ above, ?_⟩
  · rw [record_parent actions guards here, linked, Option.elim_some]
  · rw [UInt16.lt_iff_toNat_lt, index]
    exact before

theorem record_history_slot (ready : graph.Ready) {state : UInt16} {id : StateId}
    (here : graph.order[state.toNat]? = some id) (keeps : (graph.state id).history ≠ .none) :
    ((graph.sections actions guards).record state).historySlot.toNat <
      Tier.tier256.historyCapacity := by
  have inside := ready.lt_stateCount here
  obtain ⟨slot, claimed⟩ := ready.exists_historySlot inside keeps
  have counted := lt_slotCount (Array.mem_of_getElem? here) claimed
  rw [record_eq actions guards here]
  show (((graph.state id).placement.bind Placement.historySlot).getD noIndex).toNat < _
  rw [claimed, Option.getD_some]
  exact Nat.lt_of_lt_of_le counted ready.accepted.capacity_le.2.2

theorem record_timer_slot (ready : graph.Ready) {state : UInt16} {id : StateId}
    (here : graph.order[state.toNat]? = some id) (runs : (graph.state id).timer.isSome = true) :
    ((graph.sections actions guards).record state).timerSlot.toNat <
      Tier.tier256.timerCapacity := by
  have inside := ready.lt_stateCount here
  obtain ⟨slot, claimed⟩ := ready.exists_timerSlot inside runs
  have counted := lt_slotCount (Array.mem_of_getElem? here) claimed
  rw [record_eq actions guards here]
  show (if (graph.state id).timer.isSome then
    ((graph.state id).placement.bind Placement.timerSlot).getD noIndex else noIndex).toNat < _
  rw [if_pos runs, claimed, Option.getD_some]
  exact Nat.lt_of_lt_of_le counted ready.accepted.capacity_le.2.1

/-- A record's children are the records that name it as their parent. -/
theorem record_mem_children (ready : graph.Ready) {state : UInt16} {index : Nat}
    (has : (graph.sections actions guards).Has state) :
    index ∈ ((graph.sections actions guards).record state).children.toList ↔
      index < (graph.sections actions guards).states.size ∧
        ((graph.sections actions guards).record (UInt16.ofNat index)).parent = state := by
  have size : (graph.sections actions guards).states.size = graph.order.size :=
    size_stateRecords
  obtain ⟨id, here, own⟩ := ready.exists_state actions guards has
  rw [record_eq actions guards here, ready.mem_children_iff here,
    ready.mem_places_iff here, size]
  constructor
  · rintro ⟨child, there, linked⟩
    refine ⟨(Array.getElem?_eq_some_iff.1 there).1, ?_⟩
    rw [← ready.toNat_place there] at there
    exact (ready.record_parent_eq_iff actions guards there here own).2 linked
  · rintro ⟨inside, names⟩
    obtain ⟨child, there⟩ : ∃ child, graph.order[index]? = some child :=
      ⟨_, Array.getElem?_eq_getElem inside⟩
    refine ⟨child, there, ?_⟩
    rw [← ready.toNat_place there] at there
    exact (ready.record_parent_eq_iff actions guards there here own).1 names

theorem record_initialChild_eq_iff (ready : graph.Ready) {state : UInt16}
    (has : (graph.sections actions guards).Has state) :
    ((graph.sections actions guards).record state).initialChild = noIndex ↔
      ((graph.sections actions guards).record state).children.toList = [] ∨
        ((graph.sections actions guards).record state).flags.parallel = true := by
  obtain ⟨id, here, -⟩ := ready.exists_state actions guards has
  have inside := ready.lt_stateCount here
  rw [ready.record_initialChild actions guards here, record_eq actions guards here,
    ready.toList_children_eq_nil_iff inside]
  refine Iff.trans ?_ (defaultChild_eq_none_iff id)
  cases enters : graph.defaultChild (graph.state id) with
  | none => simp
  | some child =>
    have linked := ready.links.mem_children.1 (defaultChild_mem enters)
    simpa using ready.indexOf_ne (lt_stateCount_of_parent linked)

theorem record_initialChild_mem (ready : graph.Ready) {state : UInt16}
    (has : (graph.sections actions guards).Has state)
    (enters : ((graph.sections actions guards).record state).initialChild ≠ noIndex) :
    ((graph.sections actions guards).record state).initialChild.toNat ∈
      ((graph.sections actions guards).record state).children.toList := by
  obtain ⟨id, here, -⟩ := ready.exists_state actions guards has
  rw [ready.record_initialChild actions guards here] at enters ⊢
  rw [record_eq actions guards here, ready.mem_children_iff here, ready.mem_places_iff here]
  cases initial : graph.defaultChild (graph.state id) with
  | none =>
    rw [initial] at enters
    exact absurd rfl enters
  | some child =>
    have linked := ready.links.mem_children.1 (defaultChild_mem initial)
    obtain ⟨place, there⟩ := ready.exists_place (lt_stateCount_of_parent linked)
    refine ⟨child, ?_, linked⟩
    rw [Option.elim_some, ready.indexOf_eq there, ready.toNat_place there]
    exact there

theorem record_history (ready : graph.Ready) {state : UInt16}
    (has : (graph.sections actions guards).Has state)
    (keeps : ((graph.sections actions guards).record state).flags.history = true) :
    ((graph.sections actions guards).record state).flags.composite = true ∧
      ((graph.sections actions guards).record state).flags.parallel = false ∧
      ((graph.sections actions guards).record state).historySlot.toNat <
        Tier.tier256.historyCapacity := by
  obtain ⟨id, here, -⟩ := ready.exists_state actions guards has
  have record := record_eq actions guards here
  have marked : (graph.state id).history ≠ .none := by
    rw [record] at keeps
    exact of_decide_eq_true keeps
  obtain ⟨some, single⟩ := ready.accepted.history (Array.mem_of_getElem? here) marked
  refine ⟨?_, ?_, ready.record_history_slot actions guards here marked⟩
  · rw [record]
    show (!(graph.state id).children.isEmpty) = true
    simpa using some
  · rw [record]
    exact single

/-- The transitions of a record start at its state and are not global. -/
theorem record_own (ready : graph.Ready) {state : UInt16} {index : Nat}
    (has : (graph.sections actions guards).Has state)
    (listed : index ∈ ((graph.sections actions guards).record state).transitions.toList) :
    ∃ transition, (graph.sections actions guards).transitions[index]? = some transition ∧
      transition.source = state ∧ transition.flags.isGlobal = false := by
  obtain ⟨id, here, own⟩ := ready.exists_state actions guards has
  rw [record_eq actions guards here] at listed
  obtain ⟨low, high⟩ := (ready.mem_transitions_iff here _).1 listed
  obtain ⟨offset, rfl⟩ := Nat.exists_eq_add_of_le low
  have inside : offset < (graph.localTransitions id).length := Nat.lt_of_add_lt_add_left high
  have written := getElem?_transitions actions guards here inside
  rw [List.getElem?_eq_getElem inside, Option.map_some] at written
  obtain ⟨-, source, isLocal⟩ := ready.mem_localTransitions.1 (List.getElem_mem inside)
  refine ⟨_, written, ?_, isLocal⟩
  show (if _ then noIndex else graph.indexOf _) = state
  rw [isLocal, source]
  exact own

/-- The tables of a ready graph are well-formed. -/
theorem wellFormed (ready : graph.Ready) : (graph.sections actions guards).WellFormed := by
  have found {state : UInt16} (has : (graph.sections actions guards).Has state) :=
    ready.exists_state actions guards has
  have root : graph.order[rootIndex.toNat]? = some rootId := ready.first
  have size : (graph.sections actions guards).states.size = graph.order.size :=
    size_stateRecords
  exact {
    inhabited := by
      rw [size]
      exact (Array.getElem?_eq_some_iff.1 ready.first).1
    size_le := by
      rw [size]
      exact ready.accepted.size_order_le
    parent_root := by
      rw [record_parent actions guards root, ready.links.parent_root]
      rfl
    parent_lt := by
      intro state has other
      obtain ⟨id, here, -⟩ := found has
      obtain ⟨parent, -, record, -, before⟩ := ready.exists_parent_record actions guards here other
      rw [record]
      exact before
    depth_root := by
      apply UInt8.toNat_inj.1
      rw [ready.record_depth actions guards root, ready.depth_root]
      rfl
    depth_succ := by
      intro state has other
      obtain ⟨id, here, -⟩ := found has
      obtain ⟨parent, linked, record, above, -⟩ :=
        ready.exists_parent_record actions guards here other
      rw [record, ready.record_depth actions guards here, ready.record_depth actions guards above]
      exact ready.depth_succ linked
    depth_le := by
      intro state has
      obtain ⟨id, here, -⟩ := found has
      rw [ready.record_depth actions guards here]
      exact ready.depth_le (ready.lt_stateCount here)
    mem_children := ready.record_mem_children actions guards
    composite_iff := by
      intro state has
      obtain ⟨id, here, -⟩ := found has
      rw [record_eq actions guards here, ne_eq,
        ready.toList_children_eq_nil_iff (ready.lt_stateCount here)]
      show (!(graph.state id).children.isEmpty) = true ↔ _
      simp
    initialChild_eq_iff := ready.record_initialChild_eq_iff actions guards
    initialChild_mem := ready.record_initialChild_mem actions guards
    history := ready.record_history actions guards
    timer := by
      intro state has runs
      obtain ⟨id, here, -⟩ := found has
      rw [record_eq actions guards here] at runs
      exact ready.record_timer_slot actions guards here runs
    own := ready.record_own actions guards
    isGlobal := by
      intro transition listed
      obtain ⟨id, inTable, rfl⟩ := mem_sections_globals actions guards listed
      exact (ready.wires.mem_globals.1 inTable).2
    target := by
      rintro transition (listed | listed) outer
      · obtain ⟨state, inOrder, id, inRun, rfl⟩ := mem_sections_transitions actions guards listed
        have inside := ready.mem_order_iff.1 inOrder
        exact ready.target_of_wired actions guards (ready.wired_of_mem_local inside inRun) outer
      · obtain ⟨id, inTable, rfl⟩ := mem_sections_globals actions guards listed
        exact ready.target_of_wired actions guards (ready.wired_of_mem_globals inTable) outer }

end Ready

end Graph

end Statechart.Chart
