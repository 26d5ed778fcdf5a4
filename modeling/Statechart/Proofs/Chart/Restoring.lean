/-
# What is not hashed can be worked out

Some of a machine's tables are part of no hash: the regions, where a state's regions lie
among them, and the ids of actions and guards. For a machine that was written from a graph
nothing is lost by that. `Sections.restore` works these tables out from what is hashed:
regions from parallel states and the sizes of the trees below their children, the ids from
their uses in states and transitions, in the order in which they are written.

The main statement is that two machines with equal hashed streams are equal, blob and all
(`streams_determine`).
-/

import Statechart.Proofs.Chart.Sharing
import Statechart.Proofs.Rom.Streams
import Statechart.Reload.Outcome

namespace Statechart

namespace Rom

namespace StateRecord

/-- Whether a state has regions. -/
def hasRegions (state : StateRecord) : Bool :=
  state.flags.parallel && state.flags.composite

/-- How many regions a state has. -/
def regionTotal (state : StateRecord) : Nat :=
  if state.hasRegions then state.childCount.toNat else 0

/-- The record of a state whose regions are written at this place. -/
def withRegions (state : StateRecord) (start : Nat) : StateRecord :=
  { state with
    regionCount := UInt8.ofNat state.regionTotal
    regionStart := if state.hasRegions then UInt16.ofNat start else noIndex }

/-- The actions of a state, in the order in which they are written. -/
def ownActions (state : StateRecord) : List UInt16 :=
  [state.entryAction, state.exitAction, state.activityAction, state.timerAction]

end StateRecord

namespace Sections

/-- Some states with their regions, given how many regions come before. -/
def restoreStates : Nat → List StateRecord → List StateRecord
  | _, [] => []
  | regions, state :: rest =>
      state.withRegions regions :: restoreStates (regions + state.regionTotal) rest

/-- How many states there are from an index down, within `steps` levels. -/
def treeSize (states : Array StateRecord) : Nat → Nat → Nat
  | 0, _ => 1
  | steps + 1, index =>
      (states.getD index .blank).children.toList.foldl
        (fun size child => size + treeSize states steps child) 1

/-- The records of the regions of the state at an index. -/
def regionsAt (states : Array StateRecord) (index : Nat) : List RegionRecord :=
  let state := states.getD index .blank
  if state.hasRegions then
    state.children.toList.zipIdx.map fun (child, place) =>
      { owner := UInt16.ofNat index
        root := UInt16.ofNat child
        index := UInt16.ofNat place
        stateCount := UInt16.ofNat (treeSize states states.size child) }
  else []

/-- The ids that states and their transitions use, in the order in which they are written. -/
def uses (own : StateRecord → List UInt16) (carried : TransitionRecord → UInt16) :
    List StateRecord → List TransitionRecord → List UInt16
  | [], _ => []
  | state :: rest, transitions =>
      own state ++ (transitions.take state.transitionCount.toNat).map carried ++
        uses own carried rest (transitions.drop state.transitionCount.toNat)

/-- Note an id that is used, unless it stands for none or is noted already. -/
def noteUse (table : Array UInt16) (id : UInt16) : Array UInt16 :=
  if id = Name.noId ∨ id ∈ table then table else table.push id

/-- Different ids in the order of their first use. -/
def firstUses (ids : List UInt16) : Array UInt16 :=
  ids.foldl noteUse #[]

/-- The tables of a machine, worked out from those that are hashed. -/
def restore (sections : Sections) : Sections :=
  let states := sections.states.toList
  let transitions := sections.transitions.toList
  let globals := sections.globals.toList
  { sections with
    states := (restoreStates 0 states).toArray
    regions := ((List.range sections.states.size).flatMap (regionsAt sections.states)).toArray
    actions := firstUses (uses StateRecord.ownActions TransitionRecord.action states transitions ++
      globals.map TransitionRecord.action)
    guards := firstUses (uses (fun _ => []) TransitionRecord.guard states transitions ++
      globals.map TransitionRecord.guard) }

/-- An id that stands for none makes no difference. -/
theorem foldl_noteUse_filter (ids : List UInt16) (table : Array UInt16) :
    (ids.filter (· ≠ Name.noId)).foldl noteUse table = ids.foldl noteUse table := by
  rw [List.foldl_filter]
  congr 1
  funext table id
  by_cases none : id = Name.noId
  · simp [noteUse, none]
  · simp [none]

end Sections

end Rom

namespace Chart

open Statechart.Rom

/-! ### Ids -/

/-- The id of the action that is asked for. -/
def Need.actionId? : Need → Option UInt16
  | .action name => some (Name.hash16 name)
  | _ => none

/-- The id of the guard that is asked for. -/
def Need.guardId? : Need → Option UInt16
  | .guard name => some (Name.hash16 name)
  | _ => none

/-- A name that gets its id adds it to the ids. -/
theorem NameTable.ids_intern {table next : NameTable} {name : String}
    (interned : table.intern name = .ok next) :
    next.ids = Sections.noteUse table.ids (Name.hash16 name) := by
  unfold NameTable.intern at interned
  have some := Name.hash16_ne_noId name
  split at interned
  · rename_i known
    cases interned
    have listed : Name.hash16 name ∈ table.ids :=
      Array.mem_map_of_mem (Array.contains_iff_mem.1 known)
    rw [Sections.noteUse, if_pos (.inr listed)]
  · simp only at interned
    split at interned
    · cases interned
    · rename_i unused
      cases interned
      have fresh : Name.hash16 name ∉ table.ids := by
        intro listed
        obtain ⟨other, member, same⟩ := Array.mem_map.1 listed
        have differs := Array.find?_eq_none.1 unused other member
        simp [same] at differs
      rw [Sections.noteUse, if_neg (not_or.2 ⟨some, fresh⟩), ids, Array.map_push]
      rfl

namespace Graph

variable {graph : Graph}

/-- The names that were asked for have their ids noted in the order of their first use. -/
theorem ids_of_satisfy {needs : List Need} {actions guards lastActions lastGuards : NameTable}
    (satisfied : graph.satisfy actions guards needs = .ok (.ok (lastActions, lastGuards))) :
    lastActions.ids = (needs.filterMap Need.actionId?).foldl Sections.noteUse actions.ids ∧
      lastGuards.ids = (needs.filterMap Need.guardId?).foldl Sections.noteUse guards.ids := by
  induction needs generalizing actions guards with
  | nil =>
    cases satisfied
    exact ⟨rfl, rfl⟩
  | cons need rest ih =>
    cases need with
    | placement id =>
      rw [satisfy] at satisfied
      split at satisfied
      · exact ih satisfied
      · cases satisfied
    | action name =>
      rw [satisfy] at satisfied
      split at satisfied
      · next next interned =>
        obtain ⟨actionIds, guardIds⟩ := ih satisfied
        refine ⟨?_, guardIds⟩
        rw [actionIds, NameTable.ids_intern interned]
        rfl
      · cases satisfied
    | guard name =>
      rw [satisfy] at satisfied
      split at satisfied
      · next next interned =>
        obtain ⟨actionIds, guardIds⟩ := ih satisfied
        refine ⟨actionIds, ?_⟩
        rw [guardIds, NameTable.ids_intern interned]
        rfl
      · cases satisfied

/-! ### What is picked of what is asked for -/

section Picking

variable {Entry : Type} {pick : Need → Option Entry}

theorem filterMap_needName (need : String → Need) (name : Option String) :
    (needName need name).filterMap pick = (name.bind fun name => pick (need name)).toList := by
  cases name with
  | none => rfl
  | some name => cases picked : pick (need name) <;> simp [needName, picked]

variable (skips : ∀ id, pick (.placement id) = none)
include skips

theorem filterMap_placement (id : StateId) : [Need.placement id].filterMap pick = [] :=
  List.filterMap_cons_none (skips id)

theorem filterMap_placements (ids : Option StateId) :
    (ids.map Need.placement).toList.filterMap pick = [] := by
  cases ids with
  | none => rfl
  | some id => exact filterMap_placement skips id

/-- Who picks no placement picks the names of a transition. -/
theorem filterMap_transitionNeeds (id : TransitionId) :
    (graph.transitionNeeds id).filterMap pick =
      ((graph.transition id).guard.bind fun name => pick (.guard name)).toList ++
        ((graph.transition id).action.bind fun name => pick (.action name)).toList := by
  simp only [transitionNeeds, List.filterMap_append, filterMap_needName]
  split <;> split <;> simp [filterMap_placement skips]

/-- Who picks no placement picks the names of a state and of its transitions. -/
theorem filterMap_stateNeeds (id : StateId) :
    (graph.stateNeeds id).filterMap pick =
      let node := graph.state id
      (node.entry.bind fun name => pick (.action name)).toList ++
        (node.exit.bind fun name => pick (.action name)).toList ++
        (node.activity.bind fun name => pick (.action name)).toList ++
        ((node.timer.bind TimerSpec.action).bind fun name => pick (.action name)).toList ++
        (graph.localTransitions id).flatMap
          fun id => (graph.transitionNeeds id).filterMap pick := by
  simp only [stateNeeds, List.filterMap_append, List.filterMap_flatMap, filterMap_needName,
    filterMap_placement skips, filterMap_placements skips, List.append_nil, List.nil_append]

theorem filterMap_regionNeeds (id : StateId) : (graph.regionNeeds id).filterMap pick = [] := by
  unfold regionNeeds
  split
  · rw [List.filterMap_flatMap]
    refine List.flatMap_eq_nil_iff.2 fun child _ => ?_
    rw [List.filterMap_cons_none (skips id), filterMap_placement skips]
  · rfl

/-- Who picks no placement picks the names of the states in their order, and then those of the
global transitions. -/
theorem filterMap_needs :
    graph.needs.filterMap pick =
      (graph.order.toList.flatMap fun id => (graph.stateNeeds id).filterMap pick) ++
        (graph.byPriority graph.globals).flatMap
          fun id => (graph.transitionNeeds id).filterMap pick := by
  have regions :
      (graph.order.toList.flatMap fun id => (graph.regionNeeds id).filterMap pick) = [] :=
    List.flatMap_eq_nil_iff.2 fun id _ => filterMap_regionNeeds skips id
  simp only [needs, List.filterMap_append, List.filterMap_flatMap, regions, List.nil_append]

end Picking

/-- The id of an action that is asked for. -/
theorem toList_actionId (name : Option String) :
    (name.bind fun name => Need.actionId? (.action name)).toList =
      [idOf name].filter (· ≠ Name.noId) := by
  cases name with
  | none => rfl
  | some name => simp [Need.actionId?, idOf, Name.hash16_ne_noId]

/-- The id of a guard that is asked for. -/
theorem toList_guardId (name : Option String) :
    (name.bind fun name => Need.guardId? (.guard name)).toList =
      [idOf name].filter (· ≠ Name.noId) := by
  cases name with
  | none => rfl
  | some name => simp [Need.guardId?, idOf, Name.hash16_ne_noId]

theorem toList_none {Entry : Type} (name : Option String) :
    (name.bind fun _ => (none : Option Entry)).toList = [] := by
  cases name <;> rfl

/-- What a transition asks for is what its record holds. -/
theorem ids_transitionNeeds (id : TransitionId) :
    (graph.transitionNeeds id).filterMap Need.actionId? =
        [(graph.transitionRecord id).action].filter (· ≠ Name.noId) ∧
      (graph.transitionNeeds id).filterMap Need.guardId? =
        [(graph.transitionRecord id).guard].filter (· ≠ Name.noId) := by
  rw [filterMap_transitionNeeds fun _ => rfl, filterMap_transitionNeeds fun _ => rfl,
    toList_actionId, toList_guardId]
  exact ⟨congrArg (· ++ _) (toList_none _),
    (congrArg (_ ++ ·) (toList_none _)).trans (List.append_nil _)⟩

/-- What a state asks for is what its record and those of its transitions hold. -/
theorem ids_stateNeeds (id : StateId) (transitions regions : Nat) :
    (graph.stateNeeds id).filterMap Need.actionId? =
        ((graph.stateRecord id transitions regions).ownActions ++ (graph.localTransitions id).map
          fun id => (graph.transitionRecord id).action).filter (· ≠ Name.noId) ∧
      (graph.stateNeeds id).filterMap Need.guardId? =
        ((graph.localTransitions id).map
          fun id => (graph.transitionRecord id).guard).filter (· ≠ Name.noId) := by
  rw [filterMap_stateNeeds fun _ => rfl, filterMap_stateNeeds fun _ => rfl]
  constructor
  · simp only [toList_actionId, ids_transitionNeeds]
    rw [← List.filter_append, ← List.filter_append, ← List.filter_append, ← List.filter_flatMap,
      ← List.filter_append, List.map_eq_flatMap]
    rfl
  · simp only [Need.guardId?, toList_none, ids_transitionNeeds, List.nil_append]
    rw [← List.filter_flatMap, List.map_eq_flatMap]

/-- The ids that some states use are those that their records and transitions hold. -/
theorem uses_recordsFrom (own : StateRecord → List UInt16) (given : StateId → List UInt16)
    (carried : TransitionRecord → UInt16)
    (same : ∀ id transitions regions,
      own (graph.stateRecord id transitions regions).hashed = given id)
    {ids : List StateId} (small : ∀ id ∈ ids, (graph.localTransitions id).length ≤ maxStates)
    (transitions regions : Nat) :
    Sections.uses own carried ((graph.recordsFrom ids transitions regions).map StateRecord.hashed)
        ((ids.flatMap graph.localTransitions).map graph.transitionRecord) =
      ids.flatMap fun id => given id ++
        (graph.localTransitions id).map fun id => carried (graph.transitionRecord id) := by
  induction ids generalizing transitions regions with
  | nil => rfl
  | cons id rest ih =>
    have count : ((graph.stateRecord id transitions regions).hashed).transitionCount.toNat =
        ((graph.localTransitions id).map graph.transitionRecord).length := by
      rw [List.length_map, ← toNat_ofNat_of_le (small id (List.mem_cons_self ..)),
        length_localTransitions]
      rfl
    rw [recordsFrom, List.map_cons, Sections.uses, List.flatMap_cons, List.map_append, count,
      List.take_left, List.drop_left,
      ih fun other later => small other (List.mem_cons_of_mem _ later),
      List.flatMap_cons, same, List.map_map]
    rfl

/-- What a graph asks for in the order in which it is written. -/
theorem ids_needs (graph : Graph) :
    graph.needs.filterMap Need.actionId? =
        ((graph.order.toList.flatMap fun id => (graph.stateRecord id 0 0).ownActions ++
            (graph.localTransitions id).map fun id => (graph.transitionRecord id).action) ++
          (graph.byPriority graph.globals).map
            fun id => (graph.transitionRecord id).action).filter (· ≠ Name.noId) ∧
      graph.needs.filterMap Need.guardId? =
        ((graph.order.toList.flatMap fun id => (graph.localTransitions id).map
            fun id => (graph.transitionRecord id).guard) ++
          (graph.byPriority graph.globals).map
            fun id => (graph.transitionRecord id).guard).filter (· ≠ Name.noId) := by
  rw [filterMap_needs fun _ => rfl, filterMap_needs fun _ => rfl]
  simp only [ids_stateNeeds _ 0 0, ids_transitionNeeds, List.map_eq_flatMap, List.filter_append,
    List.filter_flatMap, and_self]

/-- The ids of a flattened graph are those that its tables use. -/
theorem ids_of_flatten (few : (graph.order.toList.flatMap graph.localTransitions).length ≤
      maxTransitions) {actions guards : NameTable}
    (satisfied : graph.satisfy .empty .empty graph.needs = .ok (.ok (actions, guards))) :
    actions.ids = (graph.sections actions guards).hashed.restore.actions ∧
      guards.ids = (graph.sections actions guards).hashed.restore.guards := by
  have small : ∀ id ∈ graph.order.toList, (graph.localTransitions id).length ≤ maxStates := by
    intro id listed
    obtain ⟨place, here⟩ := List.mem_iff_getElem?.1 listed
    have bound := length_flatMap_take_le graph.localTransitions here
    exact Nat.le_trans (Nat.le_trans (Nat.le_add_left _ _) bound) few
  have states : (graph.sections actions guards).hashed.states.toList =
      (graph.recordsFrom graph.order.toList 0 0).map StateRecord.hashed :=
    Array.toList_map.trans (congrArg _ toList_stateRecords)
  have globals (carried : TransitionRecord → UInt16) :
      (graph.sections actions guards).hashed.globals.toList.map carried =
        (graph.byPriority graph.globals).map fun id => carried (graph.transitionRecord id) :=
    List.map_map
  have transitions : (graph.sections actions guards).hashed.transitions.toList =
      (graph.order.toList.flatMap graph.localTransitions).map graph.transitionRecord := rfl
  have actionUses := uses_recordsFrom StateRecord.ownActions
    (fun id => (graph.stateRecord id 0 0).ownActions) TransitionRecord.action (fun _ _ _ => rfl)
    small 0 0
  have guardUses := uses_recordsFrom (fun _ => []) (fun _ => []) TransitionRecord.guard
    (fun _ _ _ => rfl) small 0 0
  simp only [List.nil_append] at guardUses
  have none : NameTable.empty.ids = #[] := Array.map_empty
  obtain ⟨actionNeeds, guardNeeds⟩ := graph.ids_needs
  obtain ⟨actionIds, guardIds⟩ := ids_of_satisfy satisfied
  rw [actionNeeds, Sections.foldl_noteUse_filter, none] at actionIds
  rw [guardNeeds, Sections.foldl_noteUse_filter, none] at guardIds
  simp only [Sections.restore, Sections.firstUses, states, globals, transitions]
  rw [actionIds, guardIds, actionUses, guardUses]
  exact ⟨rfl, rfl⟩

/-! ### Regions -/

namespace Ready

/-- A state has as many regions as its record says. -/
theorem regionTotal_hashed (ready : graph.Ready) {id : StateId} (listed : id ∈ graph.order.toList)
    (transitions regions : Nat) :
    (graph.stateRecord id transitions regions).hashed.regionTotal =
      (graph.regionRecords id).length := by
  obtain ⟨place, here⟩ := List.mem_iff_getElem?.1 listed
  rw [Array.getElem?_toList] at here
  have fits := ready.childrenBefore_add_le here
  have few : graph.order.size ≤ 65535 := ready.accepted.size_order_le
  have count : (UInt16.ofNat (graph.state id).children.size).toNat =
      (graph.state id).children.size := toNat_ofNat_of_le (show _ ≤ 65535 by omega)
  rw [length_regionRecords, ← count]
  rfl

/-- The region fields of a record are those that were worked out. -/
theorem withRegions_hashed (ready : graph.Ready) {id : StateId}
    (listed : id ∈ graph.order.toList) (transitions regions : Nat) :
    (graph.stateRecord id transitions regions).hashed.withRegions regions =
      graph.stateRecord id transitions regions := by
  have total := ready.regionTotal_hashed listed transitions regions
  rw [length_regionRecords] at total
  have count : UInt8.ofNat (graph.stateRecord id transitions regions).hashed.regionTotal =
      (graph.stateRecord id transitions regions).regionCount := by
    rw [total, stateRecord]
    split <;> rfl
  rw [StateRecord.withRegions, count]
  rfl

theorem restoreStates_hashed (ready : graph.Ready) {ids : List StateId}
    (listed : ids ⊆ graph.order.toList) (transitions regions : Nat) :
    Sections.restoreStates regions
        ((graph.recordsFrom ids transitions regions).map StateRecord.hashed) =
      graph.recordsFrom ids transitions regions := by
  induction ids generalizing transitions regions with
  | nil => rfl
  | cons id rest ih =>
    have here := listed (List.mem_cons_self ..)
    rw [recordsFrom, List.map_cons, Sections.restoreStates, ready.withRegions_hashed here,
      ready.regionTotal_hashed here, ih (List.subset_of_cons_subset listed)]

variable (actions guards : NameTable)

theorem hashed_states_getD {place : Nat} {id : StateId} (here : graph.order[place]? = some id) :
    (graph.sections actions guards).hashed.states.getD place .blank =
      (graph.stateRecord id (graph.transitionsBefore place)
        (graph.regionsBefore place)).hashed := by
  rw [Array.getD_eq_getD_getElem?]
  show (((graph.sections actions guards).states.map StateRecord.hashed)[place]?).getD .blank = _
  rw [Array.getElem?_map, getElem?_states actions guards here]
  rfl

theorem toList_children_hashed (ready : graph.Ready) {place : Nat} {id : StateId}
    (here : graph.order[place]? = some id) :
    ((graph.sections actions guards).hashed.states.getD place .blank).children.toList =
      List.range' (graph.childrenBefore place + 1) (graph.state id).children.size := by
  rw [hashed_states_getD actions guards here]
  exact ready.toList_children here (graph.transitionsBefore place) (graph.regionsBefore place)

/-- The places that a record names are those of states. -/
theorem getElem?_of_mem_places (ready : graph.Ready) {place index : Nat} {id : StateId}
    (here : graph.order[place]? = some id)
    (listed : index ∈ List.range' (graph.childrenBefore place + 1)
      (graph.state id).children.size) :
    graph.order[index]? = some (graph.order.getD index rootId) := by
  have fits := ready.childrenBefore_add_le here
  have inside : index < graph.order.size :=
    Nat.lt_of_lt_of_le (List.mem_range'_1.1 listed).2 fits
  rw [Array.getD_eq_getD_getElem?, Array.getElem?_eq_getElem inside, Option.getD_some]

/-- Records tell how large the tree below a state is. -/
theorem treeSize_eq (ready : graph.Ready) (steps : Nat) {place : Nat} {id : StateId}
    (here : graph.order[place]? = some id) :
    Sections.treeSize (graph.sections actions guards).hashed.states steps place =
      graph.subtreeSize steps id := by
  induction steps generalizing place id with
  | zero => rfl
  | succ steps ih =>
    rw [Sections.treeSize, subtreeSize, ready.toList_children_hashed actions guards here,
      ← Array.foldl_toList, ready.toList_children_eq here, List.foldl_map]
    apply List.foldl_ext
    intro size index listed
    rw [ih (ready.getElem?_of_mem_places here listed)]

/-- Records tell the regions of a state. -/
theorem regionsAt_eq (ready : graph.Ready) {place : Nat} {id : StateId}
    (here : graph.order[place]? = some id) :
    Sections.regionsAt (graph.sections actions guards).hashed.states place =
      graph.regionRecords id := by
  have size : (graph.sections actions guards).hashed.states.size = graph.stateCount := by
    rw [← ready.size_order, ← size_stateRecords]
    exact Array.size_map
  have same : ((graph.sections actions guards).hashed.states.getD place .blank).hasRegions =
      graph.hasRegions id := by
    rw [hashed_states_getD actions guards here]
    rfl
  simp only [Sections.regionsAt, same, ready.toList_children_hashed actions guards here, size]
  unfold regionRecords
  by_cases regions : graph.hasRegions id = true
  · rw [if_pos regions, if_pos regions, ready.toList_children_eq here, List.zipIdx_map,
      List.map_map]
    apply List.map_congr_left
    rintro ⟨index, offset⟩ listed
    have there := ready.getElem?_of_mem_places here (List.fst_mem_of_mem_zipIdx listed)
    simp only [Function.comp_apply, Prod.map_apply, id_eq, ready.indexOf_eq here,
      ready.indexOf_eq there, ready.treeSize_eq actions guards _ there]
  · rw [if_neg regions, if_neg regions]

/-- The tables of a flattened graph can be worked out from those that are hashed. -/
theorem restore_hashed (ready : graph.Ready)
    (satisfied : graph.satisfy .empty .empty graph.needs = .ok (.ok (actions, guards))) :
    (graph.sections actions guards).hashed.restore = graph.sections actions guards := by
  obtain ⟨actionIds, guardIds⟩ := ids_of_flatten ready.length_localTransitions_le satisfied
  have states : (graph.sections actions guards).hashed.restore.states =
      (graph.sections actions guards).states := by
    apply Array.toList_inj.1
    show Sections.restoreStates 0 ((graph.stateRecords.map StateRecord.hashed).toList) =
      graph.stateRecords.toList
    rw [Array.toList_map, toList_stateRecords]
    exact ready.restoreStates_hashed (List.Subset.refl _) 0 0
  have here {place : Nat} (listed : place ∈ List.range graph.order.size) :
      graph.order[place]? = some (graph.order.getD place rootId) := by
    rw [Array.getD_eq_getD_getElem?, Array.getElem?_eq_getElem (List.mem_range.1 listed),
      Option.getD_some]
  have places : (List.range graph.order.size).map (fun place => graph.order.getD place rootId) =
      graph.order.toList := by
    apply List.ext_getElem
    · simp
    · intro place inRange _
      have listed : place ∈ List.range graph.order.size := by simpa using inRange
      have found := here listed
      rw [Array.getElem?_eq_getElem (List.mem_range.1 listed)] at found
      simpa using (Option.some.inj found).symm
  have regions : (graph.sections actions guards).hashed.restore.regions =
      (graph.sections actions guards).regions := by
    apply Array.toList_inj.1
    show (List.range ((graph.stateRecords.map StateRecord.hashed).size)).flatMap
      (Sections.regionsAt (graph.sections actions guards).hashed.states) =
        graph.order.toList.flatMap graph.regionRecords
    rw [Array.size_map, size_stateRecords, ← places, List.flatMap_map]
    exact List.flatMap_congr fun place listed => ready.regionsAt_eq actions guards (here listed)
  have both : (graph.sections actions guards).hashed.restore =
      { (graph.sections actions guards).hashed.restore with
        states := (graph.sections actions guards).states
        regions := (graph.sections actions guards).regions
        actions := actions.ids
        guards := guards.ids } := by
    rw [← states, ← regions, actionIds, guardIds]
  exact both

end Ready

/-! ### Machines with equal streams -/

/-- What a drawn graph compiles to is its flattened tables, written and read back. -/
theorem Drawn.exists_flat (drawn : Drawn graph) {compiled : Compiled}
    (compiles : graph.compile = .ok (.ok compiled)) :
    ∃ flat, graph.layOut.flatten = .ok (.ok flat) ∧
      flat.sections.emit = .ok compiled.definition.bytes ∧
      Definition.load compiled.definition.bytes = .ok (.ok compiled.definition) ∧
      compiled.definition.structureHash = flat.sections.structureHash ∧
      compiled.definition.parameterHash = flat.sections.parameterHash ∧
      compiled.definition.sections = flat.sections ∧ flat.sections.Encodable ∧
      flat.sections.hashed.restore = flat.sections := by
  obtain ⟨-, ready, -⟩ := drawn.exists_tables compiles
  have clean := accepted_iff.1 ready.accepted
  rcases satisfy_eq (fun id => ready.placed_of_mem_needs) NameTable.apart_empty
    NameTable.apart_empty with ⟨collision, found⟩ | ⟨actions, guards, found, apart, apartGuards⟩
  · have collided : graph.compile = .ok (.error (.idCollision collision)) := by
      unfold compile compileLaidOut flatten
      simp only [clean, found]
      rfl
    cases compiles.symm.trans collided
  · have flattened : graph.layOut.flatten = .ok (.ok {
        sections := graph.layOut.sections actions guards
        actionNames := actions.toMap
        guardNames := guards.toMap }) := by
      rw [flatten, found]
      rfl
    have encodable := ready.encodable apart apartGuards
    have restored := ready.restore_hashed actions guards found
    have wellFormed := ready.wellFormed actions guards
    obtain ⟨shape, shaped, -⟩ := ready.exists_shape actions guards
    generalize graph.layOut.sections actions guards = sections at *
    have loaded := encodable.load_eq wellFormed.inhabited shaped sections.structureHash
      sections.parameterHash
    have emitted := encodable.encode_eq_ok sections.structureHash sections.parameterHash
    cases compiles.symm.trans (Graph.compileLaidOut_eq clean flattened emitted loaded)
    exact ⟨_, flattened, emitted, loaded, rfl, rfl, rfl, encodable, restored⟩

/-- What a graph compiles to, with no blob written and read back in between. -/
def definition? (graph : Graph) : Option Definition :=
  match graph.layOut.flatten with
  | .ok (.ok flat) =>
      let sections := flat.sections
      let header := sections.headerOf sections.structureHash sections.parameterHash
      match Shape.ofSections sections with
      | .ok shape => some { bytes := header.toBytes ++ sections.body, header, sections, shape }
      | .error _ => none
  | _ => none

/-- The blob tells everything about a definition, so it can be left out. -/
theorem Drawn.definition?_eq (drawn : Drawn graph) {compiled : Compiled}
    (compiles : graph.compile = .ok (.ok compiled)) :
    graph.definition? = some compiled.definition := by
  obtain ⟨flat, flattened, emitted, loaded, -, -, sections, encodable, -⟩ :=
    drawn.exists_flat compiles
  have sound := (drawn.exists_tables compiles).1
  have shaped := sections ▸ sound.shaped
  have written := encodable.encode_eq_ok flat.sections.structureHash flat.sections.parameterHash
  rw [← Except.ok.inj (written.symm.trans emitted),
    encodable.load_eq (sections ▸ sound.wellFormed.inhabited) shaped] at loaded
  simp only [definition?, flattened, shaped]
  exact congrArg some (Except.ok.inj (Except.ok.inj loaded))

/-- Two machines with equal hashed streams are equal. The structure stream tells the topology
and nothing else, and for machines of one topology the parameter stream tells all tables. So a
definition that changes nothing is the definition that was there before, unless a hash has
collided. -/
theorem streams_determine {first second : Graph} {compiled other : Compiled}
    (drawn : Drawn first) (drawnToo : Drawn second)
    (compiles : first.compile = .ok (.ok compiled))
    (compilesToo : second.compile = .ok (.ok other)) :
    ∃ flat flatToo, first.layOut.flatten = .ok (.ok flat) ∧
      second.layOut.flatten = .ok (.ok flatToo) ∧
      flat.sections.emit = .ok compiled.definition.bytes ∧
      flatToo.sections.emit = .ok other.definition.bytes ∧
      (flat.sections.structureStream = flatToo.sections.structureStream ↔
        flat.sections.topology = flatToo.sections.topology) ∧
      (flat.sections.topology = flatToo.sections.topology →
        (flat.sections.parameterStream = flatToo.sections.parameterStream ↔
          flat.sections = flatToo.sections)) ∧
      (flat.sections.structureStream = flatToo.sections.structureStream →
        flat.sections.parameterStream = flatToo.sections.parameterStream →
        flat.sections = flatToo.sections ∧ compiled.definition.bytes = other.definition.bytes) ∧
      (Reload.Outcome.classify (some compiled.definition) other.definition = .noChange →
        (flat.sections.structureHash = flatToo.sections.structureHash →
          flat.sections.structureStream = flatToo.sections.structureStream) →
        (flat.sections.parameterHash = flatToo.sections.parameterHash →
          flat.sections.parameterStream = flatToo.sections.parameterStream) →
        compiled.definition = other.definition) := by
  obtain ⟨flat, flattened, emitted, loaded, structureHash, parameterHash, -, encodable, restored⟩ :=
    drawn.exists_flat compiles
  obtain ⟨flatToo, flattenedToo, emittedToo, loadedToo, structureHashToo, parameterHashToo, -,
    encodableToo, restoredToo⟩ := drawnToo.exists_flat compilesToo
  have structures := Sections.structureStream_eq_iff encodable.states encodableToo.states
  have tables (topology : flat.sections.topology = flatToo.sections.topology)
      (parameters : flat.sections.parameterStream = flatToo.sections.parameterStream) :
      flat.sections = flatToo.sections := by
    rw [← restored, encodable.hashed_eq encodableToo topology parameters, restoredToo]
  have blobs (same : flat.sections = flatToo.sections) :
      compiled.definition.bytes = other.definition.bytes := by
    rw [same, emittedToo] at emitted
    exact (Except.ok.inj emitted).symm
  refine ⟨flat, flatToo, flattened, flattenedToo, emitted, emittedToo, structures, ?_, ?_, ?_⟩
  · intro topology
    exact ⟨tables topology, fun same => by rw [same]⟩
  · intro structureSame parameterSame
    have same := tables (structures.1 structureSame) parameterSame
    exact ⟨same, blobs same⟩
  · intro unchanged structureTold parameterTold
    obtain ⟨structureSame, parameterSame⟩ : compiled.definition.structureHash =
        other.definition.structureHash ∧
          compiled.definition.parameterHash = other.definition.parameterHash := by
      unfold Reload.Outcome.classify at unchanged
      grind
    rw [structureHash, structureHashToo] at structureSame
    rw [parameterHash, parameterHashToo] at parameterSame
    have same := blobs (tables (structures.1 (structureTold structureSame))
      (parameterTold parameterSame))
    rw [same, loadedToo] at loaded
    exact (Except.ok.inj (Except.ok.inj loaded)).symm

/-- The clock, with another name for its state. -/
def renamedClock : Graph :=
  clock.modifyState 1 fun node => { node with name := "B" }

theorem drawn_renamedClock : Drawn renamedClock :=
  .configure 1 drawn_clock (fun _ => rfl) (fun _ => rfl) (fun _ => rfl)

theorem exists_compiled_renamedClock :
    ∃ compiled, renamedClock.compile = .ok (.ok compiled) :=
  drawn_renamedClock.exists_compiled (by decide +kernel) (by decide +kernel)

theorem streams_determine_clock :
    ∃ compiled other, clock.compile = .ok (.ok compiled) ∧
      renamedClock.compile = .ok (.ok other) ∧
      compiled.definition.bytes = other.definition.bytes := by
  obtain ⟨compiled, compiles⟩ := exists_compiled_clock
  obtain ⟨other, compilesToo⟩ := exists_compiled_renamedClock
  obtain ⟨flat, flatToo, flattened, flattenedToo, -, -, -, -, determined, -⟩ :=
    streams_determine drawn_clock drawn_renamedClock compiles compilesToo
  have streams :
      (clock.layOut.flatten.toOption.bind Except.toOption).map (fun flat =>
          (flat.sections.structureStream, flat.sections.parameterStream)) =
        (renamedClock.layOut.flatten.toOption.bind Except.toOption).map (fun flat =>
          (flat.sections.structureStream, flat.sections.parameterStream)) := by
    decide +kernel
  rw [flattened, flattenedToo] at streams
  obtain ⟨structures, parameters⟩ := Prod.mk.inj (Option.some.inj streams)
  exact ⟨compiled, other, compiles, compilesToo, (determined structures parameters).2⟩

end Graph

end Chart

end Statechart
