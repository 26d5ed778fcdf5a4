/-
# Other names

A graph can be given another name, and so can its states, apart from the root (`renamed`). Nothing
that is worked out about states looks at what they are called: neither the walks along parent links,
nor the layout, nor the tables. So each of these functions is the same for the renamed graph, and
renaming a graph that was laid out is the same as laying out the renamed one (`layOut_renamed`).

Only a state that was not placed is called by its name, in the fault that reports it. What is
flattened without a fault is flattened to the same tables (`flatten_renamed`).
-/

import Statechart.Chart.Flat
import Statechart.Chart.Findings
import Statechart.Proofs.Yields

namespace Statechart.Chart.Graph

variable (graph : Graph) (machine : String) (names : StateId → String)

/-- The graph under another name, with other names for its states. The root keeps its name. -/
def renamed : Graph :=
  { graph with
    name := machine
    states := graph.states.mapIdx fun id node =>
      { node with name := if id = rootId then node.name else names id } }

/-- What a state is called after renaming. -/
def newName (id : StateId) : String :=
  if id = rootId ∨ graph.stateCount ≤ id then graph.nameOf id else names id

@[simp]
theorem stateCount_renamed : (graph.renamed machine names).stateCount = graph.stateCount := by
  simp [stateCount, renamed]

@[simp]
theorem state_renamed (id : StateId) :
    (graph.renamed machine names).state id =
      { graph.state id with name := graph.newName names id } := by
  by_cases inside : id < graph.states.size
  · simp only [state, renamed, newName, nameOf, stateCount, Array.getD_eq_getD_getElem?,
      Array.getElem?_mapIdx, Array.getElem?_eq_getElem inside, Nat.not_le.2 inside, or_false,
      Option.map_some, Option.getD_some]
  · have outside := Nat.le_of_not_lt inside
    simp [state, renamed, newName, nameOf, stateCount, Array.getD_eq_getD_getElem?, inside, outside]

/-! ### Walks -/

@[simp]
theorem climbsTo_renamed : (graph.renamed machine names).climbsTo = graph.climbsTo := by
  funext ancestor steps id
  induction steps generalizing id with
  | zero => rfl
  | succ steps ih => simp only [climbsTo, state_renamed, ih]

@[simp]
theorem climb_renamed : (graph.renamed machine names).climb = graph.climb := by
  funext steps id
  induction steps generalizing id with
  | zero => rfl
  | succ steps ih => simp only [climb, state_renamed, ih]

@[simp]
theorem isAncestorOrSelf_renamed :
    (graph.renamed machine names).isAncestorOrSelf = graph.isAncestorOrSelf := by
  funext ancestor id
  simp only [isAncestorOrSelf, climbsTo_renamed, stateCount_renamed]

@[simp]
theorem properAncestors_renamed :
    (graph.renamed machine names).properAncestors = graph.properAncestors := by
  funext id
  simp only [properAncestors, climb_renamed, stateCount_renamed]

/-! ### Layout -/

@[simp]
theorem adopt_renamed : (graph.renamed machine names).adopt = graph.adopt := by
  funext id children frontier
  simp only [adopt, state_renamed]

@[simp]
theorem visit_renamed : (graph.renamed machine names).visit = graph.visit := by
  funext steps next frontier
  induction steps generalizing next frontier with
  | zero => rfl
  | succ steps ih => simp only [visit, state_renamed, adopt_renamed, ih]

@[simp]
theorem breadthFirst_renamed :
    (graph.renamed machine names).breadthFirst = graph.breadthFirst := by
  simp only [breadthFirst, visit_renamed, stateCount_renamed]

@[simp]
theorem depths_renamed : (graph.renamed machine names).depths = graph.depths := by
  funext order
  simp only [depths, state_renamed, stateCount_renamed]

theorem defaultChild_renamed (node : StateNode) (name : String) :
    (graph.renamed machine names).defaultChild { node with name } = graph.defaultChild node := by
  simp only [defaultChild, state_renamed]

@[simp]
theorem historyClaims_renamed :
    (graph.renamed machine names).historyClaims = graph.historyClaims := by
  funext order
  simp only [historyClaims, state_renamed]

@[simp]
theorem timerClaims_renamed : (graph.renamed machine names).timerClaims = graph.timerClaims := by
  funext order
  simp only [timerClaims, state_renamed]

@[simp]
theorem slotTable_renamed : (graph.renamed machine names).slotTable = graph.slotTable := by
  funext assigned
  simp only [slotTable, stateCount_renamed]

@[simp]
theorem placements_renamed : (graph.renamed machine names).placements = graph.placements := by
  funext order
  simp only [placements, state_renamed, defaultChild_renamed, depths_renamed,
    historyClaims_renamed, timerClaims_renamed, slotTable_renamed, stateCount_renamed]

/-- Laying out and renaming do not get into each other's way. -/
theorem layOut_renamed :
    (graph.renamed machine names).layOut = graph.layOut.renamed machine names := by
  simp only [layOut, breadthFirst_renamed, placements_renamed]
  simp only [renamed, Array.mapIdx_mapIdx, Function.comp_def]

/-! ### Tables -/

@[simp]
theorem indexOf_renamed : (graph.renamed machine names).indexOf = graph.indexOf := by
  funext id
  simp only [indexOf, state_renamed]

@[simp]
theorem depthOf_renamed : (graph.renamed machine names).depthOf = graph.depthOf := by
  funext id
  simp only [depthOf, state_renamed]

@[simp]
theorem path_renamed : (graph.renamed machine names).path = graph.path := by
  funext id
  simp only [path, properAncestors_renamed]

@[simp]
theorem parentOrRoot_renamed :
    (graph.renamed machine names).parentOrRoot = graph.parentOrRoot := by
  funext id
  simp only [parentOrRoot, state_renamed]

@[simp]
theorem liftParallel_renamed :
    (graph.renamed machine names).liftParallel = graph.liftParallel := by
  funext steps id
  induction steps generalizing id with
  | zero => rfl
  | succ steps ih => simp only [liftParallel, state_renamed, parentOrRoot_renamed, ih]

@[simp]
theorem meetingState_renamed :
    (graph.renamed machine names).meetingState = graph.meetingState := by
  funext source target
  simp only [meetingState, path_renamed, parentOrRoot_renamed, liftParallel_renamed,
    stateCount_renamed]

@[simp]
theorem transition_renamed : (graph.renamed machine names).transition = graph.transition := rfl

@[simp]
theorem byPriority_renamed : (graph.renamed machine names).byPriority = graph.byPriority := rfl

@[simp]
theorem cost_renamed : (graph.renamed machine names).cost = graph.cost := by
  funext transition
  simp only [cost, depthOf_renamed, meetingState_renamed]

@[simp]
theorem transitionRecord_renamed :
    (graph.renamed machine names).transitionRecord = graph.transitionRecord := by
  funext id
  simp only [transitionRecord, transition_renamed, indexOf_renamed, cost_renamed]
  rfl

@[simp]
theorem localTransitions_renamed :
    (graph.renamed machine names).localTransitions = graph.localTransitions := by
  funext id
  simp only [localTransitions, byPriority_renamed, state_renamed]

@[simp]
theorem hasRegions_renamed : (graph.renamed machine names).hasRegions = graph.hasRegions := by
  funext id
  simp only [hasRegions, state_renamed, StateNode.isComposite]

@[simp]
theorem subtreeSize_renamed : (graph.renamed machine names).subtreeSize = graph.subtreeSize := by
  funext steps id
  induction steps generalizing id with
  | zero => rfl
  | succ steps ih => simp only [subtreeSize, state_renamed, ih]

@[simp]
theorem regionRecords_renamed :
    (graph.renamed machine names).regionRecords = graph.regionRecords := by
  funext id
  simp only [regionRecords, hasRegions_renamed, state_renamed, indexOf_renamed,
    subtreeSize_renamed, stateCount_renamed]

@[simp]
theorem isDefaultChild_renamed :
    (graph.renamed machine names).isDefaultChild = graph.isDefaultChild := by
  funext id
  simp only [isDefaultChild, state_renamed]

@[simp]
theorem stateFlags_renamed : (graph.renamed machine names).stateFlags = graph.stateFlags := by
  funext id
  simp only [stateFlags, state_renamed, isDefaultChild_renamed, StateNode.isComposite]

@[simp]
theorem stateRecord_renamed : (graph.renamed machine names).stateRecord = graph.stateRecord := by
  funext id transitionStart regionStart
  simp only [stateRecord, state_renamed, indexOf_renamed, depthOf_renamed, hasRegions_renamed,
    stateFlags_renamed]

@[simp]
theorem appendState_renamed : (graph.renamed machine names).appendState = graph.appendState := by
  funext table id
  simp only [appendState, stateRecord_renamed, hasRegions_renamed, state_renamed]

@[simp]
theorem sections_renamed : (graph.renamed machine names).sections = graph.sections := by
  funext actions guards
  simp only [sections, stateRecords, appendState_renamed, localTransitions_renamed,
    transitionRecord_renamed, regionRecords_renamed, byPriority_renamed]
  rfl


/-! ### Needs -/

@[simp]
theorem transitionNeeds_renamed :
    (graph.renamed machine names).transitionNeeds = graph.transitionNeeds := by
  funext id
  simp only [transitionNeeds, transition_renamed, meetingState_renamed]
  rfl

@[simp]
theorem regionNeeds_renamed : (graph.renamed machine names).regionNeeds = graph.regionNeeds := by
  funext id
  simp only [regionNeeds, hasRegions_renamed, state_renamed]

@[simp]
theorem stateNeeds_renamed : (graph.renamed machine names).stateNeeds = graph.stateNeeds := by
  funext id
  simp only [stateNeeds, state_renamed, localTransitions_renamed, transitionNeeds_renamed]

@[simp]
theorem needs_renamed : (graph.renamed machine names).needs = graph.needs := by
  simp only [needs, regionNeeds_renamed, stateNeeds_renamed, byPriority_renamed,
    transitionNeeds_renamed]
  rfl

variable {graph}

/-- What is needed is there under other names, too. -/
theorem satisfy_renamed {needs : List Need} {actions guards : NameTable}
    {outcome : Except IdCollision (NameTable × NameTable)}
    (satisfied : graph.satisfy actions guards needs = .ok outcome) :
    (graph.renamed machine names).satisfy actions guards needs = .ok outcome := by
  induction needs generalizing actions guards with
  | nil => exact satisfied
  | cons need later ih =>
    cases need with
    | placement id =>
      simp only [satisfy, StateNode.place, state_renamed] at satisfied ⊢
      cases placed : (graph.state id).placement with
      | none =>
        rw [placed] at satisfied
        cases satisfied
      | some placement =>
        rw [placed] at satisfied
        exact ih satisfied
    | action name =>
      simp only [satisfy] at satisfied ⊢
      cases interned : actions.intern name with
      | error collision =>
        rw [interned] at satisfied
        exact satisfied
      | ok next =>
        rw [interned] at satisfied
        exact ih satisfied
    | guard name =>
      simp only [satisfy] at satisfied ⊢
      cases interned : guards.intern name with
      | error collision =>
        rw [interned] at satisfied
        exact satisfied
      | ok next =>
        rw [interned] at satisfied
        exact ih satisfied

theorem flatten_renamed {outcome : Except IdCollision Flat}
    (flattened : graph.flatten = .ok outcome) :
    (graph.renamed machine names).flatten = .ok outcome := by
  rw [flatten] at flattened ⊢
  obtain ⟨tables, satisfied, rest⟩ := Yields.exists_of_bind flattened
  rw [needs_renamed, satisfy_renamed machine names satisfied, ok_bind, sections_renamed]
  exact rest

end Statechart.Chart.Graph
