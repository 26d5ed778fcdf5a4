/-
# Flat machines

Flattening turns a laid-out graph into the tables of a definition. States follow each
other in index order. Each state's transitions form one run, highest priority first,
transitions of equal priority in the order in which they were added; global
transitions are ordered likewise. Each child of a parallel state is the top of a
region. Actions and guards become hashed ids.

Since an id depends on nothing but its name, the tables are plain functions of the
graph. What can go wrong is collected beforehand: `needs` lists, in the order in which
the tables are written, every state whose placement is asked for and every name that
is given an id. `NameTable.intern` fails on the first name whose id another name has.
-/

import Statechart.Chart.Layout
import Statechart.Metadata
import Statechart.Name.Hash
import Statechart.Rom.Sections
import Statechart.Text.Numeral

namespace Statechart.Chart

open Statechart.Rom

/-- Two names of the same kind have the same id. -/
structure IdCollision where
  first : String
  second : String
  id : UInt16
  deriving DecidableEq, Repr

namespace IdCollision

/-- The error as it is shown to the user. -/
def message (collision : IdCollision) : String :=
  let id := Text.Numeral.id16 collision.id
  s!"`{collision.first}` and `{collision.second}` both hash to id {id}"

end IdCollision

/-- Names that have been given ids, in the order of their first use. -/
structure NameTable where
  names : Array String
  deriving DecidableEq, Repr

namespace NameTable

/-- No names yet. -/
def empty : NameTable := ⟨#[]⟩

/-- Give a name its id, unless another name has it. -/
def intern (table : NameTable) (name : String) : Except IdCollision NameTable :=
  if table.names.contains name then .ok table
  else
    let id := Name.hash16 name
    match table.names.find? (fun other => Name.hash16 other == id) with
    | some first => .error ⟨first, name, id⟩
    | none => .ok ⟨table.names.push name⟩

/-- The ids in the order of first use. -/
def ids (table : NameTable) : Array UInt16 :=
  table.names.map Name.hash16

/-- The names by id. -/
def toMap (table : NameTable) : NameMap :=
  .ofList (table.names.toList.map fun name => (Name.hash16 name, name))

end NameTable

/-- One thing that writing the tables asks for. -/
inductive Need
  /-- The placement of a state. -/
  | placement (state : StateId)
  /-- The id of an action. -/
  | action (name : String)
  /-- The id of a guard. -/
  | guard (name : String)
  deriving DecidableEq, Repr

/-- A graph as tables, with the names behind the ids. -/
structure Flat where
  sections : Sections
  actionNames : NameMap
  guardNames : NameMap

namespace Graph

variable (graph : Graph)

/-- The id of an optional name. -/
def idOf (name : Option String) : UInt16 :=
  name.elim Name.noId Name.hash16

/-- The index of a state, of one without placement zero. -/
def indexOf (id : StateId) : UInt16 :=
  (graph.state id).placement.elim 0 Placement.flatIndex

/-- The depth of a state, of one without placement zero. -/
def depthOf (id : StateId) : Nat :=
  (graph.state id).placement.elim 0 Placement.depth

/-! ### The state that a transition stays below -/

/-- The states from the root down to `id`. -/
def path (id : StateId) : List StateId :=
  (id :: graph.properAncestors id).reverse

/-- The last state of the longest common beginning of two paths, else `default`. -/
def lastCommon (default : StateId) : List StateId → List StateId → StateId
  | first :: firsts, second :: seconds =>
      if first = second then lastCommon first firsts seconds else default
  | _, _ => default

/-- The parent of a state, of the root the root. -/
def parentOrRoot (id : StateId) : StateId :=
  ((graph.state id).parent).getD rootId

/-- The nearest state from `id` up that is the root or not parallel, in at most `steps`
links. -/
def liftParallel : Nat → StateId → StateId
  | 0, id => id
  | steps + 1, id =>
      if id ≠ rootId ∧ (graph.state id).parallel then
        liftParallel steps (graph.parentOrRoot id)
      else id

/-- The state below which a transition exits and enters states: the lowest one above
both ends. If one end contains the other the state moves up a level, so that this end
is left and entered again, and it moves up past parallel states, so that no region is
left half active. -/
def meetingState (source target : StateId) : StateId :=
  let meeting := lastCommon rootId (graph.path source) (graph.path target)
  let proper :=
    if meeting = source ∨ meeting = target then graph.parentOrRoot meeting else meeting
  graph.liftParallel graph.stateCount proper

/-! ### Records -/

/-- Transitions by descending priority, those of equal priority in the given order. -/
def byPriority (transitions : Array TransitionId) : List TransitionId :=
  transitions.toList.mergeSort fun first second =>
    (graph.transition second).priority ≤ (graph.transition first).priority

/-- The state that a transition leads to; without one it stays where it is. -/
def targetOf (transition : TransitionNode) : StateId :=
  transition.target.getD transition.source

/-- States exited plus states entered. A global transition has no source to exit from,
an internal one exits and enters nothing. -/
def cost (transition : TransitionNode) : Nat :=
  let target := targetOf transition
  if transition.isInternal then 0
  else if transition.isGlobal then graph.depthOf target
  else
    let meeting := graph.meetingState transition.source target
    (graph.depthOf transition.source - graph.depthOf meeting) +
      (graph.depthOf target - graph.depthOf meeting)

/-- The id of the event that a transition waits for. -/
def triggerId : Trigger → UInt16
  | .event name => (graph.event? name).elim Name.noId EventDecl.id
  | .completion => Event.completionId
  | .timer => Event.timerId

/-- The record of a transition. -/
def transitionRecord (id : TransitionId) : TransitionRecord :=
  let transition := graph.transition id
  { source := if transition.isGlobal then noIndex else graph.indexOf transition.source
    target := graph.indexOf (targetOf transition)
    event := graph.triggerId transition.trigger
    syncGroup := transition.syncGroup
    guard := idOf transition.guard
    action := idOf transition.action
    flags := { TransitionFlags.none with
      isInternal := transition.isInternal
      isGlobal := transition.isGlobal }
    priority := transition.priority
    cost := UInt16.ofNat (graph.cost transition) }

/-- The transitions of a state, in the order in which they are written. -/
def localTransitions (id : StateId) : List TransitionId :=
  graph.byPriority (graph.state id).transitions

/-- Whether a state has regions. -/
def hasRegions (id : StateId) : Bool :=
  (graph.state id).parallel && (graph.state id).isComposite

/-- How many states there are from `id` down, `id` included, within `steps` levels. -/
def subtreeSize : Nat → StateId → Nat
  | 0, _ => 1
  | steps + 1, id =>
      (graph.state id).children.foldl (fun size child => size + subtreeSize steps child) 1

/-- The records of the regions of one state. -/
def regionRecords (id : StateId) : List RegionRecord :=
  if graph.hasRegions id then
    (graph.state id).children.toList.zipIdx.map fun (child, index) =>
      { owner := graph.indexOf id
        root := graph.indexOf child
        index := UInt16.ofNat index
        stateCount := UInt16.ofNat (graph.subtreeSize graph.stateCount child) }
  else []

/-- Whether a state is the one that its parent enters by default. -/
def isDefaultChild (id : StateId) : Bool :=
  match (graph.state id).parent.bind fun parent => (graph.state parent).placement with
  | some placement => placement.initialChild == some id
  | none => false

/-- The flags of a state. -/
def stateFlags (id : StateId) : StateFlags :=
  let node := graph.state id
  { StateFlags.none with
    composite := node.isComposite
    parallel := node.parallel
    history := node.history ≠ .none
    deepHistory := node.history = .deep
    initial := node.initial || graph.isDefaultChild id
    hasTimer := node.timer.isSome }

/-- The record of a state whose transitions and regions are written at these places. -/
def stateRecord (id : StateId) (transitionStart regionStart : Nat) : StateRecord :=
  let node := graph.state id
  let placement := node.placement
  let linked (other : Option StateId) : UInt16 := other.elim noIndex graph.indexOf
  let transitionCount := node.transitions.size
  { parent := linked node.parent
    firstChild := linked node.children[0]?
    childCount := UInt16.ofNat node.children.size
    transitionStart := if transitionCount = 0 then noIndex else UInt16.ofNat transitionStart
    transitionCount := UInt16.ofNat transitionCount
    depth := UInt8.ofNat (graph.depthOf id)
    regionCount := if graph.hasRegions id then UInt8.ofNat node.children.size else 0
    entryAction := idOf node.entry
    exitAction := idOf node.exit
    activityAction := idOf node.activity
    flags := graph.stateFlags id
    outputLanes := node.outputLanes
    historySlot := (placement.bind Placement.historySlot).getD noIndex
    timerSlot :=
      if node.timer.isSome then (placement.bind Placement.timerSlot).getD noIndex else noIndex
    regionStart := if graph.hasRegions id then UInt16.ofNat regionStart else noIndex
    initialChild := linked (placement.bind Placement.initialChild)
    timerAction := idOf (node.timer.bind TimerSpec.action)
    timerMs := node.timer.elim 0 TimerSpec.durationMs }

/-- State records written so far, and how many transitions and regions go with them. -/
structure StateTable where
  records : Array StateRecord
  transitionCount : Nat
  regionCount : Nat

/-- Write the record of the next state. -/
def appendState (table : StateTable) (id : StateId) : StateTable where
  records := table.records.push
    (graph.stateRecord id table.transitionCount table.regionCount)
  transitionCount := table.transitionCount + (graph.state id).transitions.size
  regionCount := table.regionCount +
    if graph.hasRegions id then (graph.state id).children.size else 0

/-- The records of all states in index order. -/
def stateRecords : Array StateRecord :=
  (graph.order.foldl graph.appendState ⟨#[], 0, 0⟩).records

/-- The record of an event declaration. -/
def eventRecord (decl : EventDecl) : EventRecord where
  id := decl.id
  flags := { deferred := decl.deferred, byReference := decl.byReference }
  priority := decl.priority

/-! ### What the tables ask for -/

/-- What an optional name asks for. -/
def needName (need : String → Need) (name : Option String) : List Need :=
  (name.map need).toList

/-- What a transition's record asks for. -/
def transitionNeeds (id : TransitionId) : List Need :=
  let transition := graph.transition id
  let target := targetOf transition
  let source := if transition.isGlobal then [] else [Need.placement transition.source]
  let meeting :=
    if transition.isInternal || transition.isGlobal then []
    else [Need.placement (graph.meetingState transition.source target)]
  source ++ [Need.placement target] ++ needName Need.guard transition.guard ++
    needName Need.action transition.action ++ meeting

/-- What the regions of a state ask for. -/
def regionNeeds (id : StateId) : List Need :=
  if graph.hasRegions id then
    (graph.state id).children.toList.flatMap fun child =>
      [Need.placement id, Need.placement child]
  else []

/-- What a state's record and those of its transitions ask for. -/
def stateNeeds (id : StateId) : List Need :=
  let node := graph.state id
  let linked (other : Option StateId) : List Need := (other.map Need.placement).toList
  [Need.placement id] ++ linked node.parent ++ needName Need.action node.entry ++
    needName Need.action node.exit ++ needName Need.action node.activity ++
    linked (node.placement.bind Placement.initialChild) ++ linked node.children[0]? ++
    needName Need.action (node.timer.bind TimerSpec.action) ++
    (graph.localTransitions id).flatMap graph.transitionNeeds

/-- Everything the tables ask for, in the order in which they are written. -/
def needs : List Need :=
  let order := graph.order.toList
  order.flatMap graph.regionNeeds ++ order.flatMap graph.stateNeeds ++
    (graph.byPriority graph.globals).flatMap graph.transitionNeeds

/-- The name tables after what `needs` asks for. -/
def satisfy (actions guards : NameTable) :
    List Need → Except Fault (Except IdCollision (NameTable × NameTable))
  | [] => .ok (.ok (actions, guards))
  | .placement id :: needs =>
      match (graph.state id).place with
      | .ok _ => satisfy actions guards needs
      | .error fault => .error fault
  | .action name :: needs =>
      match actions.intern name with
      | .ok actions => satisfy actions guards needs
      | .error collision => .ok (.error collision)
  | .guard name :: needs =>
      match guards.intern name with
      | .ok guards => satisfy actions guards needs
      | .error collision => .ok (.error collision)

/-- The tables of a graph, given its names. -/
def sections (actions guards : NameTable) : Sections where
  states := graph.stateRecords
  transitions :=
    ((graph.order.toList.flatMap graph.localTransitions).map graph.transitionRecord).toArray
  regions := (graph.order.toList.flatMap graph.regionRecords).toArray
  globals := ((graph.byPriority graph.globals).map graph.transitionRecord).toArray
  events := graph.events.map eventRecord
  actions := actions.ids
  guards := guards.ids

/-- The graph as tables. -/
def flatten : Except Fault (Except IdCollision Flat) := do
  match ← graph.satisfy .empty .empty graph.needs with
  | .error collision => return .error collision
  | .ok (actions, guards) =>
    return .ok {
      sections := graph.sections actions guards
      actionNames := actions.toMap
      guardNames := guards.toMap }

end Graph

end Statechart.Chart
