/-
# Graphs

A graph is a machine that is still being drawn. It owns its states and transitions,
the names of its actions and guards, and its events. Names of states and events are
unique, which is checked when one is added; nothing else is. Whether the tree is
whole, references resolve and limits are kept is found out later, by
`Graph.findings`.
-/

import Statechart.Chart.Node
import Statechart.Name.Roster

namespace Statechart.Chart

open Statechart.Name (Roster)

/-- Why something could not be added to a graph, or was not found in it. -/
inductive GraphError
  | duplicateState (name : String)
  | duplicateEvent (name : String)
  | unknownState (name : String)
  | eventIdsExhausted
  deriving DecidableEq, Repr

namespace GraphError

/-- The error as it is shown to the user. -/
def message : GraphError → String
  | duplicateState name => s!"state `{name}` is already defined"
  | duplicateEvent name => s!"event `{name}` is already declared"
  | unknownState name => s!"unknown state `{name}`"
  | eventIdsExhausted => "too many events: ids are 16-bit"

end GraphError

/-- A machine that is still being drawn. -/
structure Graph where
  name : String
  /-- All states in order of creation, the root first. -/
  states : Array StateNode
  /-- The names of all states but the root, in the same order. -/
  stateNames : Roster
  transitions : Array TransitionNode
  /-- The transitions that belong to no state. -/
  globals : Array TransitionId
  actions : Roster
  guards : Roster
  /-- Declared events; `eventNames` has their names in the same order. -/
  events : Array EventDecl
  eventNames : Roster
  /-- The identity of the next state. -/
  nextStableId : UInt32
  /-- The states in index order, once the graph has been laid out. -/
  order : Array StateId

namespace Graph

/-- A machine that has only its root. -/
def named (name : String) : Graph where
  name := name
  states := #[StateNode.named rootName 0]
  stateNames := .empty
  transitions := #[]
  globals := #[]
  actions := .empty
  guards := .empty
  events := #[]
  eventNames := .empty
  nextStableId := 1
  order := #[]

instance : Inhabited Graph := ⟨named ""⟩

/-- A state. Every id that the graph hands out names one. -/
def state (graph : Graph) (id : StateId) : StateNode :=
  graph.states.getD id default

/-- A transition. Every id that the graph hands out names one. -/
def transition (graph : Graph) (id : TransitionId) : TransitionNode :=
  graph.transitions.getD id default

/-- How many states there are, the root included. -/
def stateCount (graph : Graph) : Nat :=
  graph.states.size

/-- Change one state. -/
def modifyState (graph : Graph) (id : StateId) (change : StateNode → StateNode) : Graph :=
  { graph with states := graph.states.modify id change }

/-- Change one transition. -/
def modifyTransition (graph : Graph) (id : TransitionId)
    (change : TransitionNode → TransitionNode) : Graph :=
  { graph with transitions := graph.transitions.modify id change }

/-- Why a name cannot be that of a new state. -/
def stateProblem? (graph : Graph) (name : String) : Option GraphError :=
  if name = rootName ∨ graph.stateNames.contains name then some (.duplicateState name)
  else none

/-- The graph with a state more that hangs from nothing. -/
def insertDetached (graph : Graph) (name : String) : StateId × Graph :=
  (graph.states.size,
    { graph with
      states := graph.states.push (StateNode.named name graph.nextStableId)
      stateNames := graph.stateNames.insert name
      nextStableId := graph.nextStableId + 1 })

/-- Make `child` the last child of `parent`. -/
def attach (graph : Graph) (child parent : StateId) : Graph :=
  (graph.modifyState child fun node => { node with parent := some parent }).modifyState parent
    fun node => { node with children := node.children.push child }

/-- The graph with a state more below another one. -/
def insertState (graph : Graph) (name : String) (parent : StateId) : StateId × Graph :=
  let (id, graph) := graph.insertDetached name
  (id, graph.attach id parent)

/-- Add a state that hangs from nothing, for a caller that links parents later. -/
def addDetached (graph : Graph) (name : String) : Except GraphError (StateId × Graph) :=
  match graph.stateProblem? name with
  | some problem => .error problem
  | none => .ok (graph.insertDetached name)

/-- Add a state below another one. -/
def addState (graph : Graph) (name : String) (parent : StateId) :
    Except GraphError (StateId × Graph) :=
  match graph.stateProblem? name with
  | some problem => .error problem
  | none => .ok (graph.insertState name parent)

/-- Take a state from its parent's children, if it has a parent, and make it the last
child of `parent`. Nothing else is checked. -/
def reparent (graph : Graph) (id parent : StateId) : Graph :=
  let graph :=
    match (graph.state id).parent with
    | some old =>
        graph.modifyState old fun node =>
          { node with children := node.children.filter (fun child => child != id) }
    | none => graph
  graph.attach id parent

/-- The state with a name. -/
def lookup? (graph : Graph) (name : String) : Option StateId :=
  if name = rootName then some rootId
  else (graph.stateNames.position? name).map (· + 1)

/-- The state with a name, which has to exist. -/
def require (graph : Graph) (name : String) : Except GraphError StateId :=
  match graph.lookup? name with
  | some id => .ok id
  | none => .error (.unknownState name)

/-- Add a transition to a state. -/
def addTransition (graph : Graph) (source : StateId) (target : Option StateId)
    (trigger : Trigger) : TransitionId × Graph :=
  let id := graph.transitions.size
  (id,
    { graph with
      transitions := graph.transitions.push (.plain source target trigger) }.modifyState source
      fun node => { node with transitions := node.transitions.push id })

/-- Add a transition that is tried before those of any state. -/
def addGlobalTransition (graph : Graph) (target : StateId) (trigger : Trigger) :
    TransitionId × Graph :=
  let id := graph.transitions.size
  (id,
    { graph with
      transitions :=
        graph.transitions.push { TransitionNode.plain rootId (some target) trigger with
          isGlobal := true }
      globals := graph.globals.push id })

/-- Make an action known. -/
def registerAction (graph : Graph) (name : String) : Graph :=
  { graph with actions := graph.actions.insert name }

/-- Make a guard known. -/
def registerGuard (graph : Graph) (name : String) : Graph :=
  { graph with guards := graph.guards.insert name }

/-- Why a name cannot be that of a new event. -/
def eventProblem? (graph : Graph) (name : String) : Option GraphError :=
  if graph.eventNames.contains name then some (.duplicateEvent name)
  else if 65536 ≤ graph.events.size + Event.firstUserId then some .eventIdsExhausted
  else none

/-- The graph with an event more. It gets the next free id, whatever `options` says. -/
def insertEvent (graph : Graph) (name : String) (options : EventDecl) : UInt16 × Graph :=
  let id := UInt16.ofNat (graph.events.size + Event.firstUserId)
  (id,
    { graph with
      events := graph.events.push { options with id := id }
      eventNames := graph.eventNames.insert name })

/-- Declare an event. -/
def declareEvent (graph : Graph) (name : String) (options : EventDecl) :
    Except GraphError (UInt16 × Graph) :=
  match graph.eventProblem? name with
  | some problem => .error problem
  | none => .ok (graph.insertEvent name options)

/-- The event with a name. -/
def event? (graph : Graph) (name : String) : Option EventDecl :=
  (graph.eventNames.position? name).bind fun position => graph.events[position]?

/-- Whether `ancestor` is one of the first `steps` states on the way up from `id`. -/
def climbsTo (graph : Graph) (ancestor : StateId) : Nat → StateId → Bool
  | 0, _ => false
  | steps + 1, id =>
      id == ancestor ||
        match (graph.state id).parent with
        | some parent => climbsTo graph ancestor steps parent
        | none => false

/-- Whether `ancestor` is `id` or lies on its parent chain. The walk gives up when it
has met more states than there are. -/
def isAncestorOrSelf (graph : Graph) (ancestor id : StateId) : Bool :=
  graph.climbsTo ancestor (graph.stateCount + 1) id

/-- At most `steps` parents of a state, nearest first. -/
def climb (graph : Graph) : Nat → StateId → List StateId
  | 0, _ => []
  | steps + 1, id =>
      match (graph.state id).parent with
      | some parent => parent :: climb graph steps parent
      | none => []

/-- The states above `id`, nearest first. In a graph whose parent links go in a circle
the list is cut off. -/
def properAncestors (graph : Graph) (id : StateId) : List StateId :=
  graph.climb graph.stateCount id

end Graph

end Statechart.Chart
