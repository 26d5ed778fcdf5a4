/-
# Nodes of a chart

The parts of a machine that is still being drawn: states with their actions, timers
and history, transitions with their triggers, and declared events. States and
transitions are known by their place in the order of creation; place 0 among the
states is the root.

A state's `placement` is worked out from the whole graph and is missing until the
graph has been laid out.
-/

import Statechart.Event.Basic

namespace Statechart.Chart

/-- A state's place in the order of creation. -/
abbrev StateId := Nat

/-- A transition's place in the order of creation. -/
abbrev TransitionId := Nat

/-- The state from which all others hang. -/
def rootId : StateId := 0

/-- The root's name, which no other state can have. -/
def rootName : String := "<root>"

/-- What a composite state remembers when it is left. -/
inductive HistoryKind
  | none
  /-- The child that was active. -/
  | shallow
  /-- The whole configuration below it. -/
  | deep
  deriving DecidableEq, Repr

namespace HistoryKind

/-- The kind's name in listings. -/
def name : HistoryKind → String
  | none => "None"
  | shallow => "Shallow"
  | deep => "Deep"

end HistoryKind

/-- A timer that is armed when its state is entered. -/
structure TimerSpec where
  durationMs : UInt16
  /-- The action that runs when the time is over. -/
  action : Option String
  /-- The slot to use; without one the layout picks it. -/
  slot : Option UInt16
  deriving DecidableEq, Repr

/-- What the layout of the whole graph says about one state. -/
structure Placement where
  /-- The state's index in the definition. -/
  flatIndex : UInt16
  /-- Levels below the root, at most 255. -/
  depth : Nat
  /-- The child that is entered by default. -/
  initialChild : Option StateId
  historySlot : Option UInt16
  timerSlot : Option UInt16
  deriving DecidableEq, Repr

/-- One state. -/
structure StateNode where
  name : String
  /-- An identity that survives renaming and reordering. -/
  stableId : UInt32
  parent : Option StateId
  children : Array StateId
  transitions : Array TransitionId
  initial : Bool
  parallel : Bool
  history : HistoryKind
  /-- The history slot to use; without one the layout picks it. -/
  historySlot : Option UInt16
  entry : Option String
  exit : Option String
  activity : Option String
  timer : Option TimerSpec
  outputLanes : UInt8
  placement : Option Placement
  deriving DecidableEq, Repr

namespace StateNode

/-- A state with a name and an identity and nothing else. -/
def named (name : String) (stableId : UInt32) : StateNode where
  name := name
  stableId := stableId
  parent := none
  children := #[]
  transitions := #[]
  initial := false
  parallel := false
  history := .none
  historySlot := none
  entry := none
  exit := none
  activity := none
  timer := none
  outputLanes := 0
  placement := none

instance : Inhabited StateNode := ⟨named "" 0⟩

/-- Whether the state has children. -/
def isComposite (node : StateNode) : Bool :=
  !node.children.isEmpty

/-- Give the state a timer, without action or slot. -/
def withTimer (node : StateNode) (durationMs : UInt16) : StateNode :=
  { node with timer := some ⟨durationMs, none, none⟩ }

/-- Give the state's timer an action. A state without a timer is left as it is. -/
def withTimerAction (node : StateNode) (action : String) : StateNode :=
  { node with timer := node.timer.map fun timer => { timer with action := some action } }

/-- Give the state's timer a slot. A state without a timer is left as it is. -/
def withTimerSlot (node : StateNode) (slot : UInt16) : StateNode :=
  { node with timer := node.timer.map fun timer => { timer with slot := some slot } }

/-- The state's placement, which a caller is promised to find. -/
def place (node : StateNode) : Except Fault Placement :=
  match node.placement with
  | some placement => .ok placement
  | none => .error (.notLaidOut node.name)

end StateNode

/-- What a transition waits for. -/
inductive Trigger
  | event (name : String)
  /-- The end of a run-to-completion step. -/
  | completion
  /-- The end of the source state's own timer. -/
  | timer
  deriving DecidableEq, Repr

namespace Trigger

/-- How the trigger is written in findings. -/
def label : Trigger → String
  | event name => name
  | completion => "completion"
  | timer => "timer"

end Trigger

/-- One transition. -/
structure TransitionNode where
  source : StateId
  /-- Missing while the graph is still being wired. -/
  target : Option StateId
  trigger : Trigger
  guard : Option String
  action : Option String
  priority : UInt8
  isInternal : Bool
  syncGroup : UInt16
  /-- Tried before all local transitions, whatever is active. -/
  isGlobal : Bool
  deriving DecidableEq, Repr

namespace TransitionNode

/-- A local transition without guard or action. -/
def plain (source : StateId) (target : Option StateId) (trigger : Trigger) :
    TransitionNode where
  source := source
  target := target
  trigger := trigger
  guard := none
  action := none
  priority := 0
  isInternal := false
  syncGroup := 0
  isGlobal := false

instance : Inhabited TransitionNode := ⟨plain rootId none .completion⟩

end TransitionNode

/-- One declared event. -/
structure EventDecl where
  id : UInt16
  /-- Bytes of inline payload that the event carries. -/
  payloadSize : UInt16
  byReference : Bool
  deferred : Bool
  priority : Priority
  deriving DecidableEq, Repr, Inhabited

end Statechart.Chart
