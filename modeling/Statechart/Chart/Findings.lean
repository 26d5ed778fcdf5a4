/-
# Findings

What is wrong with a graph that has been laid out. Nine families of rules are checked
one after the other: that there is a state at all, that parent links form a tree, that
states, limits, transitions and events are in order, that stable identities are
unique, that no two states that can be active together share a slot, and that the
largest tier has room for the machine.

Rules about states look at the states of the tree only. A state outside the tree is
reported once: as a member of a circle of parents, by the circle's earliest member, or
as an orphan if its parents end somewhere. A state whose parents run into a circle is
not reported, since the circle is.
-/

import Statechart.Chart.Diagnostic
import Statechart.Chart.Layout
import Statechart.Rom.Index
import Statechart.Tier

namespace Statechart.Chart.Graph

variable (graph : Graph)

/-- The name of a state. -/
def nameOf (id : StateId) : String :=
  (graph.state id).name

/-- Whether each state is part of the tree, by id. -/
def inTree : Array Bool :=
  graph.order.foldl (fun marks id => marks.set! id true)
    (Array.replicate graph.stateCount false)

/-! ### The tree -/

/-- A machine needs a state besides its root. -/
def rootFindings : Diagnostics :=
  if (graph.state rootId).children.isEmpty then [.report .missingRoot none none] else []

/-- The circle of parents through `id` that continues `chain` (latest state first) with
`next`, found within `steps` further links. -/
def cycleFrom (id : StateId) : Nat → List StateId → Option StateId → Option (List StateId)
  | 0, _, _ => none
  | _ + 1, _, none => none
  | steps + 1, chain, some next =>
      if next = id then some chain.reverse
      else if chain.contains next then none
      else cycleFrom id steps (next :: chain) (graph.state next).parent

/-- The circle of parents that a state lies on, beginning with the state. -/
def cycleThrough (id : StateId) : Option (List StateId) :=
  graph.cycleFrom id (graph.stateCount + 1) [id] (graph.state id).parent

/-- Whether the parents from `next` on come back to one of `seen`. -/
def entersCycleFrom : Nat → List StateId → Option StateId → Bool
  | 0, _, _ => true
  | _ + 1, _, none => false
  | steps + 1, seen, some next =>
      seen.contains next || entersCycleFrom steps (next :: seen) (graph.state next).parent

/-- Whether the parents of a state run into a circle. -/
def entersCycle (id : StateId) : Bool :=
  graph.entersCycleFrom (graph.stateCount + 1) [id] (graph.state id).parent

/-- What is wrong with a state that is not part of the tree. -/
def strayFindings (id : StateId) : Diagnostics :=
  match graph.cycleThrough id with
  | some cycle =>
      if cycle.all (fun member => id ≤ member) then
        let members := " -> ".intercalate (cycle.map graph.nameOf)
        [.report .parentCycle (some members) (some (graph.nameOf id))]
      else []
  | none =>
      if graph.entersCycle id then []
      else [.report .orphanState none (some (graph.nameOf id))]

/-- Every state but the root hangs from the root. -/
def treeFindings : Diagnostics :=
  let inTree := graph.inTree
  (List.range graph.stateCount).flatMap fun id =>
    if id = rootId ∨ inTree.getD id false then [] else graph.strayFindings id

/-! ### States -/

/-- An action has to be registered. -/
def actionFindings (place : String) (action : Option String) : Diagnostics :=
  match action with
  | some name =>
      if graph.actions.contains name then []
      else [.report .unregisteredAction (some name) (some place)]
  | none => []

/-- What is wrong with one state of the tree. -/
def stateFindings (id : StateId) : Diagnostics :=
  let node := graph.state id
  let about (kind : DiagnosticKind) (detail : Option String) : Diagnostic :=
    .report kind detail (some node.name)
  let initials := (node.children.filter fun child => (graph.state child).initial).size
  let initialFindings :=
    if !node.parallel && 1 < initials then
      [about .multipleInitialStates (some s!"{initials} children marked initial")]
    else []
  let historyFindings :=
    if node.history = .none then []
    else if node.children.isEmpty then [about .historyNotComposite none]
    else if node.parallel then [about .historyOnParallel none]
    else []
  let actions := [node.entry, node.exit, node.activity, node.timer.bind TimerSpec.action]
  let timerFindings :=
    match node.timer with
    | some timer => if timer.durationMs = 0 then [about .zeroTimerDuration none] else []
    | none => []
  initialFindings ++ historyFindings ++ actions.flatMap (graph.actionFindings node.name) ++
    timerFindings

/-- The largest of the pairs of depth and id, depth first. -/
def deeper (first second : Nat × StateId) : Nat × StateId :=
  if first.1 < second.1 ∨ (first.1 = second.1 ∧ first.2 < second.2) then second else first

/-- The depth and id of the deepest state, of several the one created last. -/
def deepest? : Option (Nat × StateId) :=
  graph.order.foldl
    (fun best id =>
      match (graph.state id).placement with
      | some placement =>
          some (best.elim (placement.depth, id) fun best => deeper best (placement.depth, id))
      | none => best)
    none

/-- Counts and nesting depth have limits. -/
def limitFindings : Diagnostics :=
  let states := graph.order.size
  let stateLimit :=
    if Rom.maxStates < states then
      [.report .tooManyStates (some s!"{states} (max {Rom.maxStates})") none]
    else []
  let transitions := graph.transitions.size
  let transitionLimit :=
    if Rom.maxTransitions < transitions then
      [.report .tooManyTransitions (some s!"{transitions} (max {Rom.maxTransitions})") none]
    else []
  let depthLimit :=
    match graph.deepest? with
    | some (depth, id) =>
        if Rom.maxDepth < depth then
          [.report .depthExceeded (some s!"{depth} levels (max {Rom.maxDepth})")
            (some (graph.nameOf id))]
        else []
    | none => []
  stateLimit ++ transitionLimit ++ depthLimit

/-! ### Transitions and events -/

/-- What is wrong with one transition, reported at `place`. -/
def wiringFindings (inTree : Array Bool) (transition : TransitionNode) (place : String) :
    Diagnostics :=
  let about (kind : DiagnosticKind) (detail : Option String) : Diagnostic :=
    .report kind detail (some place)
  let trigger :=
    match transition.trigger with
    | .event name =>
        if (graph.event? name).isNone then [about .unregisteredEvent (some name)] else []
    | .timer =>
        if !transition.isGlobal && (graph.state transition.source).timer.isNone then
          [about .timerTriggerWithoutTimer none]
        else []
    | .completion => []
  let guard :=
    match transition.guard with
    | some name =>
        if graph.guards.contains name then [] else [about .unregisteredGuard (some name)]
    | none => []
  let priority :=
    if Rom.maxPriority < transition.priority.toNat then
      [about .priorityOutOfRange (some s!"{transition.priority} (max {Rom.maxPriority})")]
    else []
  let target :=
    match transition.target with
    | none => if transition.isInternal then [] else [about .missingTransitionTarget none]
    | some target =>
        if target = rootId then [about .transitionToRoot none]
        else if inTree.getD target false then []
        else
          let name := graph.nameOf target
          [about .missingTransitionTarget (some s!"`{name}` is not in the tree")]
  trigger ++ guard ++ graph.actionFindings place transition.action ++ priority ++ target

/-- Transitions refer to things that exist. Those of states outside the tree are left
alone. -/
def transitionFindings : Diagnostics :=
  let inTree := graph.inTree
  graph.transitions.toList.flatMap fun transition =>
    if transition.isGlobal then
      graph.wiringFindings inTree transition s!"* on {transition.trigger.label}"
    else if inTree.getD transition.source false then
      graph.wiringFindings inTree transition (graph.nameOf transition.source)
    else []

/-- Payloads fit or travel by reference, and what travels by reference is not put off. -/
def eventFindings : Diagnostics :=
  (graph.eventNames.names.zip graph.events).toList.flatMap fun (name, decl) =>
    (if Event.payloadSize < decl.payloadSize.toNat ∧ decl.byReference = false then
      [.report .oversizedInlinePayload (some name) none]
    else []) ++
    (if decl.byReference ∧ decl.deferred then
      [.report .byReferenceDeferred (some s!"event `{name}`") none]
    else [])

/-! ### Identities and slots -/

/-- States in runs of equal key, keys ascending, each run in its given order. -/
def runsByKey (keyed : List (Nat × StateId)) : List (Nat × List StateId) :=
  let sorted := keyed.mergeSort fun first second => first.1 ≤ second.1
  (sorted.splitBy fun first second => first.1 == second.1).filterMap fun run =>
    run.head?.map fun first => (first.1, run.map Prod.snd)

/-- No two states share a stable identity. -/
def stableIdFindings : Diagnostics :=
  let keyed := (graph.order.toList.filter fun id => id ≠ rootId).map fun id =>
    ((graph.state id).stableId.toNat, id)
  (runsByKey keyed).flatMap fun (stableId, owners) =>
    if 1 < owners.length then
      let names := ", ".intercalate (owners.map fun id => "`" ++ graph.nameOf id ++ "`")
      [.report .duplicateStableId (some s!"{stableId} shared by {names}") none]
    else []

/-- Whether two states can be active together: one contains the other, or the lowest
state above both is parallel. -/
def coActive (first second : StateId) : Bool :=
  graph.isAncestorOrSelf first second || graph.isAncestorOrSelf second first ||
    match (graph.properAncestors first).find?
        (fun candidate => graph.isAncestorOrSelf candidate second) with
    | some meeting => (graph.state meeting).parallel
    | none => false

/-- Every pair of list members, in order. -/
def pairs : List StateId → List (StateId × StateId)
  | [] => []
  | first :: rest => rest.map (first, ·) ++ pairs rest

/-- States that can be active together have different slots. -/
def sharedSlotFindings (what : String) (slot : Placement → Option UInt16) : Diagnostics :=
  let keyed := graph.order.toList.filterMap fun id =>
    ((graph.state id).placement.bind slot).map fun slot => (slot.toNat, id)
  (runsByKey keyed).flatMap fun (slot, owners) =>
    (pairs owners).flatMap fun (first, second) =>
      if graph.coActive first second then
        let firstName := graph.nameOf first
        let secondName := graph.nameOf second
        [.report .regionSlotConflict
          (some s!"{what} slot {slot} by `{firstName}` and `{secondName}`") (some secondName)]
      else []

/-- Slots are not shared by states that can be active together. -/
def slotFindings : Diagnostics :=
  graph.sharedSlotFindings "history" Placement.historySlot ++
    graph.sharedSlotFindings "timer" Placement.timerSlot

/-! ### Capacity -/

/-- How many leaves can be active below a state, given the counts of states behind it
in index order. Children without a count are not part of the tree. -/
def leafCount (counts : Array (Option Nat)) (id : StateId) : Nat :=
  let node := graph.state id
  let children := node.children.toList.filterMap fun child => counts.getD child none
  if node.children.isEmpty then 1
  else if node.parallel then children.foldl (· + ·) 0
  else
    match children with
    | [] => 1
    | first :: rest => rest.foldl max first

/-- The most leaves that can be active together. -/
def maxLeaves : Nat :=
  let counts := graph.order.toList.reverse.foldl
    (fun counts id => counts.set! id (some (graph.leafCount counts id)))
    (Array.replicate graph.stateCount none)
  (counts.getD rootId none).getD 0

/-- One more than the largest slot in use. -/
def slotCount (slot : Placement → Option UInt16) : Nat :=
  graph.order.foldl
    (fun count id =>
      match (graph.state id).placement.bind slot with
      | some slot => max count (slot.toNat + 1)
      | none => count)
    0

/-- The largest tier has room for the machine. -/
def capacityFindings : Diagnostics :=
  let tooMany (kind : DiagnosticKind) (needed limit : Nat) : Diagnostics :=
    if limit < needed then [.report kind (some s!"{needed} (max {limit})") none] else []
  tooMany .leafCapacityExceeded graph.maxLeaves Tier.tier256.leafCapacity ++
    tooMany .timerCapacityExceeded (graph.slotCount Placement.timerSlot)
      Tier.tier256.timerCapacity ++
    tooMany .historyCapacityExceeded (graph.slotCount Placement.historySlot)
      Tier.tier256.historyCapacity

/-- Everything that is wrong with a graph that has been laid out. -/
def findings : Diagnostics :=
  graph.rootFindings ++ graph.treeFindings ++
    graph.order.toList.flatMap graph.stateFindings ++ graph.limitFindings ++
    graph.transitionFindings ++ graph.eventFindings ++ graph.stableIdFindings ++
    graph.slotFindings ++ graph.capacityFindings

end Statechart.Chart.Graph
