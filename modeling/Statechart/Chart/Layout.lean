/-
# Layout

Laying out a graph numbers its states breadth-first from the root, so that a parent
comes before its children and children follow each other. It also works out each
state's depth and default child, and hands out history and timer slots.

A child whose parent link names another state is not part of the tree; neither is
anything below it. States outside the tree have no placement.

A slot that a state asks for is given to it. The remaining states get the smallest
numbers that nobody asked for, in the order of their stable identities.
-/

import Statechart.Chart.Graph

namespace Statechart.Chart

namespace Graph

/-- States found so far in breadth-first order, and which ones they are. -/
structure Frontier where
  order : Array StateId
  seen : Array Bool

/-- Append those of `children` that name `id` as their parent and are new. -/
def adopt (graph : Graph) (id : StateId) (children : Array StateId) (frontier : Frontier) :
    Frontier :=
  children.foldl
    (fun frontier child =>
      if (graph.state child).parent = some id ∧ frontier.seen.getD child true = false then
        { order := frontier.order.push child, seen := frontier.seen.set! child true }
      else frontier)
    frontier

/-- Visit the states of the frontier from place `next` on, adopting their children
behind it, for at most `steps` states. -/
def visit (graph : Graph) : Nat → Nat → Frontier → Frontier
  | 0, _, frontier => frontier
  | steps + 1, next, frontier =>
      match frontier.order[next]? with
      | none => frontier
      | some id =>
          visit graph steps (next + 1) (graph.adopt id (graph.state id).children frontier)

/-- The states of the tree in breadth-first order. -/
def breadthFirst (graph : Graph) : Array StateId :=
  let start : Frontier :=
    { order := #[rootId]
      seen := (Array.replicate graph.stateCount false).set! rootId true }
  (graph.visit graph.stateCount 0 start).order

/-- How deep each state lies, by id. Depths beyond 255 count as 255. -/
def depths (graph : Graph) (order : Array StateId) : Array Nat :=
  order.foldl
    (fun depths id =>
      match (graph.state id).parent with
      | some parent =>
          if id = rootId then depths
          else depths.set! id (min (depths.getD parent 0 + 1) 255)
      | none => depths)
    (Array.replicate graph.stateCount 0)

/-- The child that a composite enters by default: the one marked initial, else the
first. A parallel state enters all its children and has none. -/
def defaultChild (graph : Graph) (node : StateNode) : Option StateId :=
  if node.parallel then none
  else
    match node.children.find? (fun child => (graph.state child).initial) with
    | some child => some child
    | none => node.children[0]?

end Graph

/-- One state's wish for a slot. -/
structure SlotClaim where
  state : StateId
  stableId : UInt32
  /-- The slot that the state asks for. -/
  explicit : Option UInt16
  deriving DecidableEq, Repr

namespace SlotClaim

/-- The order in which slots are handed out: by stable identity, then by creation. -/
def precedes (first second : SlotClaim) : Bool :=
  first.stableId < second.stableId ||
    (first.stableId == second.stableId && first.state ≤ second.state)

/-- The `count` smallest numbers that are not taken. -/
def freeSlots (taken : List UInt16) (count : Nat) : List Nat :=
  ((List.range (count + taken.length)).filter
    (fun slot => !taken.contains (UInt16.ofNat slot))).take count

/-- Who gets which slot. -/
def assign (claims : List SlotClaim) : List (StateId × UInt16) :=
  let explicit := claims.filterMap fun claim => claim.explicit.map (claim.state, ·)
  let pending := (claims.filter fun claim => claim.explicit.isNone).mergeSort precedes
  let free := freeSlots (explicit.map Prod.snd) pending.length
  explicit ++ (pending.map SlotClaim.state).zip (free.map UInt16.ofNat)

end SlotClaim

namespace Graph

/-- The wishes for history slots, in breadth-first order. -/
def historyClaims (graph : Graph) (order : Array StateId) : List SlotClaim :=
  order.toList.filterMap fun id =>
    let node := graph.state id
    if node.history = .none then none else some ⟨id, node.stableId, node.historySlot⟩

/-- The wishes for timer slots, in breadth-first order. -/
def timerClaims (graph : Graph) (order : Array StateId) : List SlotClaim :=
  order.toList.filterMap fun id =>
    let node := graph.state id
    node.timer.map fun timer => ⟨id, node.stableId, timer.slot⟩

/-- The slots of `assigned` by state id. -/
def slotTable (graph : Graph) (assigned : List (StateId × UInt16)) : Array (Option UInt16) :=
  assigned.foldl (fun table entry => table.set! entry.1 (some entry.2))
    (Array.replicate graph.stateCount none)

/-- The placement of every state by id, for states in this order. -/
def placements (graph : Graph) (order : Array StateId) : Array (Option Placement) :=
  let depths := graph.depths order
  let historySlots := graph.slotTable (SlotClaim.assign (graph.historyClaims order))
  let timerSlots := graph.slotTable (SlotClaim.assign (graph.timerClaims order))
  let place (table : Array (Option Placement)) (entry : StateId × Nat) :=
    table.set! entry.1 (some {
      flatIndex := UInt16.ofNat entry.2
      depth := depths.getD entry.1 0
      initialChild := graph.defaultChild (graph.state entry.1)
      historySlot := historySlots.getD entry.1 none
      timerSlot := timerSlots.getD entry.1 none })
  order.toList.zipIdx.foldl place (Array.replicate graph.stateCount none)

/-- The graph with every state of the tree placed and no other one. -/
def layOut (graph : Graph) : Graph :=
  let order := graph.breadthFirst
  let placements := graph.placements order
  { graph with
    states := graph.states.mapIdx fun id node =>
      { node with placement := placements.getD id none }
    order := order }

end Graph

end Statechart.Chart
