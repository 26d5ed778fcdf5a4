/-
# Event queues

The smallest tier holds a single event, and only an interrupt may push out an
event of lower priority. The other tiers keep one cell for an interrupt and a ring
for all other events. Interrupts are taken first, then the ring in order of
arrival. An event that finds no room is refused, which the status remembers.

The ring's cursors are bytes of the instance, so a damaged instance can point
anywhere: a cursor within the instance's memory is followed, any other is a fault.
-/

import Statechart.Event.Basic
import Statechart.Instance.Basic

namespace Statechart.Instance

/-- How many events are queued. -/
def queueCount (inst : Instance) : Nat :=
  inst.count.toNat + inst.status.interruptOccupied.toNat

/-- Whether no event is queued. -/
def queueIsEmpty (inst : Instance) : Bool :=
  inst.queueCount == 0

/-- The event in a ring cell. -/
def cellEvent (inst : Instance) (index : UInt8) : Except Fault Event :=
  match inst.cells[index.toNat]? with
  | some cell => .ok (Event.read cell.bytes)
  | none => .error .outOfBounds

/-- Store an event in a ring cell. -/
def setCell (inst : Instance) (index : UInt8) (event : Event) : Except Fault Instance :=
  if index.toNat < inst.cells.length then
    .ok { inst with
      cells := inst.cells.set index.toNat ⟨event.toBytes, event.length_toBytes⟩
      length_cells := by rw [List.length_set, inst.length_cells] }
  else .error .outOfBounds

/-- The event that would be taken next. -/
def peek (inst : Instance) : Except Fault (Option Event) :=
  match inst.interruptCell, inst.status.interruptOccupied with
  | some cell, true => .ok (some (Event.read cell.bytes))
  | _, _ =>
    if inst.count = 0 then .ok none
    else (inst.cellEvent inst.head).map some

/-- Remove the event at the ring's head. A ring that becomes empty starts over at
its first cell. -/
def dropHead (inst : Instance) : Instance :=
  let capacity := UInt8.ofNat inst.tier.ringCapacity
  let remaining := inst.count - 1
  if remaining = 0 then { inst with head := 0, tail := 0, count := 0 }
  else { inst with head := (inst.head + 1) % capacity, count := remaining }

/-- Mark the interrupt cell as empty. -/
def releaseInterrupt (inst : Instance) : Instance :=
  { inst with status := { inst.status with interruptOccupied := false } }

/-- Take the next event out of the queue. -/
def dequeue (inst : Instance) : Except Fault (Option Event × Instance) := do
  match ← inst.peek with
  | none => return (none, inst)
  | some event =>
    if inst.status.interruptOccupied then return (some event, inst.releaseInterrupt)
    else return (some event, inst.dropHead)

/-- Put an event into the only cell there is, unless it is taken. An interrupt takes
the place of an event that is none. -/
def enqueueSingle (inst : Instance) (event : Event) : Except Fault (Bool × Instance) := do
  if inst.count > 0 then
    let occupant ← inst.cellEvent 0
    if event.priority ≠ .interrupt ∨ occupant.priority = .interrupt then
      return (false, inst)
  let filled ← inst.setCell 0 event
  return (true, { filled with count := 1 })

/-- Put an event into the interrupt cell, unless it is taken. -/
def enqueueInterrupt (inst : Instance) (event : Event)
    (hasCell : inst.tier.hasInterruptCell = true) : Bool × Instance :=
  if inst.status.interruptOccupied then (false, inst)
  else
    (true,
      { inst with
        interruptCell := some ⟨event.toBytes, event.length_toBytes⟩
        status := { inst.status with interruptOccupied := true }
        isSome_interruptCell := hasCell.symm })

/-- Put an event at the ring's tail, unless the ring is full. -/
def enqueueRing (inst : Instance) (event : Event) : Except Fault (Bool × Instance) := do
  let capacity := UInt8.ofNat inst.tier.ringCapacity
  if inst.count ≥ capacity then
    return (false, inst)
  let filled ← inst.setCell inst.tail event
  return (true,
    { filled with tail := (inst.tail + 1) % capacity, count := inst.count + 1 })

/-- Queue an event at a priority. The answer says whether there was room; that there
was none is marked in the status. -/
def enqueue (inst : Instance) (event : Event) (priority : Priority) :
    Except Fault (Bool × Instance) := do
  let event := { event with priority }
  let (accepted, after) ←
    if hasCell : inst.tier.hasInterruptCell = true then
      if priority = .interrupt then pure (inst.enqueueInterrupt event hasCell)
      else inst.enqueueRing event
    else inst.enqueueSingle event
  if accepted then return (true, after)
  else return (false, { after with status := { after.status with queueDropped := true } })

/-- Forget every queued event. -/
def clearQueue (inst : Instance) : Instance :=
  { inst.releaseInterrupt with head := 0, tail := 0, count := 0 }

end Statechart.Instance
