/-
# Waiting events

The queue of an instance as the list of the events that wait in it, the next one first: an
interrupt, and then the events of the ring from its head on. `InLine` is what the cursors of
the ring keep to: they lie within the ring, and its tail is where the head gets to by as many
steps as there are events.
-/

import Mathlib.Data.Nat.ModEq
import Statechart.Proofs.Instance.Queue
import Statechart.Proofs.Instance.Slots

namespace Statechart.Instance

/-! ### Rings -/

/-- The event in a cell. -/
def eventIn (cells : List Cell) (place : Nat) : Event :=
  Event.read (cells.getD place (Block.zeros 24)).bytes

/-- The events in `count` cells of a ring, from one place on. -/
def ringEvents (cells : List Cell) (capacity place count : Nat) : List Event :=
  (List.range count).map fun offset => eventIn cells ((place + offset) % capacity)

variable {cells : List Cell} {capacity place count : Nat}

/-- The first event of a ring, and the others. -/
theorem ringEvents_succ (within : place < capacity) :
    ringEvents cells capacity place (count + 1) =
      eventIn cells place :: ringEvents cells capacity ((place + 1) % capacity) count := by
  rw [ringEvents, List.range_succ_eq_map, List.map_cons, List.map_map, Nat.add_zero,
    Nat.mod_eq_of_lt within]
  congr 1
  refine List.map_congr_left fun offset _ => ?_
  show eventIn cells ((place + (offset + 1)) % capacity) = eventIn cells _
  rw [Nat.mod_add_mod, Nat.add_assoc, Nat.add_comm offset 1]

/-- Filling the cell behind the last event of a ring that is not full. -/
theorem ringEvents_set (room : count < capacity) (fits : capacity ≤ cells.length) (event : Event) :
    ringEvents (cells.set ((place + count) % capacity) ⟨event.toBytes, event.length_toBytes⟩)
        capacity place (count + 1) = ringEvents cells capacity place count ++ [event] := by
  have inside : (place + count) % capacity < cells.length :=
    Nat.lt_of_lt_of_le (Nat.mod_lt _ (Nat.zero_lt_of_lt room)) fits
  rw [ringEvents, List.range_succ, List.map_append, List.map_singleton]
  congr 1
  · -- The cells of the events before are other cells.
    refine List.map_congr_left fun offset listed => ?_
    have before := List.mem_range.1 listed
    have apart : (place + count) % capacity ≠ (place + offset) % capacity := by
      intro same
      have together : count ≡ offset [MOD capacity] := Nat.ModEq.add_left_cancel' place same
      have equal := together.eq_of_lt_of_lt room (Nat.lt_trans before room)
      omega
    unfold eventIn
    rw [List.getD_eq_getElem?_getD, List.getD_eq_getElem?_getD, List.getElem?_set_ne apart]
  · unfold eventIn
    rw [List.getD_eq_getElem?_getD, List.getElem?_set_self inside, Option.getD_some,
      Event.read_toBytes]

/-! ### Queues -/

/-- The interrupt that waits, if there is one. -/
def waitingInterrupt (inst : Instance) : List Event :=
  match inst.interruptCell, inst.status.interruptOccupied with
  | some cell, true => [Event.read cell.bytes]
  | _, _ => []

/-- The events in the queue, the next one first. -/
def waiting (inst : Instance) : List Event :=
  inst.waitingInterrupt ++
    ringEvents inst.cells inst.tier.ringCapacity inst.head.toNat inst.count.toNat

/-- Everything that the queue consists of. -/
def queue (inst : Instance) : (Tier × UInt8 × UInt8 × UInt8) × Bool × Option Cell × List Cell :=
  (inst.ring, inst.status.interruptOccupied, inst.interruptCell, inst.cells)

/-- The ring's cursors lie within the ring, its tail is behind its last event, and only
a tier with a cell for interrupts holds one there. -/
structure InLine (inst : Instance) : Prop extends QueueSound inst where
  tail_eq : inst.tail.toNat = (inst.head.toNat + inst.count.toNat) % inst.tier.ringCapacity
  hasCell : inst.status.interruptOccupied = true → inst.tier.hasInterruptCell = true

variable {inst before after : Instance}

/-- Whatever else is written, the same events wait. -/
theorem waiting_congr (same : after.queue = before.queue) : after.waiting = before.waiting := by
  obtain ⟨ring, occupied, interrupt, cells⟩ : after.ring = before.ring ∧
      after.status.interruptOccupied = before.status.interruptOccupied ∧
      after.interruptCell = before.interruptCell ∧ after.cells = before.cells := by
    simpa only [queue, Prod.mk.injEq] using same
  simp only [Instance.ring, Prod.mk.injEq] at ring
  rw [waiting, waiting, waitingInterrupt, waitingInterrupt, occupied, interrupt, cells, ring.1,
    ring.2.1, ring.2.2.2]

/-- No timer has a part in the queue. -/
theorem setTimer_queue {index : Nat} (remaining : UInt32) :
    Yields (inst.setTimer index remaining) fun after => after.queue = inst.queue := by
  apply (setTimer_yields remaining).mono
  rintro after ⟨_, rfl⟩
  rfl

theorem InLine.of_queue_eq (inLine : before.InLine) (same : after.queue = before.queue) :
    after.InLine := by
  have ring : after.ring = before.ring := congrArg Prod.fst same
  have occupied : after.status.interruptOccupied = before.status.interruptOccupied :=
    congrArg (fun queue => queue.2.1) same
  refine ⟨inLine.toQueueSound.of_ring_eq ring, ?_, ?_⟩
  · simp only [Instance.ring, Prod.mk.injEq] at ring
    rw [ring.1, ring.2.1, ring.2.2.1, ring.2.2.2]
    exact inLine.tail_eq
  · rw [occupied, show after.tier = before.tier from congrArg Prod.fst ring]
    exact inLine.hasCell

theorem InLine.fresh (tier : Tier) (machineId seed : UInt32) :
    (Instance.fresh tier machineId seed).InLine where
  head_lt := ringCapacity_pos tier
  tail_lt := ringCapacity_pos tier
  count_le := Nat.zero_le _
  tail_eq := (Nat.zero_mod _).symm
  hasCell := nofun

theorem waiting_fresh (tier : Tier) (machineId seed : UInt32) :
    (Instance.fresh tier machineId seed).waiting = [] := by
  cases tier <;> rfl

/-! ### Cursors -/

/-- What counts places of the ring does not wrap around. -/
theorem toNat_succ (tier : Tier) {cursor : UInt8} (within : cursor.toNat < tier.ringCapacity) :
    (cursor + 1).toNat = cursor.toNat + 1 := by
  have small : tier.ringCapacity ≤ 5 := by cases tier <;> decide
  have one : (1 : UInt8).toNat = 1 := rfl
  rw [UInt8.toNat_add]
  omega

/-- Where a cursor of the ring goes next. -/
theorem toNat_advance (tier : Tier) {cursor : UInt8} (within : cursor.toNat < tier.ringCapacity) :
    ((cursor + 1) % UInt8.ofNat tier.ringCapacity).toNat =
      (cursor.toNat + 1) % tier.ringCapacity := by
  rw [UInt8.toNat_mod, toNat_ringCapacity, toNat_succ tier within]

/-- There is a cell for every place of the ring. -/
theorem ringCapacity_le_length (inst : Instance) : inst.tier.ringCapacity ≤ inst.cells.length :=
  inst.length_cells.symm ▸ inst.tier.ringCapacity_le_cellCount

end Statechart.Instance
