/-
# Instances

An instance is one running copy of a machine. It fits into 64, 128 or 256 bytes:
a header (machine id, generation, status, phase, micro step, ring cursors, random
seed), then slots for the active leaves, the remaining time of timers and the
saved states of history, and last the queue's cells.

The slot arrays have as many entries as the instance's tier says, which the type
records. Leaf slots are kept compact: the first `noIndex` ends the list of active
leaves. A timer slot of zero is not armed.

`Instance.toBytes` and `Instance.ofBytes` convert to and from the bytes of an
instance, header first, without gaps; they are the only view of an instance that
depends on byte offsets.
-/

import Statechart.Bytes.Block
import Statechart.Fault
import Statechart.Rom.Index
import Statechart.Tier

namespace Statechart

open Rom (noIndex)

/-- Where an instance stands within a tick. -/
inductive Phase
  | idle
  | entry
  | rtc
  | activity
  deriving DecidableEq, Repr

namespace Phase

/-- The stored form. -/
def toByte : Phase → UInt8
  | idle => 0
  | entry => 1
  | rtc => 2
  | activity => 3

/-- The phase a byte stands for, if any. -/
def ofByte? (byte : UInt8) : Option Phase :=
  if byte = 0 then some idle
  else if byte = 1 then some entry
  else if byte = 2 then some rtc
  else if byte = 3 then some activity
  else none

@[simp]
theorem ofByte?_toByte (phase : Phase) : ofByte? phase.toByte = some phase := by
  cases phase <;> rfl

end Phase

/-- Sticky marks in an instance's header. -/
structure Status where
  /-- A run to completion reached its step limit and the configuration was dropped. -/
  rtcOverflow : Bool
  /-- More leaves became active than the tier has slots for. -/
  leafOverflow : Bool
  /-- The interrupt cell holds an event. -/
  interruptOccupied : Bool
  /-- An event was refused by the queue. -/
  queueDropped : Bool
  /-- The four bits without a meaning, lowest first. -/
  unassigned : Bool × Bool × Bool × Bool
  deriving DecidableEq, Repr

namespace Status

/-- The stored form, `rtcOverflow` in the lowest bit. -/
def toByte (status : Status) : UInt8 :=
  let (bit4, bit5, bit6, bit7) := status.unassigned
  UInt8.ofNat (status.rtcOverflow.toNat + 2 * status.leafOverflow.toNat +
    4 * status.interruptOccupied.toNat + 8 * status.queueDropped.toNat + 16 * bit4.toNat +
    32 * bit5.toNat + 64 * bit6.toNat + 128 * bit7.toNat)

/-- The marks stored in a byte. -/
def ofByte (byte : UInt8) : Status where
  rtcOverflow := byte.toNat.testBit 0
  leafOverflow := byte.toNat.testBit 1
  interruptOccupied := byte.toNat.testBit 2
  queueDropped := byte.toNat.testBit 3
  unassigned :=
    (byte.toNat.testBit 4, byte.toNat.testBit 5, byte.toNat.testBit 6, byte.toNat.testBit 7)

/-- No mark. -/
def clear : Status := ofByte 0

instance : Inhabited Status := ⟨clear⟩

/-- The marks of both. -/
def union (first second : Status) : Status :=
  ofByte (first.toByte ||| second.toByte)

/-- The marks of the first that the second does not have. -/
def diff (first second : Status) : Status :=
  ofByte (first.toByte &&& ~~~second.toByte)

/-- Whether every mark of `second` is one of `first`. -/
def includes (first second : Status) : Bool :=
  first.toByte &&& second.toByte == second.toByte

@[simp]
theorem ofByte_toByte (status : Status) : ofByte status.toByte = status := by
  obtain ⟨rtc, leaf, interrupt, dropped, bit4, bit5, bit6, bit7⟩ := status
  cases rtc <;> cases leaf <;> cases interrupt <;> cases dropped <;> cases bit4 <;>
    cases bit5 <;> cases bit6 <;> cases bit7 <;> rfl

end Status

/-- A queue cell: the bytes of one stored event, or whatever was there before. -/
abbrev Cell := Block 24

/-- One running copy of a machine. -/
structure Instance where
  tier : Tier
  /-- The structure hash of the definition this instance belongs to. -/
  machineId : UInt32
  /-- How often the instance was reset, modulo 65536. -/
  generation : UInt16
  status : Status
  /-- The phase as stored; a damaged instance can hold a byte that is no phase. -/
  phaseByte : UInt8
  /-- Transitions fired in the latest run to completion, at most 255. -/
  microStep : UInt8
  /-- The ring cell that is taken next. -/
  head : UInt8
  /-- The ring cell that is filled next. -/
  tail : UInt8
  /-- How many events the ring holds. -/
  count : UInt8
  /-- The state of the random generator. -/
  seed : UInt32
  /-- Active leaves, then `noIndex`. -/
  leaves : List UInt16
  /-- Milliseconds left per timer, zero when not armed. -/
  timers : List UInt32
  /-- What each history slot remembers. -/
  history : List UInt16
  /-- The interrupt cell, in tiers that have one. -/
  interruptCell : Option Cell
  /-- The whole cells from the ring's offset to the end of the instance. -/
  cells : List Cell
  /-- The bytes behind the last whole cell. -/
  spare : Bytes
  length_leaves : leaves.length = tier.leafCapacity
  length_timers : timers.length = tier.timerCapacity
  length_history : history.length = tier.historyCapacity
  isSome_interruptCell : interruptCell.isSome = tier.hasInterruptCell
  length_cells : cells.length = tier.cellCount
  length_spare : spare.length = tier.spareSize
  deriving DecidableEq

namespace Instance

/-- A new instance: nothing active, nothing remembered, nothing queued, all else
zero. -/
def fresh (tier : Tier) (machineId seed : UInt32) : Instance where
  tier := tier
  machineId := machineId
  generation := 0
  status := .clear
  phaseByte := Phase.idle.toByte
  microStep := 0
  head := 0
  tail := 0
  count := 0
  seed := seed
  leaves := List.replicate tier.leafCapacity noIndex
  timers := List.replicate tier.timerCapacity 0
  history := List.replicate tier.historyCapacity noIndex
  interruptCell := if tier.hasInterruptCell then some (Block.zeros 24) else none
  cells := List.replicate tier.cellCount (Block.zeros 24)
  spare := List.replicate tier.spareSize 0
  length_leaves := List.length_replicate
  length_timers := List.length_replicate
  length_history := List.length_replicate
  isSome_interruptCell := by cases tier.hasInterruptCell <;> rfl
  length_cells := List.length_replicate
  length_spare := List.length_replicate

/-- Start the same machine again. Machine id and seed are kept, the generation is
counted up, everything else is as in a new instance. -/
def reset (inst : Instance) : Instance :=
  { fresh inst.tier inst.machineId inst.seed with generation := inst.generation + 1 }

/-- Give the instance to another machine. Only the generation survives, counted up. -/
def hardReset (inst : Instance) (machineId : UInt32) : Instance :=
  { fresh inst.tier machineId 0 with generation := inst.generation + 1 }

/-- The phase, unless the byte stored for it stands for none. -/
def phase? (inst : Instance) : Option Phase :=
  Phase.ofByte? inst.phaseByte

/-- The same instance in another phase. -/
def withPhase (inst : Instance) (phase : Phase) : Instance :=
  { inst with phaseByte := phase.toByte }

/-- The active leaves in slot order. -/
def activeLeaves (inst : Instance) : List UInt16 :=
  inst.leaves.takeWhile (fun leaf => leaf != noIndex)

/-- Whether the first tick has entered the default configuration. -/
def isStarted (inst : Instance) : Bool :=
  inst.leaves.headD noIndex != noIndex

/-- The entry of a slot array that the instance is promised to have. -/
def slot {Value : Type} (kind : SlotKind) (slots : List Value) (index : Nat) :
    Except Fault Value :=
  match slots[index]? with
  | some value => .ok value
  | none => .error (.slotOutOfRange kind index)

/-- The leaf slot of this number. -/
def leaf (inst : Instance) (index : Nat) : Except Fault UInt16 :=
  slot .leaf inst.leaves index

/-- The timer slot of this number. -/
def timer (inst : Instance) (index : Nat) : Except Fault UInt32 :=
  slot .timer inst.timers index

/-- The history slot of this number. -/
def historyAt (inst : Instance) (index : Nat) : Except Fault UInt16 :=
  slot .history inst.history index

/-- Write a leaf slot. -/
def setLeaf (inst : Instance) (index : Nat) (state : UInt16) : Except Fault Instance :=
  if index < inst.leaves.length then
    .ok { inst with
      leaves := inst.leaves.set index state
      length_leaves := by rw [List.length_set, inst.length_leaves] }
  else .error (.slotOutOfRange .leaf index)

/-- Write a timer slot. -/
def setTimer (inst : Instance) (index : Nat) (remaining : UInt32) : Except Fault Instance :=
  if index < inst.timers.length then
    .ok { inst with
      timers := inst.timers.set index remaining
      length_timers := by rw [List.length_set, inst.length_timers] }
  else .error (.slotOutOfRange .timer index)

/-- Write a history slot. -/
def setHistory (inst : Instance) (index : Nat) (state : UInt16) : Except Fault Instance :=
  if index < inst.history.length then
    .ok { inst with
      history := inst.history.set index state
      length_history := by rw [List.length_set, inst.length_history] }
  else .error (.slotOutOfRange .history index)

/-- Make exactly `active` the active leaves, as far as there are slots for them. -/
def withActiveLeaves (inst : Instance) (active : List UInt16) : Instance :=
  { inst with
    leaves :=
      (active ++ List.replicate inst.tier.leafCapacity noIndex).take inst.tier.leafCapacity
    length_leaves := by
      rw [List.length_take, List.length_append, List.length_replicate]
      omega }

/-- Make no leaf active. -/
def clearLeaves (inst : Instance) : Instance :=
  inst.withActiveLeaves []

/-- Disarm every timer. -/
def clearTimers (inst : Instance) : Instance :=
  { inst with
    timers := List.replicate inst.tier.timerCapacity 0
    length_timers := List.length_replicate }

/-- Forget what every history slot remembers. -/
def clearHistory (inst : Instance) : Instance :=
  { inst with
    history := List.replicate inst.tier.historyCapacity noIndex
    length_history := List.length_replicate }

/-- Set the marks of `marks` too. -/
def insertStatus (inst : Instance) (marks : Status) : Instance :=
  { inst with status := inst.status.union marks }

/-- Take the marks of `marks` away. -/
def removeStatus (inst : Instance) (marks : Status) : Instance :=
  { inst with status := inst.status.diff marks }

/-- An instance is started exactly when some leaf is active. -/
theorem isStarted_eq (inst : Instance) :
    inst.isStarted = !inst.activeLeaves.isEmpty := by
  unfold isStarted activeLeaves
  cases inst.leaves with
  | nil => rfl
  | cons leaf rest =>
    by_cases absent : leaf = noIndex <;> simp [absent]

end Instance

end Statechart
