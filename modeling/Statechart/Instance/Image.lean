/-
# Instances as bytes

The image of an instance is its header of sixteen bytes, its slots and its queue
cells, one after the other, little-endian. Every byte of the image belongs to
exactly one field, so an instance can be taken apart into its image and put
together again without loss.
-/

import Statechart.Instance.Basic

namespace Statechart

/-- Why a buffer does not hold an instance. -/
inductive InstanceError
  /-- The buffer has another size than the tier asks for. -/
  | sizeMismatch (tier : Tier) (actual : Nat)
  /-- No tier has instances of this size. -/
  | unknownSize (size : Nat)
  deriving DecidableEq, Repr

namespace InstanceError

/-- The error as it is shown to the user. -/
def message : InstanceError → String
  | sizeMismatch tier actual => s!"buffer of {actual} bytes does not hold a {tier.name} instance"
  | unknownSize size => s!"no instance tier is {size} bytes"

end InstanceError

namespace Instance

/-- The bytes of an instance. -/
def toBytes (inst : Instance) : Bytes :=
  Bytes.ofWord32 inst.machineId ++ Bytes.ofWord16 inst.generation ++
    [inst.status.toByte, inst.phaseByte, inst.microStep, inst.head, inst.tail, inst.count] ++
    Bytes.ofWord32 inst.seed ++ inst.leaves.flatMap Bytes.ofWord16 ++
    inst.timers.flatMap Bytes.ofWord32 ++ inst.history.flatMap Bytes.ofWord16 ++
    inst.interruptCell.toList.flatMap Block.bytes ++ inst.cells.flatMap Block.bytes ++
    inst.spare

/-- The instance of a tier that these bytes describe. Missing bytes count as zero. -/
def read (tier : Tier) (bytes : Bytes) : Instance where
  tier := tier
  machineId := bytes.word32At 0
  generation := bytes.word16At 4
  status := Status.ofByte (bytes.byteAt 6)
  phaseByte := bytes.byteAt 7
  microStep := bytes.byteAt 8
  head := bytes.byteAt 9
  tail := bytes.byteAt 10
  count := bytes.byteAt 11
  seed := bytes.word32At 12
  leaves := (List.range tier.leafCapacity).map fun index =>
    bytes.word16At (tier.leafOffset + 2 * index)
  timers := (List.range tier.timerCapacity).map fun index =>
    bytes.word32At (tier.timerOffset + 4 * index)
  history := (List.range tier.historyCapacity).map fun index =>
    bytes.word16At (tier.historyOffset + 2 * index)
  interruptCell :=
    if tier.hasInterruptCell then some (Block.slice bytes tier.queueOffset 24) else none
  cells := (List.range tier.cellCount).map fun index =>
    Block.slice bytes (tier.ringOffset + 24 * index) 24
  spare :=
    (Block.slice bytes (tier.ringOffset + 24 * tier.cellCount) tier.spareSize).bytes
  length_leaves := by rw [List.length_map, List.length_range]
  length_timers := by rw [List.length_map, List.length_range]
  length_history := by rw [List.length_map, List.length_range]
  isSome_interruptCell := by cases tier.hasInterruptCell <;> rfl
  length_cells := by rw [List.length_map, List.length_range]
  length_spare := Block.length_bytes _

/-- The instance of a tier in a buffer, which must have exactly the tier's size. -/
def ofBytes (tier : Tier) (bytes : Bytes) : Except InstanceError Instance :=
  if bytes.length = tier.size then .ok (read tier bytes)
  else .error (.sizeMismatch tier bytes.length)

/-- The instance in a buffer, its tier told by the size. -/
def detect (bytes : Bytes) : Except InstanceError Instance :=
  match Tier.ofSize? bytes.length with
  | some tier => ofBytes tier bytes
  | none => .error (.unknownSize bytes.length)

end Instance

end Statechart
