/-
# Images without loss

An instance is read from its image as it was (`read_toBytes`), and whatever bytes a buffer of a
tier's size holds, the instance that is read from it has these bytes as its image
(`toBytes_read`). So buffers of that size and instances of that tier are the same thing.

For the first statement the image is taken apart field by field. For the second one the slices
that the fields are read from are put together again.
-/

import Statechart.Instance.Image
import Statechart.Proofs.Bytes.Parts

namespace Statechart

/-- The marks of a byte are stored as this byte. -/
@[simp]
theorem Status.toByte_ofByte (byte : UInt8) : (ofByte byte).toByte = byte := by
  have bound : byte.toNat < 256 := byte.toNat_lt
  apply UInt8.toNat_inj.1
  simp only [toByte, ofByte, UInt8.toNat_ofNat', Nat.toNat_testBit]
  omega

namespace Instance

variable (inst : Instance)

/-! ### The image of an instance -/

/-- The bytes in front of the slots. -/
def header : Bytes :=
  Bytes.ofWord32 inst.machineId ++ Bytes.ofWord16 inst.generation ++
    [inst.status.toByte, inst.phaseByte, inst.microStep, inst.head, inst.tail, inst.count] ++
    Bytes.ofWord32 inst.seed

/-- The bytes in front of the timers. -/
def beforeTimers : Bytes :=
  inst.header ++ inst.leaves.flatMap Bytes.ofWord16

/-- The bytes in front of the history slots. -/
def beforeHistory : Bytes :=
  inst.beforeTimers ++ inst.timers.flatMap Bytes.ofWord32

/-- The bytes in front of the queue. -/
def beforeQueue : Bytes :=
  inst.beforeHistory ++ inst.history.flatMap Bytes.ofWord16

/-- The bytes in front of the ring. -/
def beforeRing : Bytes :=
  inst.beforeQueue ++ inst.interruptCell.toList.flatMap Block.bytes

theorem length_header : inst.tier.leafOffset = inst.header.length := rfl

theorem length_beforeTimers : inst.tier.timerOffset = inst.beforeTimers.length := by
  rw [beforeTimers, List.length_append, ← length_header,
    Bytes.length_flatMap_of_width Bytes.length_ofWord16, length_leaves, Tier.timerOffset]

theorem length_beforeHistory : inst.tier.historyOffset = inst.beforeHistory.length := by
  rw [beforeHistory, List.length_append, ← length_beforeTimers,
    Bytes.length_flatMap_of_width Bytes.length_ofWord32, length_timers, Tier.historyOffset]

theorem length_beforeQueue : inst.tier.queueOffset = inst.beforeQueue.length := by
  rw [beforeQueue, List.length_append, ← length_beforeHistory,
    Bytes.length_flatMap_of_width Bytes.length_ofWord16, length_history, Tier.queueOffset]

theorem length_beforeRing : inst.tier.ringOffset = inst.beforeRing.length := by
  have cells : inst.interruptCell.toList.length = inst.tier.hasInterruptCell.toNat := by
    rw [← inst.isSome_interruptCell]
    cases inst.interruptCell <;> rfl
  rw [beforeRing, List.length_append, ← length_beforeQueue,
    Bytes.length_flatMap_of_width Block.length_bytes, cells, Tier.ringOffset]

/-- The image from the leaves on, behind what is in front of each part. -/
theorem toBytes_eq_leaves : inst.toBytes = inst.header ++ inst.leaves.flatMap Bytes.ofWord16 ++
    (inst.timers.flatMap Bytes.ofWord32 ++ (inst.history.flatMap Bytes.ofWord16 ++
      (inst.interruptCell.toList.flatMap Block.bytes ++ (inst.cells.flatMap Block.bytes ++
        inst.spare)))) := by
  simp only [toBytes, header, List.append_assoc]

theorem toBytes_eq_timers :
    inst.toBytes = inst.beforeTimers ++ inst.timers.flatMap Bytes.ofWord32 ++
      (inst.history.flatMap Bytes.ofWord16 ++ (inst.interruptCell.toList.flatMap Block.bytes ++
        (inst.cells.flatMap Block.bytes ++ inst.spare))) := by
  simp only [toBytes_eq_leaves, beforeTimers, List.append_assoc]

theorem toBytes_eq_history :
    inst.toBytes = inst.beforeHistory ++ inst.history.flatMap Bytes.ofWord16 ++
      (inst.interruptCell.toList.flatMap Block.bytes ++
        (inst.cells.flatMap Block.bytes ++ inst.spare)) := by
  simp only [toBytes_eq_timers, beforeHistory, List.append_assoc]

theorem toBytes_eq_queue :
    inst.toBytes = inst.beforeQueue ++ inst.interruptCell.toList.flatMap Block.bytes ++
      (inst.cells.flatMap Block.bytes ++ inst.spare) := by
  simp only [toBytes_eq_history, beforeQueue, List.append_assoc]

theorem toBytes_eq_ring :
    inst.toBytes = inst.beforeRing ++ inst.cells.flatMap Block.bytes ++ inst.spare := by
  simp only [toBytes_eq_queue, beforeRing, List.append_assoc]

/-! ### Reading an image -/

theorem leaves_toBytes : (List.range inst.tier.leafCapacity).map (fun index =>
    inst.toBytes.word16At (inst.tier.leafOffset + 2 * index)) = inst.leaves := by
  rw [← inst.length_leaves, toBytes_eq_leaves]
  exact Bytes.map_read_flatMap Bytes.word16At Bytes.length_ofWord16 Bytes.word16At_middle
    inst.length_header ..

theorem timers_toBytes : (List.range inst.tier.timerCapacity).map (fun index =>
    inst.toBytes.word32At (inst.tier.timerOffset + 4 * index)) = inst.timers := by
  rw [← inst.length_timers, toBytes_eq_timers]
  exact Bytes.map_read_flatMap Bytes.word32At Bytes.length_ofWord32 Bytes.word32At_middle
    inst.length_beforeTimers ..

theorem history_toBytes : (List.range inst.tier.historyCapacity).map (fun index =>
    inst.toBytes.word16At (inst.tier.historyOffset + 2 * index)) = inst.history := by
  rw [← inst.length_history, toBytes_eq_history]
  exact Bytes.map_read_flatMap Bytes.word16At Bytes.length_ofWord16 Bytes.word16At_middle
    inst.length_beforeHistory ..

theorem cells_toBytes : (List.range inst.tier.cellCount).map (fun index =>
    Block.slice inst.toBytes (inst.tier.ringOffset + 24 * index) 24) = inst.cells := by
  rw [← inst.length_cells, toBytes_eq_ring]
  exact Bytes.map_read_flatMap (fun bytes offset => Block.slice bytes offset 24)
    Block.length_bytes Block.slice_middle inst.length_beforeRing ..

theorem interruptCell_toBytes :
    (if inst.tier.hasInterruptCell then
      some (Block.slice inst.toBytes inst.tier.queueOffset 24) else none) =
        inst.interruptCell := by
  have isSome := inst.isSome_interruptCell
  rw [toBytes_eq_queue, inst.length_beforeQueue, ← isSome]
  cases inst.interruptCell with
  | none => rfl
  | some cell =>
    rw [Option.toList_some, List.flatMap_singleton, Block.slice_middle rfl]
    rfl

theorem spare_toBytes :
    (Block.slice inst.toBytes (inst.tier.ringOffset + 24 * inst.tier.cellCount)
      inst.tier.spareSize).bytes = inst.spare := by
  have place : inst.tier.ringOffset + 24 * inst.tier.cellCount =
      (inst.beforeRing ++ inst.cells.flatMap Block.bytes).length := by
    rw [List.length_append, ← length_beforeRing,
      Bytes.length_flatMap_of_width Block.length_bytes, length_cells]
  have last : inst.toBytes =
      inst.beforeRing ++ inst.cells.flatMap Block.bytes ++ inst.spare ++ [] := by
    rw [List.append_nil, toBytes_eq_ring]
  rw [last]
  exact congrArg Block.bytes (Block.slice_middle place ⟨inst.spare, inst.length_spare⟩ [])

/-- An instance is what is read from its image. -/
@[simp]
theorem read_toBytes : read inst.tier inst.toBytes = inst := by
  have machineId : inst.toBytes.word32At 0 = inst.machineId := Bytes.word32_digit _
  have generation : inst.toBytes.word16At 4 = inst.generation := Bytes.word16_digit _
  have status : Status.ofByte (inst.toBytes.byteAt 6) = inst.status := Status.ofByte_toByte _
  have seed : inst.toBytes.word32At 12 = inst.seed := Bytes.word32_digit _
  have leaves := inst.leaves_toBytes
  have timers := inst.timers_toBytes
  have history := inst.history_toBytes
  have interruptCell := inst.interruptCell_toBytes
  have cells := inst.cells_toBytes
  have spare := inst.spare_toBytes
  -- Phase, micro step and cursors are bytes of the image as they are.
  simp only [read, machineId, generation, status, seed, leaves, timers, history, interruptCell,
    cells, spare]
  rfl

/-! ### The image of what was read -/

variable {tier : Tier} {bytes : Bytes}

theorem header_read (long : 16 ≤ bytes.length) :
    (read tier bytes).header = bytes.slice 0 16 := by
  have marks : [bytes.byteAt 6, bytes.byteAt 7, bytes.byteAt 8, bytes.byteAt 9, bytes.byteAt 10,
      bytes.byteAt 11] = bytes.slice 6 6 := by
    simp (disch := omega) only [Bytes.slice_succ]
    rfl
  simp only [header, read, Status.toByte_ofByte, marks]
  rw [Bytes.ofWord32_word32At (by omega), Bytes.ofWord16_word16At (by omega),
    Bytes.ofWord32_word32At (by omega), Bytes.slice_append_slice bytes rfl,
    Bytes.slice_append_slice bytes rfl, Bytes.slice_append_slice bytes rfl]

theorem interruptCell_read (inside : tier.ringOffset ≤ bytes.length) :
    (read tier bytes).interruptCell.toList.flatMap Block.bytes =
      bytes.slice tier.queueOffset (24 * tier.hasInterruptCell.toNat) := by
  have place : tier.ringOffset = tier.queueOffset + 24 * tier.hasInterruptCell.toNat := rfl
  rw [place] at inside
  simp only [read]
  cases hasCell : tier.hasInterruptCell with
  | false => rfl
  | true =>
    rw [hasCell] at inside
    exact (List.append_nil _).trans (Block.bytes_slice inside)

/-- Every byte of a buffer belongs to a field, so nothing is lost in reading it. -/
theorem toBytes_read (whole : bytes.length = tier.size) : (read tier bytes).toBytes = bytes := by
  -- Where each part begins is where the one in front of it ends.
  have timers : tier.timerOffset = tier.leafOffset + 2 * tier.leafCapacity := rfl
  have history : tier.historyOffset = tier.timerOffset + 4 * tier.timerCapacity := rfl
  have queue : tier.queueOffset = tier.historyOffset + 2 * tier.historyCapacity := rfl
  have ring : tier.ringOffset = tier.queueOffset + 24 * tier.hasInterruptCell.toNat := rfl
  have parts := tier.ringOffset_add_cells
  have front : tier.leafOffset = 0 + 16 := rfl
  rw [toBytes_eq_ring, beforeRing, beforeQueue, beforeHistory, beforeTimers,
    header_read (by omega), interruptCell_read (by omega)]
  simp only [read]
  rw [Bytes.flatMap_map_read Bytes.word16At Bytes.ofWord16_word16At (by omega),
    Bytes.flatMap_map_read Bytes.word32At Bytes.ofWord32_word32At (by omega),
    Bytes.flatMap_map_read Bytes.word16At Bytes.ofWord16_word16At (by omega),
    Bytes.flatMap_map_read (fun bytes offset => Block.slice bytes offset 24)
      Block.bytes_slice (by omega), Block.bytes_slice (by omega)]
  rw [Bytes.slice_append_slice bytes front, Bytes.slice_append_slice bytes (by omega),
    Bytes.slice_append_slice bytes (by omega), Bytes.slice_append_slice bytes (by omega),
    Bytes.slice_append_slice bytes (by omega), Bytes.slice_append_slice bytes (by omega)]
  exact Bytes.slice_all (by omega)

end Instance

end Statechart
