/-
# Operations that spare the leaves

A tick relies on the leaf slots of an instance and on the ring's cursors, which point into
the ring. A host that wants to know more can ask for a `Pledge`, which says something about
the overflow mark and the machine id. `Spares` says of two states of an instance that the
second has the same leaf slots and is no worse in the other respects. Queue, timers,
history and phase can be written without breaking it, and none of these operations ends in
a fault.
-/

import Statechart.Instance.Queue
import Statechart.Proofs.Returns

namespace Statechart.Instance

/-- The ring's cursors lie within the ring, and it holds no more than it has room for. -/
structure QueueSound (inst : Instance) : Prop where
  head_lt : inst.head.toNat < inst.tier.ringCapacity
  tail_lt : inst.tail.toNat < inst.tier.ringCapacity
  count_le : inst.count.toNat ≤ inst.tier.ringCapacity

/-- What the soundness of the queue is about. -/
def ring (inst : Instance) : Tier × UInt8 × UInt8 × UInt8 :=
  (inst.tier, inst.head, inst.tail, inst.count)

theorem QueueSound.of_ring_eq {before after : Instance} (sound : before.QueueSound)
    (same : after.ring = before.ring) : after.QueueSound := by
  obtain ⟨tier, head, tail, count⟩ : after.tier = before.tier ∧ after.head = before.head ∧
      after.tail = before.tail ∧ after.count = before.count := by
    simpa only [ring, Prod.mk.injEq] using same
  constructor
  · rw [head, tier]
    exact sound.head_lt
  · rw [tail, tier]
    exact sound.tail_lt
  · rw [count, tier]
    exact sound.count_le

/-- What is to stay true of the leaf overflow mark and the machine id. -/
def Pledge := Bool → UInt32 → Prop

namespace Pledge

/-- Whether an instance is as pledged. -/
def Of (pledge : Pledge) (inst : Instance) : Prop :=
  pledge inst.status.leafOverflow inst.machineId

/-- Nothing is pledged. -/
def nothing : Pledge := fun _ _ => True

/-- Nobody marks a leaf overflow. -/
def unmarked : Pledge := fun marked _ => marked = false

/-- The instance goes on belonging to one machine. -/
def belongs (machineId : UInt32) : Pledge := fun _ id => id = machineId

end Pledge

/-- `after` is `before` with the same leaf slots and, if they were so before, a sound queue
and what is pledged. -/
structure Spares (pledge : Pledge) (before after : Instance) : Prop where
  leaves_eq : after.leaves = before.leaves
  queueSound : before.QueueSound → after.QueueSound
  pledged : pledge.Of before → pledge.Of after

/-- What queueing an event does: the instance stays in its phase, too. -/
structure Waits (pledge : Pledge) (before after : Instance) : Prop
    extends Spares pledge before after where
  phase_eq : after.phase? = before.phase?

/-- The number of leaf slots tells the tier. -/
theorem tier_eq_of_leaves {before after : Instance} (same : after.leaves = before.leaves) :
    after.tier = before.tier := by
  have capacity : after.tier.leafCapacity = before.tier.leafCapacity := by
    rw [← after.length_leaves, same, before.length_leaves]
  revert capacity
  cases after.tier <;> cases before.tier <;> decide

variable {pledge : Pledge} {inst before middle after : Instance}

namespace Spares

theorem refl (pledge : Pledge) (inst : Instance) : Spares pledge inst inst :=
  ⟨rfl, id, id⟩

theorem trans (first : Spares pledge before middle) (second : Spares pledge middle after) :
    Spares pledge before after :=
  ⟨second.leaves_eq.trans first.leaves_eq, fun sound => second.queueSound (first.queueSound sound),
    fun kept => second.pledged (first.pledged kept)⟩

theorem withPhase (phase : Phase) : Spares pledge inst (inst.withPhase phase) :=
  ⟨rfl, fun sound => sound.of_ring_eq rfl, id⟩

end Spares

/-! ### Slots -/

theorem setTimer_returns (pledge : Pledge) {index : Nat}
    (inside : index < inst.tier.timerCapacity) (remaining : UInt32) :
    Returns (inst.setTimer index remaining) (Spares pledge inst) := by
  unfold setTimer
  rw [if_pos (inst.length_timers.symm ▸ inside)]
  exact .ok ⟨rfl, fun sound => sound.of_ring_eq rfl, id⟩

theorem setHistory_returns (pledge : Pledge) {index : Nat}
    (inside : index < inst.tier.historyCapacity) (state : UInt16) :
    Returns (inst.setHistory index state) (Spares pledge inst) := by
  unfold setHistory
  rw [if_pos (inst.length_history.symm ▸ inside)]
  exact .ok ⟨rfl, fun sound => sound.of_ring_eq rfl, id⟩

theorem slot_returns {Value : Type} {kind : SlotKind} {slots : List Value} {index : Nat}
    (inside : index < slots.length) : Returns (slot kind slots index) (· ∈ slots) := by
  unfold slot
  rw [List.getElem?_eq_getElem inside]
  exact .ok (List.getElem_mem inside)

theorem timer_returns {index : Nat} (inside : index < inst.tier.timerCapacity) :
    Returns (inst.timer index) fun _ => True :=
  (slot_returns (inst.length_timers.symm ▸ inside)).mono fun _ _ => trivial

theorem historyAt_returns {index : Nat} (inside : index < inst.tier.historyCapacity) :
    Returns (inst.historyAt index) fun _ => True :=
  (slot_returns (inst.length_history.symm ▸ inside)).mono fun _ _ => trivial

/-! ### The queue -/

theorem ringCapacity_pos (tier : Tier) : 0 < tier.ringCapacity := by
  cases tier <;> decide

theorem toNat_ringCapacity (tier : Tier) :
    (UInt8.ofNat tier.ringCapacity).toNat = tier.ringCapacity := by
  cases tier <;> rfl

/-- Where a cursor goes next, in the ring. -/
theorem advance_lt (tier : Tier) (cursor : UInt8) :
    ((cursor + 1) % UInt8.ofNat tier.ringCapacity).toNat < tier.ringCapacity := by
  rw [UInt8.toNat_mod, toNat_ringCapacity]
  exact Nat.mod_lt _ (ringCapacity_pos tier)

theorem cellEvent_returns {index : UInt8} (inside : index.toNat < inst.tier.ringCapacity) :
    Returns (inst.cellEvent index) fun _ => True := by
  have within : index.toNat < inst.cells.length :=
    inst.length_cells.symm ▸ Nat.lt_of_lt_of_le inside inst.tier.ringCapacity_le_cellCount
  unfold cellEvent
  rw [List.getElem?_eq_getElem within]
  exact .ok trivial

/-- Filling a ring cell changes nothing but the cells. -/
theorem setCell_returns (pledge : Pledge) {index : UInt8}
    (inside : index.toNat < inst.tier.ringCapacity) (event : Event) :
    Returns (inst.setCell index event) fun filled =>
      filled.ring = inst.ring ∧ Waits pledge inst filled := by
  have within : index.toNat < inst.cells.length :=
    inst.length_cells.symm ▸ Nat.lt_of_lt_of_le inside inst.tier.ringCapacity_le_cellCount
  unfold setCell
  rw [if_pos within]
  exact .ok ⟨rfl, ⟨rfl, fun sound => sound.of_ring_eq rfl, id⟩, rfl⟩

theorem waits_enqueueInterrupt (event : Event)
    (hasCell : inst.tier.hasInterruptCell = true) :
    Waits pledge inst (inst.enqueueInterrupt event hasCell).2 := by
  unfold enqueueInterrupt
  split
  · exact ⟨.refl _ _, rfl⟩
  · exact ⟨⟨rfl, fun sound => sound.of_ring_eq rfl, id⟩, rfl⟩

namespace QueueSound

theorem peek_returns (sound : inst.QueueSound) : Returns inst.peek fun next =>
    next ≠ none → inst.status.interruptOccupied = false → inst.count ≠ 0 := by
  unfold peek
  split
  · next occupied => exact .ok fun _ free => absurd (occupied.symm.trans free) (by decide)
  · split
    · exact .ok fun some => absurd rfl some
    · next filled => exact (cellEvent_returns sound.head_lt).map fun _ _ _ _ => filled

theorem spares_dropHead (sound : inst.QueueSound) (filled : inst.count ≠ 0) :
    Spares pledge inst inst.dropHead := by
  unfold dropHead
  simp only
  split
  · exact ⟨rfl, fun _ => ⟨ringCapacity_pos _, ringCapacity_pos _, Nat.zero_le _⟩, id⟩
  · refine ⟨rfl, fun _ => ⟨advance_lt _ _, sound.tail_lt, ?_⟩, id⟩
    have some : 1 ≤ inst.count := by
      refine UInt8.le_iff_toNat_le.2 (Nat.one_le_iff_ne_zero.2 fun none => filled ?_)
      exact UInt8.toNat_inj.1 none
    show (inst.count - 1).toNat ≤ _
    rw [UInt8.toNat_sub_of_le _ _ some]
    exact Nat.le_trans (Nat.sub_le _ _) sound.count_le

/-- Taking an event out of a sound queue works. -/
theorem dequeue_returns (sound : inst.QueueSound) :
    Returns inst.dequeue fun answer => Spares pledge inst answer.2 := by
  unfold dequeue
  apply sound.peek_returns.bind
  intro next filled
  cases next with
  | none => exact .pure (Spares.refl _ _)
  | some event =>
    show Returns (if _ then _ else _) _
    split
    · exact .pure ⟨rfl, fun sound => sound.of_ring_eq rfl, id⟩
    · next free =>
      exact .pure (sound.spares_dropHead (filled nofun (Bool.eq_false_iff.2 free)))

theorem enqueueSingle_returns (sound : inst.QueueSound) (event : Event) :
    Returns (inst.enqueueSingle event) fun answer => Waits pledge inst answer.2 := by
  have first : (0 : UInt8).toNat < inst.tier.ringCapacity := ringCapacity_pos _
  have filling : Returns
      (inst.setCell 0 event >>= fun filled => pure (true, { filled with count := 1 }))
      fun answer => Waits pledge inst answer.2 := by
    apply (setCell_returns pledge first event).bind
    intro filled same
    obtain ⟨_, waits⟩ := same
    have still := waits.queueSound sound
    refine .pure ⟨⟨waits.leaves_eq, fun _ => ?_, waits.pledged⟩, waits.phase_eq⟩
    exact ⟨still.head_lt, still.tail_lt, ringCapacity_pos _⟩
  unfold enqueueSingle
  split
  · apply (cellEvent_returns first).bind
    intro _ _
    split
    · exact .pure ⟨.refl _ _, rfl⟩
    · exact filling
  · exact filling

theorem enqueueRing_returns (sound : inst.QueueSound) (event : Event) :
    Returns (inst.enqueueRing event) fun answer => Waits pledge inst answer.2 := by
  unfold enqueueRing
  simp only
  split
  · exact .pure ⟨.refl _ _, rfl⟩
  · next free =>
    apply (setCell_returns pledge sound.tail_lt event).bind
    intro filled same
    obtain ⟨ring, waits⟩ := same
    have tier : filled.tier = inst.tier := congrArg Prod.fst ring
    refine .pure ⟨⟨waits.leaves_eq, fun _ => ⟨?_, ?_, ?_⟩, waits.pledged⟩, waits.phase_eq⟩
    · exact (waits.queueSound sound).head_lt
    · have capacity := congrArg Tier.ringCapacity tier.symm
      exact Nat.lt_of_lt_of_eq (advance_lt inst.tier inst.tail) capacity
    · have below := UInt8.lt_iff_toNat_lt.1 (UInt8.not_le.1 free)
      rw [toNat_ringCapacity] at below
      show (inst.count + 1).toNat ≤ filled.tier.ringCapacity
      rw [tier, UInt8.toNat_add]
      exact Nat.le_trans (Nat.mod_le _ _) below

/-- Putting an event into a sound queue works. -/
theorem enqueue_returns (sound : inst.QueueSound) (event : Event) (priority : Priority) :
    Returns (inst.enqueue event priority) fun answer => Waits pledge inst answer.2 := by
  have close (accepted : Bool) (after : Instance) (waits : Waits pledge inst after) :
      Returns
        (if accepted = true then pure (true, after)
        else pure (false, { after with status := { after.status with queueDropped := true } }))
        fun answer => Waits pledge inst answer.2 := by
    cases accepted with
    | true => exact .pure waits
    | false =>
      have marked : Spares pledge after
          { after with status := { after.status with queueDropped := true } } :=
        ⟨rfl, fun sound => sound.of_ring_eq rfl, id⟩
      exact .pure ⟨waits.toSpares.trans marked, waits.phase_eq⟩
  unfold enqueue
  split
  · next hasCell =>
    split
    · exact close _ _ (waits_enqueueInterrupt _ hasCell)
    · exact (sound.enqueueRing_returns _).bind fun answer waits => close _ _ waits
  · exact (sound.enqueueSingle_returns _).bind fun answer waits => close _ _ waits

end QueueSound

end Statechart.Instance
