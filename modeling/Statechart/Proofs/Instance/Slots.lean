/-
# Writing slots

Writing a slot of an instance, if there is one of that number, changes this slot and
nothing else. Putting an event into the queue and taking one out changes nothing of an instance
but its queue and the two marks that belong to it (`withoutQueue`), so it writes no slot, and of
the header nothing but the cursors and these marks.
-/

import Statechart.Instance.Queue
import Statechart.Proofs.Yields

namespace Statechart.Instance

variable {inst : Instance} {index : Nat}

theorem setLeaf_yields (state : UInt16) : Yields (inst.setLeaf index state) fun after =>
    index < inst.leaves.length ∧ after = { inst with
      leaves := inst.leaves.set index state
      length_leaves := by rw [List.length_set, inst.length_leaves] } := by
  unfold setLeaf
  split
  · next inside => exact .ok ⟨inside, rfl⟩
  · exact .error

theorem setTimer_yields (remaining : UInt32) : Yields (inst.setTimer index remaining) fun after =>
    index < inst.timers.length ∧ after = { inst with
      timers := inst.timers.set index remaining
      length_timers := by rw [List.length_set, inst.length_timers] } := by
  unfold setTimer
  split
  · next inside => exact .ok ⟨inside, rfl⟩
  · exact .error

theorem setHistory_yields (state : UInt16) : Yields (inst.setHistory index state) fun after =>
    index < inst.history.length ∧ after = { inst with
      history := inst.history.set index state
      length_history := by rw [List.length_set, inst.length_history] } := by
  unfold setHistory
  split
  · next inside => exact .ok ⟨inside, rfl⟩
  · exact .error

theorem timer_yields : Yields (inst.timer index) fun remaining =>
    inst.timers[index]? = some remaining := by
  unfold timer slot
  split
  · next found => exact .ok found
  · exact .error

/-! ### Queueing -/

theorem setCell_yields (index : UInt8) (event : Event) :
    Yields (inst.setCell index event) fun after => after = { inst with
      cells := inst.cells.set index.toNat ⟨event.toBytes, event.length_toBytes⟩
      length_cells := by rw [List.length_set, inst.length_cells] } := by
  unfold setCell
  split
  · exact .ok rfl
  · exact .error

/-- The instance without its queue: nothing is queued, and nothing is marked about events. -/
def withoutQueue (inst : Instance) : Instance :=
  { inst with
    status := { inst.status with interruptOccupied := false, queueDropped := false }
    head := 0
    tail := 0
    count := 0
    interruptCell := (fresh inst.tier 0 0).interruptCell
    cells := (fresh inst.tier 0 0).cells
    isSome_interruptCell := (fresh inst.tier 0 0).isSome_interruptCell
    length_cells := (fresh inst.tier 0 0).length_cells }

/-- The slots, and whatever else events have no part in, are the same. -/
structure SameSlots (before after : Instance) : Prop where
  tier_eq : after.tier = before.tier
  machineId_eq : after.machineId = before.machineId
  phaseByte_eq : after.phaseByte = before.phaseByte
  seed_eq : after.seed = before.seed
  leaves_eq : after.leaves = before.leaves
  timers_eq : after.timers = before.timers
  history_eq : after.history = before.history

theorem SameSlots.of_withoutQueue_eq {before after : Instance}
    (same : after.withoutQueue = before.withoutQueue) : before.SameSlots after where
  tier_eq := (congrArg Instance.tier same :)
  machineId_eq := (congrArg Instance.machineId same :)
  phaseByte_eq := (congrArg Instance.phaseByte same :)
  seed_eq := (congrArg Instance.seed same :)
  leaves_eq := (congrArg Instance.leaves same :)
  timers_eq := (congrArg Instance.timers same :)
  history_eq := (congrArg Instance.history same :)

theorem withoutQueue_dropHead : inst.dropHead.withoutQueue = inst.withoutQueue := by
  unfold dropHead
  simp only
  split <;> rfl

theorem withoutQueue_enqueueInterrupt (event : Event)
    (hasCell : inst.tier.hasInterruptCell = true) :
    (inst.enqueueInterrupt event hasCell).2.withoutQueue = inst.withoutQueue := by
  unfold enqueueInterrupt
  split <;> rfl

theorem dequeue_withoutQueue :
    Yields inst.dequeue fun answer => answer.2.withoutQueue = inst.withoutQueue := by
  unfold dequeue
  apply (Yields.self _).bind
  intro next _
  cases next with
  | none => exact .pure rfl
  | some event =>
    show Yields (if _ then _ else _) _
    split
    · exact .pure rfl
    · exact .pure withoutQueue_dropHead

theorem dequeue_sameSlots : Yields inst.dequeue fun answer => inst.SameSlots answer.2 :=
  dequeue_withoutQueue.mono fun _ => .of_withoutQueue_eq

/-- What putting an event into the queue leaves behind: what holds after each of the three ways,
if it goes on holding when the loss of an event is marked. -/
theorem enqueue_holds (holds : Instance → Prop) (event : Event) (priority : Priority)
    (marked : ∀ after, holds after →
      holds { after with status := { after.status with queueDropped := true } })
    (interrupt : ∀ hasCell : inst.tier.hasInterruptCell = true,
      holds (inst.enqueueInterrupt { event with priority } hasCell).2)
    (ring : Yields (inst.enqueueRing { event with priority }) fun answer => holds answer.2)
    (single : inst.tier.hasInterruptCell = false →
      Yields (inst.enqueueSingle { event with priority }) fun answer => holds answer.2) :
    Yields (inst.enqueue event priority) fun answer => holds answer.2 := by
  have close (accepted : Bool) (after : Instance) (is : holds after) : Yields
      (if accepted = true then pure (true, after)
        else pure (false, { after with status := { after.status with queueDropped := true } }))
      fun answer => holds answer.2 := by
    cases accepted with
    | true => exact .pure is
    | false => exact .pure (marked after is)
  unfold enqueue
  split
  · next hasCell =>
    split
    · exact close _ _ (interrupt hasCell)
    · exact ring.bind fun _ is => close _ _ is
  · next noCell => exact (single (Bool.eq_false_iff.2 noCell)).bind fun _ is => close _ _ is

theorem enqueueSingle_withoutQueue (event : Event) :
    Yields (inst.enqueueSingle event) fun answer =>
      answer.2.withoutQueue = inst.withoutQueue := by
  have filling : Yields
      (inst.setCell 0 event >>= fun filled => pure (true, { filled with count := 1 }))
      fun answer => answer.2.withoutQueue = inst.withoutQueue := by
    apply (setCell_yields 0 event).bind
    rintro _ rfl
    exact .pure rfl
  unfold enqueueSingle
  split
  · apply (Yields.self _).bind
    intro _ _
    split
    · exact .pure rfl
    · exact filling
  · exact filling

theorem enqueueRing_withoutQueue (event : Event) :
    Yields (inst.enqueueRing event) fun answer => answer.2.withoutQueue = inst.withoutQueue := by
  unfold enqueueRing
  simp only
  split
  · exact .pure rfl
  · apply (setCell_yields _ event).bind
    rintro _ rfl
    exact .pure rfl

theorem enqueue_withoutQueue (event : Event) (priority : Priority) :
    Yields (inst.enqueue event priority) fun answer =>
      answer.2.withoutQueue = inst.withoutQueue :=
  enqueue_holds (fun after => after.withoutQueue = inst.withoutQueue) event priority
    (fun _ same => same) (withoutQueue_enqueueInterrupt _) (enqueueRing_withoutQueue _)
    fun _ => enqueueSingle_withoutQueue _

theorem enqueue_sameSlots (event : Event) (priority : Priority) :
    Yields (inst.enqueue event priority) fun answer => inst.SameSlots answer.2 :=
  (enqueue_withoutQueue event priority).mono fun _ => .of_withoutQueue_eq

end Statechart.Instance
