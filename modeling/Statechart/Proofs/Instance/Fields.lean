/-
# Fields of their own

Besides its queue an instance has fields and slots, each in its own bytes of the image. Writing
one of them is writing these bytes and no other ones (`write_returns`), and no other field, nor an
event that waits, is read differently afterwards (`write_yields`).

Queueing is told for any cursors that are in line, also if an interrupt is marked where there is no
cell for it: then the mark is what goes first, and the event is kept (`Aligned.dequeue_waiting`).

Starting over leaves the image of a new instance, whatever was there before, with the next
generation written into it. The main result is `fields_independent`.
-/

import Statechart.Proofs.Instance.Image
import Statechart.Proofs.Instance.Mailbox

namespace Statechart

/-- Where an event that is put in has its place: between others that stay, or in the place of the
only one there was. -/
theorem Mailbox.events_put_of_accepts (mailbox : Mailbox) (event : Event)
    (taken : mailbox.accepts event.priority = true) :
    ∃ front back, (mailbox.put event).events = front ++ event :: back ∧
      (front ++ back = mailbox.events ∨
        front ++ back = [] ∧ ∃ occupant, mailbox = .lone (some occupant)) := by
  cases mailbox with
  | lone occupant =>
    refine ⟨[], [], rfl, ?_⟩
    cases occupant with
    | none => exact .inl rfl
    | some occupant => exact .inr ⟨rfl, occupant, rfl⟩
  | split bound interrupt line =>
    by_cases interrupts : event.priority = .interrupt
    · have free : interrupt = none := by simpa [accepts, interrupts] using taken
      exact ⟨[], line, by simp [put, interrupts, events], .inl (by simp [events, free])⟩
    · exact ⟨interrupt.toList ++ line, [], by simp [put, interrupts, events],
        .inl (by simp [events])⟩

/-- Taking an event out takes the first one and leaves the others. -/
theorem Mailbox.dequeue_eq (mailbox : Mailbox) :
    (mailbox.dequeue.1, mailbox.dequeue.2.events) =
      (mailbox.events.head?, mailbox.events.tail) := by
  rcases mailbox with (_ | occupant) | ⟨_, _ | interrupt, _ | ⟨first, later⟩⟩ <;> rfl

namespace Instance

variable {tier : Tier}

/-! ### Fields -/

/-- What an instance holds besides its queue. -/
inductive Field (tier : Tier)
  | machineId
  | generation
  | status
  | phase
  | microStep
  | seed
  | leaf (slot : Fin tier.leafCapacity)
  | timer (slot : Fin tier.timerCapacity)
  | history (slot : Fin tier.historyCapacity)
  deriving DecidableEq

/-- What a field holds. -/
inductive Content
  | byte (byte : UInt8)
  | word16 (word : UInt16)
  | word32 (word : UInt32)
  deriving DecidableEq

/-- The stored form. -/
@[simp]
def Content.toBytes : Content → Bytes
  | byte value => [value]
  | word16 word => Bytes.ofWord16 word
  | word32 word => Bytes.ofWord32 word

/-- Where a field lies. -/
@[simp]
def Field.offset : Field tier → Nat
  | machineId => 0
  | generation => 4
  | status => 6
  | phase => 7
  | microStep => 8
  | seed => 12
  | leaf slot => tier.leafOffset + 2 * slot
  | timer slot => tier.timerOffset + 4 * slot
  | history slot => tier.historyOffset + 2 * slot

/-- What a field of an instance holds. -/
def get (inst : Instance) : Field tier → Except Fault Content
  | .machineId => .ok (.word32 inst.machineId)
  | .generation => .ok (.word16 inst.generation)
  | .status => .ok (.byte inst.status.toByte)
  | .phase => .ok (.byte inst.phaseByte)
  | .microStep => .ok (.byte inst.microStep)
  | .seed => .ok (.word32 inst.seed)
  | .leaf slot => (inst.leaf slot).map .word16
  | .timer slot => (inst.timer slot).map .word32
  | .history slot => (inst.historyAt slot).map .word16

/-- The ways in which a host writes a field. The status is not among them: its marks are set and
removed one by one. -/
inductive Write (tier : Tier)
  | machineId (id : UInt32)
  | generation (number : UInt16)
  | phase (phase : Phase)
  | microStep (step : UInt8)
  | seed (seed : UInt32)
  | leaf (slot : Fin tier.leafCapacity) (state : UInt16)
  | timer (slot : Fin tier.timerCapacity) (remaining : UInt32)
  | history (slot : Fin tier.historyCapacity) (state : UInt16)

namespace Write

/-- The field that is written. -/
@[simp]
def field : Write tier → Field tier
  | machineId _ => .machineId
  | generation _ => .generation
  | phase _ => .phase
  | microStep _ => .microStep
  | seed _ => .seed
  | leaf slot _ => .leaf slot
  | timer slot _ => .timer slot
  | history slot _ => .history slot

/-- What is written. -/
@[simp]
def content : Write tier → Content
  | machineId id => .word32 id
  | generation number => .word16 number
  | phase next => .byte next.toByte
  | microStep step => .byte step
  | seed start => .word32 start
  | leaf _ state => .word16 state
  | timer _ remaining => .word32 remaining
  | history _ state => .word16 state

end Write

/-- Write a field of an instance. -/
def write (inst : Instance) : Write tier → Except Fault Instance
  | .machineId id => .ok { inst with machineId := id }
  | .generation number => .ok { inst with generation := number }
  | .phase phase => .ok (inst.withPhase phase)
  | .microStep step => .ok { inst with microStep := step }
  | .seed seed => .ok { inst with seed }
  | .leaf slot state => inst.setLeaf slot state
  | .timer slot remaining => inst.setTimer slot remaining
  | .history slot state => inst.setHistory slot state

/-! ### Writing a field -/

variable (inst : Instance)

/-- The bytes behind the header. -/
def behindHeader : Bytes :=
  inst.leaves.flatMap Bytes.ofWord16 ++ (inst.timers.flatMap Bytes.ofWord32 ++
    (inst.history.flatMap Bytes.ofWord16 ++ (inst.interruptCell.toList.flatMap Block.bytes ++
      (inst.cells.flatMap Block.bytes ++ inst.spare))))

theorem toBytes_eq_header : inst.toBytes = inst.header ++ inst.behindHeader := by
  rw [toBytes_eq_leaves, behindHeader, List.append_assoc]

/-- A field of the header is written if its bytes there are. -/
theorem toBytes_of_header {after : Instance} {offset : Nat} {part : Bytes}
    (inside : offset + part.length ≤ 16) (behind : after.behindHeader = inst.behindHeader)
    (written : after.header = inst.header.overwrite offset part) :
    after.toBytes = inst.toBytes.overwrite offset part := by
  rw [toBytes_eq_header, behind, written, toBytes_eq_header inst,
    Bytes.overwrite_append inst.header inside]

/-- Writing a field works, and changes the bytes of the image where the field lies. -/
theorem write_returns (write : Write inst.tier) :
    Returns (inst.write write) fun after => after.tier = inst.tier ∧
      after.toBytes = inst.toBytes.overwrite write.field.offset write.content.toBytes := by
  cases write with
  | machineId id => exact .ok ⟨rfl, inst.toBytes_of_header (by simp) rfl rfl⟩
  | generation number => exact .ok ⟨rfl, inst.toBytes_of_header (by simp) rfl rfl⟩
  | phase phase => exact .ok ⟨rfl, inst.toBytes_of_header (by simp) rfl rfl⟩
  | microStep step => exact .ok ⟨rfl, inst.toBytes_of_header (by simp) rfl rfl⟩
  | seed seed => exact .ok ⟨rfl, inst.toBytes_of_header (by simp) rfl rfl⟩
  | leaf slot state =>
    have inside : slot.val < inst.leaves.length := inst.length_leaves.symm ▸ slot.isLt
    rw [Instance.write, setLeaf, if_pos inside]
    refine .ok ⟨rfl, ?_⟩
    rw [toBytes_eq_leaves, toBytes_eq_leaves inst]
    exact (Bytes.overwrite_entry Bytes.length_ofWord16 inst.length_header inside state _).symm
  | timer slot remaining =>
    have inside : slot.val < inst.timers.length := inst.length_timers.symm ▸ slot.isLt
    rw [Instance.write, setTimer, if_pos inside]
    refine .ok ⟨rfl, ?_⟩
    rw [toBytes_eq_timers, toBytes_eq_timers inst]
    exact (Bytes.overwrite_entry Bytes.length_ofWord32 inst.length_beforeTimers inside
      remaining _).symm
  | history slot state =>
    have inside : slot.val < inst.history.length := inst.length_history.symm ▸ slot.isLt
    rw [Instance.write, setHistory, if_pos inside]
    refine .ok ⟨rfl, ?_⟩
    rw [toBytes_eq_history, toBytes_eq_history inst]
    exact (Bytes.overwrite_entry Bytes.length_ofWord16 inst.length_beforeHistory inside
      state _).symm

variable {inst}

/-- In a slot that was written there is what was written. -/
theorem slot_set_self {Value : Type} {kind : SlotKind} {slots : List Value} {index : Nat}
    (inside : index < slots.length) (value : Value) :
    slot kind (slots.set index value) index = .ok value := by
  rw [slot, List.getElem?_set_self inside]

/-- The other slots hold what they held. -/
theorem slot_set_ne {Value : Type} {kind : SlotKind} {slots : List Value} {index other : Nat}
    (apart : index ≠ other) (value : Value) :
    slot kind (slots.set index value) other = slot kind slots other := by
  rw [slot, List.getElem?_set_ne apart, slot]

/-- A field that was written holds what was written. The other ones and the queue are as before. -/
theorem write_yields (write : Write tier) : Yields (inst.write write) fun after =>
    after.get write.field = .ok write.content ∧
      (∀ other, other ≠ write.field → after.get other = inst.get other) ∧
      after.queue = inst.queue := by
  cases write with
  | leaf slot state =>
    apply (setLeaf_yields state).mono
    rintro after ⟨inside, rfl⟩
    refine ⟨?_, fun other apart => ?_, rfl⟩
    · exact congrArg (Except.map Content.word16) (slot_set_self inside state)
    · cases other with
      | leaf beside =>
        have distinct : slot.val ≠ beside.val := fun same =>
          apart (congrArg Field.leaf (Fin.ext same.symm))
        exact congrArg (Except.map Content.word16) (slot_set_ne distinct state)
      | _ => rfl
  | timer slot remaining =>
    apply (setTimer_yields remaining).mono
    rintro after ⟨inside, rfl⟩
    refine ⟨?_, fun other apart => ?_, rfl⟩
    · exact congrArg (Except.map Content.word32) (slot_set_self inside remaining)
    · cases other with
      | timer beside =>
        have distinct : slot.val ≠ beside.val := fun same =>
          apart (congrArg Field.timer (Fin.ext same.symm))
        exact congrArg (Except.map Content.word32) (slot_set_ne distinct remaining)
      | _ => rfl
  | history slot state =>
    apply (setHistory_yields state).mono
    rintro after ⟨inside, rfl⟩
    refine ⟨?_, fun other apart => ?_, rfl⟩
    · exact congrArg (Except.map Content.word16) (slot_set_self inside state)
    · cases other with
      | history beside =>
        have distinct : slot.val ≠ beside.val := fun same =>
          apart (congrArg Field.history (Fin.ext same.symm))
        exact congrArg (Except.map Content.word16) (slot_set_ne distinct state)
      | _ => rfl
  | _ =>
    refine .ok ⟨rfl, fun other apart => ?_, rfl⟩
    cases other <;> first | rfl | exact absurd rfl apart

/-! ### Queueing -/

/-- The ring's cursors lie within the ring, and its tail is behind its last event. -/
structure Aligned (inst : Instance) : Prop extends QueueSound inst where
  tail_eq : inst.tail.toNat = (inst.head.toNat + inst.count.toNat) % inst.tier.ringCapacity

/-- No field but the status is read differently, and of the status no mark but those that belong to
the queue. -/
structure Spared (tier : Tier) (before after : Instance) : Prop where
  get_eq : ∀ field : Field tier, field ≠ .status → after.get field = before.get field
  status_eq : after.status = { before.status with
    interruptOccupied := after.status.interruptOccupied
    queueDropped := after.status.queueDropped }

theorem Spared.of_withoutQueue_eq {before after : Instance}
    (same : after.withoutQueue = before.withoutQueue) : Spared tier before after where
  get_eq field other := by
    have got := congrArg (fun inst : Instance => inst.get field) same
    cases field <;> first | exact got | exact absurd rfl other
  status_eq := by
    have marks := congrArg Instance.status same
    simp only [withoutQueue, Status.mk.injEq] at marks
    show Status.mk after.status.rtcOverflow after.status.leafOverflow _ _
      after.status.unassigned = _
    rw [marks.1, marks.2.1, marks.2.2.2.2]

/-- An interrupt is marked, but there is no cell for one. -/
def Stray (inst : Instance) : Prop :=
  inst.status.interruptOccupied = true ∧ inst.tier.hasInterruptCell = false

instance (inst : Instance) : Decidable inst.Stray :=
  inferInstanceAs (Decidable (_ ∧ _))

/-! ### Marks without a cell

Where there is no cell for interrupts, the mark of one has no part in the queue. -/

theorem setCell_releaseInterrupt (index : UInt8) (event : Event) :
    inst.releaseInterrupt.setCell index event =
      (inst.setCell index event).map releaseInterrupt := by
  by_cases inside : index.toNat < inst.cells.length
  · rw [setCell, setCell, if_pos inside, if_pos (by exact inside)]
    rfl
  · rw [setCell, setCell, if_neg inside, if_neg (by exact inside)]
    rfl

theorem enqueueSingle_releaseInterrupt (event : Event) :
    inst.releaseInterrupt.enqueueSingle event =
      (inst.enqueueSingle event).map (Prod.map id releaseInterrupt) := by
  have filling : (inst.releaseInterrupt.setCell 0 event >>= fun filled =>
        pure (true, { filled with count := 1 })) =
      Except.map (Prod.map id releaseInterrupt) (inst.setCell 0 event >>= fun filled =>
        (pure (true, { filled with count := 1 }) : Except Fault (Bool × Instance))) := by
    rw [setCell_releaseInterrupt]
    cases inst.setCell 0 event <;> rfl
  unfold enqueueSingle
  by_cases filled : inst.count > 0
  · rw [if_pos filled, if_pos (by exact filled)]
    show (inst.cellEvent 0 >>= _) = _
    cases inst.cellEvent 0 with
    | error fault => rfl
    | ok occupant =>
      rw [ok_bind, ok_bind]
      split
      · rfl
      · exact filling
  · rw [if_neg filled, if_neg (by exact filled)]
    exact filling

section NoCell

variable (noCell : inst.tier.hasInterruptCell = false)

include noCell

theorem interruptCell_of_noCell : inst.interruptCell = none := by
  rw [← Option.not_isSome_iff_eq_none, inst.isSome_interruptCell, noCell]
  decide

theorem waiting_releaseInterrupt : inst.releaseInterrupt.waiting = inst.waiting := by
  have none := interruptCell_of_noCell noCell
  have noneToo : inst.releaseInterrupt.interruptCell = .none := none
  rw [waiting, waiting, waitingInterrupt, waitingInterrupt, none, noneToo]
  rfl

theorem mailbox_releaseInterrupt : inst.releaseInterrupt.mailbox = inst.mailbox := by
  rw [mailbox_lone _ noCell, mailbox_lone inst.releaseInterrupt noCell]
  rfl

theorem peek_releaseInterrupt : inst.releaseInterrupt.peek = inst.peek := by
  have none := interruptCell_of_noCell noCell
  have noneToo : inst.releaseInterrupt.interruptCell = .none := none
  rw [peek, peek, none, noneToo]
  rfl

theorem enqueue_releaseInterrupt (event : Event) (priority : Priority) :
    inst.releaseInterrupt.enqueue event priority =
      (inst.enqueue event priority).map (Prod.map id releaseInterrupt) := by
  have single : ¬ inst.tier.hasInterruptCell = true := Bool.eq_false_iff.1 noCell
  unfold enqueue
  rw [dif_neg single, dif_neg (by exact single), enqueueSingle_releaseInterrupt]
  rcases inst.enqueueSingle { event with priority } with fault | ⟨_ | _, after⟩ <;> rfl

end NoCell

/-! ### Events that stay -/

namespace Aligned

theorem inLine (aligned : inst.Aligned) (proper : ¬ inst.Stray) : inst.InLine where
  toQueueSound := aligned.toQueueSound
  tail_eq := aligned.tail_eq
  hasCell occupied := Bool.of_not_eq_false fun noCell => proper ⟨occupied, noCell⟩

theorem releaseInterrupt (aligned : inst.Aligned) : inst.releaseInterrupt.InLine where
  toQueueSound := aligned.toQueueSound.of_ring_eq rfl
  tail_eq := aligned.tail_eq
  hasCell := nofun

theorem events_mailbox (aligned : inst.Aligned) : inst.mailbox.events = inst.waiting := by
  by_cases stray : inst.Stray
  · rw [← mailbox_releaseInterrupt stray.2, ← waiting_releaseInterrupt stray.2]
    exact aligned.releaseInterrupt.events_mailbox
  · exact (aligned.inLine stray).events_mailbox

/-- The events that wait after an event was offered are those of the mailbox. -/
theorem enqueue_agrees (aligned : inst.Aligned) (event : Event) (priority : Priority) :
    Returns (inst.enqueue event priority) fun answer =>
      (answer.1, answer.2.waiting) =
        (inst.mailbox.enqueue event priority).map id Mailbox.events := by
  by_cases stray : inst.Stray
  · obtain ⟨answer, ran, follows⟩ := aligned.releaseInterrupt.enqueue_follows event priority
    rw [enqueue_releaseInterrupt stray.2] at ran
    have slots : Yields (inst.enqueue event priority) _ := enqueue_sameSlots event priority
    cases same : inst.enqueue event priority with
    | error fault =>
      rw [same] at ran
      cases ran
    | ok given =>
      rw [same] at ran
      cases ran
      have noCell : given.2.tier.hasInterruptCell = false := by
        rw [(slots.of_eq given same).tier_eq, stray.2]
      refine .ok ?_
      rw [← mailbox_releaseInterrupt stray.2, ← follows.agrees, Prod.map_apply, id,
        follows.inLine.events_mailbox]
      exact congrArg (Prod.mk given.1) (waiting_releaseInterrupt noCell).symm
  · refine ((aligned.inLine stray).enqueue_follows event priority).mono fun answer follows => ?_
    rw [← follows.agrees, Prod.map_apply, follows.inLine.events_mailbox, id]

/-- An event that is put in has its place between those that wait, or takes the only place there
is. An event that is refused changes nothing about those that wait. -/
theorem enqueue_waiting (aligned : inst.Aligned) (event : Event) (priority : Priority) :
    Returns (inst.enqueue event priority) fun answer =>
      if answer.1 then
        ∃ front back, answer.2.waiting = front ++ { event with priority } :: back ∧
          (front ++ back = inst.waiting ∨
            front ++ back = [] ∧ inst.tier.hasInterruptCell = false)
      else answer.2.waiting = inst.waiting := by
  refine (aligned.enqueue_agrees event priority).mono fun answer agrees => ?_
  by_cases taken : inst.mailbox.accepts priority = true
  · have offered : inst.mailbox.enqueue event priority = (true, inst.mailbox.put _) :=
      if_pos taken
    rw [offered] at agrees
    obtain ⟨accepted, waiting⟩ : answer.1 = true ∧ answer.2.waiting = _ := Prod.mk.inj agrees
    rw [if_pos accepted, waiting, ← aligned.events_mailbox]
    obtain ⟨front, back, put, stay⟩ :=
      inst.mailbox.events_put_of_accepts { event with priority } taken
    refine ⟨front, back, put, stay.imp_right fun ⟨gone, occupant, lone⟩ => ⟨gone, ?_⟩⟩
    cases hasCell : inst.tier.hasInterruptCell with
    | false => rfl
    | true => cases (mailbox_split inst hasCell).symm.trans lone
  · have offered : inst.mailbox.enqueue event priority = (false, inst.mailbox) := if_neg taken
    rw [offered] at agrees
    obtain ⟨refused, waiting⟩ : answer.1 = false ∧ answer.2.waiting = _ := Prod.mk.inj agrees
    rw [if_neg (Bool.eq_false_iff.1 refused), waiting]
    exact aligned.events_mailbox

/-- What is taken is the first event that waits. The others stay, and so does this one if there is
a mark to take away first. -/
theorem dequeue_waiting (aligned : inst.Aligned) : Returns inst.dequeue fun answer =>
    answer.1 = inst.waiting.head? ∧
      answer.2.waiting = if inst.Stray then inst.waiting else inst.waiting.tail := by
  obtain ⟨first, others⟩ := Prod.mk.inj inst.mailbox.dequeue_eq
  rw [aligned.events_mailbox] at first others
  by_cases stray : inst.Stray
  · have next : inst.peek = .ok inst.waiting.head? := by
      rw [← peek_releaseInterrupt stray.2, aligned.releaseInterrupt.peek_eq,
        mailbox_releaseInterrupt stray.2, Mailbox.peek, first]
    rw [dequeue, next, ok_bind, if_pos stray]
    cases inst.waiting.head? with
    | none => exact .pure ⟨rfl, rfl⟩
    | some event =>
      show Returns (if _ then _ else _) _
      rw [if_pos stray.1]
      exact .pure ⟨rfl, waiting_releaseInterrupt stray.2⟩
  · refine (aligned.inLine stray).dequeue_follows.mono fun answer follows => ?_
    rw [if_neg stray, ← first, ← others, ← follows.agrees]
    exact ⟨rfl, follows.inLine.events_mailbox.symm⟩

end Aligned

theorem waiting_clearQueue (inst : Instance) : inst.clearQueue.waiting = [] := by
  rw [waiting, waitingInterrupt_of_free rfl]
  rfl

/-! ### Buffers -/

/-- What an instance comes to is also read from its image. -/
theorem read_toBytes_of_tier {after : Instance} (same : after.tier = tier) :
    read tier after.toBytes = after := by
  rw [← same, read_toBytes]

theorem read_toBytes_of_withoutQueue {before after : Instance}
    (same : after.withoutQueue = before.withoutQueue) (is : before.tier = tier) :
    read tier after.toBytes = after :=
  read_toBytes_of_tier ((SameSlots.of_withoutQueue_eq same).tier_eq.trans is)

/-- Starting over is starting anew and counting up the generation. -/
theorem toBytes_with_generation (inst : Instance) (generation : UInt16) :
    { inst with generation }.toBytes = inst.toBytes.overwrite 4 (Bytes.ofWord16 generation) :=
  inst.toBytes_of_header (by simp) rfl rfl

/-- The fields of an instance are independent of each other and of the queue, whatever bytes it is
read from.

* A field that is written reads as written, and nothing else reads differently: no other field, and
  nothing of the queue. In the buffer the bytes of the field are written and no other ones.
* If the cursors are in line, queueing changes no field but the two marks that belong to the queue,
  and the events that stay wait in the same order as before.
* Starting over leaves the bytes of a new instance, but for the generation. -/
theorem fields_independent {bytes : Bytes} (whole : bytes.length = tier.size) :
    let inst := read tier bytes
    (∀ write : Write tier,
      let buffer := bytes.overwrite write.field.offset write.content.toBytes
      let after := read tier buffer
      inst.write write = .ok after ∧ after.toBytes = buffer ∧
        after.get write.field = .ok write.content ∧
        (∀ next, write = .phase next → after.phase? = some next) ∧
        (∀ other, other ≠ write.field → after.get other = inst.get other) ∧
        after.queue = inst.queue ∧ after.waiting = inst.waiting) ∧
    (inst.Aligned →
      (∀ event priority, Returns (inst.enqueue event priority) fun (accepted, after) =>
        read tier after.toBytes = after ∧ Spared tier inst after ∧
          if accepted then
            ∃ front back, after.waiting = front ++ { event with priority } :: back ∧
              (front ++ back = inst.waiting ∨ front ++ back = [] ∧ tier.hasInterruptCell = false)
          else after.waiting = inst.waiting) ∧
      (Returns inst.dequeue fun (taken, after) =>
        read tier after.toBytes = after ∧ Spared tier inst after ∧ taken = inst.waiting.head? ∧
          after.waiting = if inst.Stray then inst.waiting else inst.waiting.tail) ∧
      let after := inst.clearQueue
      read tier after.toBytes = after ∧ Spared tier inst after ∧ after.waiting = []) ∧
    inst.reset.toBytes = (fresh tier inst.machineId inst.seed).toBytes.overwrite 4
      (Bytes.ofWord16 (inst.generation + 1)) ∧
    ∀ id, (inst.hardReset id).toBytes = (fresh tier id 0).toBytes.overwrite 4
      (Bytes.ofWord16 (inst.generation + 1)) := by
  intro inst
  refine ⟨fun write => ?_, fun aligned => ⟨fun event priority => ?_, ?_, ?_⟩,
    toBytes_with_generation _ _, fun id => toBytes_with_generation _ _⟩
  · obtain ⟨after, written, same, image⟩ := inst.write_returns write
    rw [show inst.toBytes = bytes from toBytes_read whole] at image
    obtain ⟨reads, others, queue⟩ := (write_yields write).of_eq after written
    intro buffer
    have again : read tier buffer = after := by
      rw [show buffer = after.toBytes from image.symm]
      exact read_toBytes_of_tier same
    intro now
    rw [show now = after from again]
    refine ⟨written, image, reads, ?_, others, queue, waiting_congr queue⟩
    rintro next rfl
    cases written
    exact Phase.ofByte?_toByte next
  · refine ((aligned.enqueue_waiting event priority).and (enqueue_withoutQueue event priority)).mono
      fun answer both => ?_
    exact ⟨read_toBytes_of_withoutQueue both.2 rfl, .of_withoutQueue_eq both.2, both.1⟩
  · refine (aligned.dequeue_waiting.and dequeue_withoutQueue).mono fun answer both => ?_
    exact ⟨read_toBytes_of_withoutQueue both.2 rfl, .of_withoutQueue_eq both.2, both.1⟩
  · have same : inst.clearQueue.withoutQueue = inst.withoutQueue := rfl
    exact ⟨read_toBytes_of_withoutQueue same rfl, .of_withoutQueue_eq same, waiting_clearQueue inst⟩

/-- In the buffer of a new instance the second leaf is written, and the first one is not. -/
theorem fields_independent_fresh :
    let bytes := (fresh .tier64 7 9).toBytes
    let buffer := bytes.overwrite 18 (Bytes.ofWord16 3)
    let leaf (slot : Fin 2) : Field .tier64 := .leaf slot
    bytes.length = Tier.tier64.size ∧ (read .tier64 bytes).Aligned ∧
      (read .tier64 buffer).get (leaf 1) = .ok (.word16 3) ∧
      (read .tier64 buffer).get (leaf 0) = (read .tier64 bytes).get (leaf 0) ∧
      Returns (read .tier64 bytes).dequeue fun answer => answer.1 = none := by
  intro bytes buffer leaf
  have whole : bytes.length = Tier.tier64.size := rfl
  have aligned : (read .tier64 bytes).Aligned :=
    ⟨⟨by decide, by decide, by decide⟩, by decide⟩
  obtain ⟨writing, queueing, -⟩ := fields_independent whole
  let second : Fin Tier.tier64.leafCapacity := (1 : Fin 2)
  obtain ⟨-, -, reads, -, others, -⟩ := writing (.leaf second 3)
  refine ⟨whole, aligned, reads, others (leaf 0) (by decide), ?_⟩
  refine (queueing aligned).2.1.mono fun answer taken => ?_
  rw [taken.2.2.1]
  rfl

end Instance

end Statechart
