/-
# The queue as a mailbox

What the three kinds of queue have in common is told without cells, cursors and marks. A
`Mailbox` is one place for any event, which an interrupt may take from an event that is none,
or it is one place for an interrupt beside a line for the others, bounded and first come
first served. Interrupts are taken first.

`Instance.mailbox` is the mailbox that an instance stands for. Each operation on the queue of
an instance answers what the mailbox answers and leaves behind an instance that stands for
what is left of the mailbox; the mark for lost events is set if an event is refused
(`Follows`). So a whole sequence of operations on a new instance answers what the empty
mailbox of its tier answers (`performAll_eq_mailbox`).
-/

import Mathlib.Data.List.Perm.Subperm
import Statechart.Proofs.Instance.Waiting

namespace Statechart

/-- One operation on a queue. -/
inductive QueueCall
  | enqueue (event : Event) (priority : Priority)
  | dequeue
  | peek
  | count
  | clear

/-- What an operation on a queue answers. -/
inductive QueueAnswer
  /-- Whether an event was let in. -/
  | accepted (answer : Bool)
  | event (answer : Option Event)
  | number (answer : Nat)
  | done
  deriving DecidableEq

/-- An event queue without cells and cursors. -/
inductive Mailbox
  /-- One place for any event. -/
  | lone (occupant : Option Event)
  /-- One place for an interrupt, and a line of at most `bound` other events. -/
  | split (bound : Nat) (interrupt : Option Event) (line : List Event)
  deriving DecidableEq

namespace Mailbox

/-- The mailbox of a new instance. -/
def empty : Tier → Mailbox
  | .tier64 => .lone none
  | .tier128 => .split 1 none []
  | .tier256 => .split 5 none []

/-- Whether there is a place for an event of this priority. -/
def accepts : Mailbox → Priority → Bool
  | lone none, _ => true
  | lone (some occupant), priority => priority = .interrupt ∧ occupant.priority ≠ .interrupt
  | split bound interrupt line, priority =>
      if priority = .interrupt then interrupt = none else line.length < bound

/-- The mailbox with one event more, which there is a place for. -/
def put : Mailbox → Event → Mailbox
  | lone _, event => lone (some event)
  | split bound interrupt line, event =>
      if event.priority = .interrupt then split bound (some event) line
      else split bound interrupt (line ++ [event])

/-- Put an event in, if there is a place for it. -/
def offer (mailbox : Mailbox) (event : Event) : Bool × Mailbox :=
  if mailbox.accepts event.priority then (true, mailbox.put event) else (false, mailbox)

/-- Put an event in with another priority than its own. -/
def enqueue (mailbox : Mailbox) (event : Event) (priority : Priority) : Bool × Mailbox :=
  mailbox.offer { event with priority }

/-- Take the interrupt out, or else the first event of the line. -/
def dequeue : Mailbox → Option Event × Mailbox
  | lone occupant => (occupant, lone none)
  | split bound (some interrupt) line => (some interrupt, split bound none line)
  | split bound none [] => (none, split bound none [])
  | split bound none (event :: later) => (some event, split bound none later)

/-- The event that would be taken. -/
def peek (mailbox : Mailbox) : Option Event :=
  mailbox.dequeue.1

/-- All events, in the order in which they would be taken. -/
def events : Mailbox → List Event
  | lone occupant => occupant.toList
  | split _ interrupt line => interrupt.toList ++ line

/-- The mailbox without its events. -/
def clear : Mailbox → Mailbox
  | lone _ => lone none
  | split bound _ _ => split bound none []

/-- One operation on a mailbox. -/
def perform (mailbox : Mailbox) : QueueCall → QueueAnswer × Mailbox
  | .enqueue event priority => (mailbox.enqueue event priority).map .accepted id
  | .dequeue => mailbox.dequeue.map .event id
  | .peek => (.event mailbox.peek, mailbox)
  | .count => (.number mailbox.events.length, mailbox)
  | .clear => (.done, mailbox.clear)

/-- Operations on a mailbox, one after the other. -/
def performAll (mailbox : Mailbox) : List QueueCall → List QueueAnswer × Mailbox
  | [] => ([], mailbox)
  | call :: later =>
      let (answer, next) := mailbox.perform call
      (next.performAll later).map (answer :: ·) id

/-- Nothing can be taken only if there is nothing. -/
theorem dequeue_of_none {mailbox : Mailbox} (none : mailbox.dequeue.1 = none) :
    mailbox.events = [] ∧ mailbox.dequeue.2 = mailbox := by
  cases mailbox with
  | lone occupant => cases none; exact ⟨rfl, rfl⟩
  | split bound interrupt line =>
    cases interrupt <;> cases line <;> first | exact ⟨rfl, rfl⟩ | cases none

/-- Taking an event takes the first one. -/
theorem events_of_dequeue {mailbox : Mailbox} {event : Event}
    (taken : mailbox.dequeue.1 = some event) :
    mailbox.events = event :: mailbox.dequeue.2.events := by
  cases mailbox with
  | lone occupant => cases taken; rfl
  | split bound interrupt line =>
    cases interrupt <;> cases line <;> cases taken <;> rfl

/-- An event that is put in joins the others, or the one it takes the place of is gone. -/
theorem events_offer_subperm (mailbox : Mailbox) (event : Event) :
    (mailbox.offer event).2.events.Subperm (event :: mailbox.events) := by
  have refused : mailbox.events.Subperm (event :: mailbox.events) :=
    (List.sublist_cons_self _ _).subperm
  by_cases taken : mailbox.accepts event.priority = true
  · rw [offer, if_pos taken]
    cases mailbox with
    | lone occupant => exact List.singleton_subperm_iff.2 (List.mem_cons_self ..)
    | split bound interrupt line =>
      by_cases interrupts : event.priority = .interrupt
      · have free : interrupt = none := by simpa [accepts, interrupts] using taken
        simp [put, interrupts, events, free, List.Subperm.refl]
      · have behind : (interrupt.toList ++ (line ++ [event])).Perm
            (event :: (interrupt.toList ++ line)) := by
          rw [← List.append_assoc]
          exact List.perm_append_singleton event _
        simpa [put, interrupts, events] using behind.subperm
  · rwa [offer, if_neg taken]

end Mailbox

namespace Instance

variable {inst before after : Instance}

/-! ### What an instance stands for -/

/-- The events in the ring, from its head on. -/
def line (inst : Instance) : List Event :=
  ringEvents inst.cells inst.tier.ringCapacity inst.head.toNat inst.count.toNat

/-- The mailbox that the queue of an instance stands for. -/
def mailbox (inst : Instance) : Mailbox :=
  if inst.tier.hasInterruptCell then
    .split inst.tier.ringCapacity inst.waitingInterrupt.head? inst.line
  else .lone inst.line.head?

theorem mailbox_split (inst : Instance) (hasCell : inst.tier.hasInterruptCell = true) :
    inst.mailbox = .split inst.tier.ringCapacity inst.waitingInterrupt.head? inst.line :=
  if_pos hasCell

theorem mailbox_lone (inst : Instance) (noCell : inst.tier.hasInterruptCell = false) :
    inst.mailbox = .lone inst.line.head? :=
  if_neg (Bool.eq_false_iff.1 noCell)

theorem mailbox_fresh (tier : Tier) (machineId seed : UInt32) :
    (Instance.fresh tier machineId seed).mailbox = .empty tier := by
  cases tier <;> rfl

theorem mailbox_congr (same : after.queue = before.queue) : after.mailbox = before.mailbox := by
  simp only [queue, Instance.ring, Prod.mk.injEq] at same
  simp only [mailbox, waitingInterrupt, line, same]

@[simp]
theorem length_line (inst : Instance) : inst.line.length = inst.count.toNat := by
  simp [line, ringEvents]

@[simp]
theorem length_ringEvents (cells : List Cell) (capacity place count : Nat) :
    (ringEvents cells capacity place count).length = count := by
  simp [ringEvents]

theorem line_of_empty (none : inst.count = 0) : inst.line = [] := by
  simp [line, ringEvents, none]

theorem waitingInterrupt_of_free (free : inst.status.interruptOccupied = false) :
    inst.waitingInterrupt = [] := by
  rw [waitingInterrupt, free]
  cases inst.interruptCell <;> rfl

/-- A tier without a cell for interrupts has one place altogether. -/
theorem ringCapacity_of_noCell {tier : Tier} (noCell : tier.hasInterruptCell = false) :
    tier.ringCapacity = 1 := by
  revert noCell
  cases tier <;> decide

theorem cellEvent_eq {index : UInt8} (inside : index.toNat < inst.tier.ringCapacity) :
    inst.cellEvent index = .ok (eventIn inst.cells index.toNat) := by
  have within := Nat.lt_of_lt_of_le inside inst.ringCapacity_le_length
  simp [cellEvent, eventIn, within]

theorem setCell_eq {index : UInt8} (inside : index.toNat < inst.tier.ringCapacity)
    (event : Event) : inst.setCell index event = .ok { inst with
      cells := inst.cells.set index.toNat ⟨event.toBytes, event.length_toBytes⟩
      length_cells := by rw [List.length_set, inst.length_cells] } :=
  if_pos (Nat.lt_of_lt_of_le inside inst.ringCapacity_le_length)

namespace InLine

/-- The cell for interrupts is there when it is marked. -/
theorem exists_interrupt (inLine : inst.InLine) (occupied : inst.status.interruptOccupied = true) :
    ∃ cell, inst.interruptCell = some cell ∧ inst.waitingInterrupt = [Event.read cell.bytes] := by
  have isSome := inst.isSome_interruptCell.trans (inLine.hasCell occupied)
  obtain ⟨cell, held⟩ := Option.isSome_iff_exists.1 isSome
  exact ⟨cell, held, by rw [waitingInterrupt, held, occupied]⟩

/-- Without a cell for interrupts, none is marked. -/
theorem free (inLine : inst.InLine) (noCell : inst.tier.hasInterruptCell = false) :
    inst.status.interruptOccupied = false :=
  Bool.eq_false_iff.2 fun occupied => Bool.eq_false_iff.1 noCell (inLine.hasCell occupied)

theorem length_waitingInterrupt (inLine : inst.InLine) :
    inst.waitingInterrupt.length = inst.status.interruptOccupied.toNat := by
  cases occupied : inst.status.interruptOccupied with
  | false => simp [waitingInterrupt_of_free occupied]
  | true =>
    obtain ⟨cell, -, held⟩ := inLine.exists_interrupt occupied
    simp [held]

/-- The events of the mailbox are those that wait. -/
theorem events_mailbox (inLine : inst.InLine) : inst.mailbox.events = inst.waiting := by
  have one : inst.waitingInterrupt.length ≤ 1 := by
    rw [inLine.length_waitingInterrupt]
    exact Bool.toNat_le _
  have head {events : List Event} (few : events.length ≤ 1) : events.head?.toList = events := by
    match events, few with
    | [], _ => rfl
    | [_], _ => rfl
  cases hasCell : inst.tier.hasInterruptCell with
  | true =>
    rw [mailbox_split inst hasCell, Mailbox.events, head one]
    rfl
  | false =>
    have few : inst.line.length ≤ 1 := by
      rw [length_line, ← ringCapacity_of_noCell hasCell]
      exact inLine.count_le
    rw [mailbox_lone inst hasCell, Mailbox.events, head few, waiting,
      waitingInterrupt_of_free (inLine.free hasCell)]
    rfl

/-- The first event of a ring that is not empty. -/
theorem line_eq_cons (inLine : inst.InLine) (filled : inst.count ≠ 0) :
    inst.line = eventIn inst.cells inst.head.toNat ::
      ringEvents inst.cells inst.tier.ringCapacity
        ((inst.head.toNat + 1) % inst.tier.ringCapacity) (inst.count - 1).toNat := by
  have some : inst.count.toNat ≠ 0 := fun none => filled (UInt8.toNat_inj.1 none)
  have less : (inst.count - 1).toNat = inst.count.toNat - 1 :=
    UInt8.toNat_sub_of_le _ _ (UInt8.le_iff_toNat_le.2 (Nat.one_le_iff_ne_zero.2 some))
  rw [line, ← ringEvents_succ inLine.head_lt, less, Nat.sub_add_cancel (by omega)]

/-- Dropping the head of the ring drops the first event of the line. -/
theorem dropHead (inLine : inst.InLine) (filled : inst.count ≠ 0) :
    inst.dropHead.InLine ∧
      inst.line = eventIn inst.cells inst.head.toNat :: inst.dropHead.line := by
  have events := inLine.line_eq_cons filled
  have some : inst.count.toNat ≠ 0 := fun none => filled (UInt8.toNat_inj.1 none)
  have less : (inst.count - 1).toNat = inst.count.toNat - 1 :=
    UInt8.toNat_sub_of_le _ _ (UInt8.le_iff_toNat_le.2 (Nat.one_le_iff_ne_zero.2 some))
  have bound := inLine.count_le
  simp only [Instance.dropHead]
  split
  · next last =>
    refine ⟨⟨⟨ringCapacity_pos _, ringCapacity_pos _, Nat.zero_le _⟩, (Nat.zero_mod _).symm,
      inLine.hasCell⟩, ?_⟩
    rw [events, last]
    rfl
  · refine ⟨⟨⟨advance_lt _ _, inLine.tail_lt, ?_⟩, ?_, inLine.hasCell⟩, ?_⟩
    · show (inst.count - 1).toNat ≤ inst.tier.ringCapacity
      omega
    · show inst.tail.toNat =
        (((inst.head + 1) % UInt8.ofNat inst.tier.ringCapacity).toNat + (inst.count - 1).toNat) % _
      rw [toNat_advance _ inLine.head_lt, less, Nat.mod_add_mod, inLine.tail_eq]
      congr 1
      omega
    · rw [events, ← toNat_advance _ inLine.head_lt]
      rfl

end InLine

/-! ### One operation -/

/-- After an operation on the queue of `inst` the cursors are in line. It has answered what is
expected of the mailbox, and the instance stands for the mailbox that is expected. The mark for
lost events is set if it was set before, or if the operation has `refused` an event. -/
structure Follows {Value : Type} (inst : Instance) (expected : Value × Mailbox) (refused : Bool)
    (answer : Value × Instance) : Prop where
  inLine : answer.2.InLine
  agrees : (answer.1, answer.2.mailbox) = expected
  dropped_eq : answer.2.status.queueDropped = (inst.status.queueDropped || refused)

/-- An operation that does not put events in refuses none. -/
theorem Follows.of_kept {Value : Type} {expected : Value × Mailbox} {answer : Value × Instance}
    (inLine : answer.2.InLine) (agrees : (answer.1, answer.2.mailbox) = expected)
    (kept : answer.2.status.queueDropped = inst.status.queueDropped) :
    Follows inst expected false answer :=
  ⟨inLine, agrees, by rw [kept, Bool.or_false]⟩

theorem clearQueue_follows (inst : Instance) :
    Follows inst ((), inst.mailbox.clear) false ((), inst.clearQueue) where
  inLine := ⟨⟨ringCapacity_pos _, ringCapacity_pos _, Nat.zero_le _⟩, (Nat.zero_mod _).symm, nofun⟩
  agrees := by
    have empty : inst.clearQueue.line = [] := line_of_empty rfl
    have free : inst.clearQueue.waitingInterrupt = [] := waitingInterrupt_of_free rfl
    cases hasCell : inst.tier.hasInterruptCell with
    | true =>
      rw [mailbox_split inst hasCell, mailbox_split inst.clearQueue hasCell, empty, free]
      rfl
    | false => rw [mailbox_lone inst hasCell, mailbox_lone inst.clearQueue hasCell, empty]; rfl
  dropped_eq := (Bool.or_false _).symm

namespace InLine

theorem releaseInterrupt (inLine : inst.InLine) : inst.releaseInterrupt.InLine :=
  ⟨inLine.toQueueSound.of_ring_eq rfl, inLine.tail_eq, nofun⟩

/-- What is taken next: the interrupt, or nothing, or the head of the ring. -/
theorem dequeue_cases (inLine : inst.InLine) :
    (∃ cell, inst.interruptCell = some cell ∧ inst.status.interruptOccupied = true ∧
      inst.mailbox.dequeue = (some (Event.read cell.bytes), inst.releaseInterrupt.mailbox)) ∨
    (inst.status.interruptOccupied = false ∧ inst.count = 0 ∧
      inst.mailbox.dequeue = (none, inst.mailbox)) ∨
    (inst.status.interruptOccupied = false ∧ inst.count ≠ 0 ∧
      inst.mailbox.dequeue =
        (some (eventIn inst.cells inst.head.toNat), inst.dropHead.mailbox)) := by
  cases occupied : inst.status.interruptOccupied with
  | true =>
    have hasCell := inLine.hasCell occupied
    obtain ⟨cell, held, interrupt⟩ := inLine.exists_interrupt occupied
    have released : inst.releaseInterrupt.mailbox =
        .split inst.tier.ringCapacity none inst.line := by
      rw [mailbox_split inst.releaseInterrupt hasCell, waitingInterrupt_of_free rfl]
      rfl
    refine .inl ⟨cell, held, rfl, ?_⟩
    rw [mailbox_split inst hasCell, interrupt, released]
    rfl
  | false =>
    have noInterrupt := waitingInterrupt_of_free occupied
    by_cases filled : inst.count = 0
    · refine .inr (.inl ⟨rfl, filled, ?_⟩)
      cases hasCell : inst.tier.hasInterruptCell with
      | true => rw [mailbox_split inst hasCell, noInterrupt, line_of_empty filled]; rfl
      | false => rw [mailbox_lone inst hasCell, line_of_empty filled]; rfl
    · refine .inr (.inr ⟨rfl, filled, ?_⟩)
      have events := (inLine.dropHead filled).2
      have tier : inst.dropHead.tier = inst.tier := by
        simp only [Instance.dropHead]
        split <;> rfl
      have free : inst.dropHead.status.interruptOccupied = false := by
        simp only [Instance.dropHead]
        split <;> exact occupied
      cases hasCell : inst.tier.hasInterruptCell with
      | true =>
        rw [mailbox_split inst hasCell, noInterrupt, events,
          mailbox_split inst.dropHead (tier ▸ hasCell), waitingInterrupt_of_free free,
          tier]
        rfl
      | false =>
        have only : inst.dropHead.line = [] := by
          have few := inLine.count_le
          rw [ringCapacity_of_noCell hasCell, ← length_line, events, List.length_cons] at few
          exact List.length_eq_zero_iff.1 (Nat.le_zero.1 (Nat.le_of_succ_le_succ few))
        rw [mailbox_lone inst hasCell, events, mailbox_lone inst.dropHead (tier ▸ hasCell), only]
        rfl

theorem peek_eq (inLine : inst.InLine) : inst.peek = .ok inst.mailbox.peek := by
  rw [Mailbox.peek]
  rcases inLine.dequeue_cases with ⟨cell, held, occupied, next⟩ | ⟨free, none, next⟩ |
    ⟨free, filled, next⟩
  · rw [next, Instance.peek, held, occupied]
  · simp [next, Instance.peek, free, none]
  · simp [next, Instance.peek, free, filled, cellEvent_eq inLine.head_lt, Except.map]

theorem dequeue_follows (inLine : inst.InLine) :
    Returns inst.dequeue (Follows inst inst.mailbox.dequeue false) := by
  rw [Instance.dequeue, inLine.peek_eq, ok_bind, Mailbox.peek]
  rcases inLine.dequeue_cases with ⟨cell, held, occupied, next⟩ | ⟨free, none, next⟩ |
    ⟨free, filled, next⟩
  · rw [next, occupied]
    exact .pure (.of_kept inLine.releaseInterrupt rfl rfl)
  · rw [next]
    exact .pure (.of_kept inLine rfl rfl)
  · have kept : inst.dropHead.status = inst.status := by
      simp only [Instance.dropHead]
      split <;> rfl
    rw [next, free]
    exact .pure (.of_kept (inLine.dropHead filled).1 rfl (congrArg _ kept))

theorem queueCount_eq (inLine : inst.InLine) :
    inst.queueCount = inst.mailbox.events.length := by
  rw [inLine.events_mailbox, waiting, List.length_append, inLine.length_waitingInterrupt,
    length_ringEvents, queueCount, Nat.add_comm]

end InLine

/-! ### Putting an event in -/

/-- What comes of an event that is put in, up to the mark for lost events. -/
structure Puts (inst : Instance) (event : Event) (answer : Bool × Instance) : Prop where
  inLine : answer.2.InLine
  agrees : (answer.1, answer.2.mailbox) = inst.mailbox.offer event
  kept : answer.2.status.queueDropped = inst.status.queueDropped

namespace InLine

variable {event : Event}

/-- An event without a place changes nothing. -/
theorem refuse (inLine : inst.InLine) (full : inst.mailbox.accepts event.priority = false) :
    inst.Puts event (false, inst) :=
  ⟨inLine, (if_neg (Bool.eq_false_iff.1 full)).symm, rfl⟩

theorem enqueueInterrupt_puts (inLine : inst.InLine)
    (hasCell : inst.tier.hasInterruptCell = true) (interrupts : event.priority = .interrupt) :
    inst.Puts event (inst.enqueueInterrupt event hasCell) := by
  have here := mailbox_split inst hasCell
  unfold enqueueInterrupt
  split
  · next occupied =>
    obtain ⟨cell, -, held⟩ := inLine.exists_interrupt occupied
    apply inLine.refuse
    rw [here, held, interrupts]
    rfl
  · next free =>
    refine ⟨⟨inLine.toQueueSound.of_ring_eq rfl, inLine.tail_eq, fun _ => hasCell⟩, ?_, rfl⟩
    rw [mailbox_split _ (by exact hasCell), here,
      waitingInterrupt_of_free (Bool.eq_false_iff.2 free), waitingInterrupt]
    simp only [Event.read_toBytes, Mailbox.offer, Mailbox.accepts, Mailbox.put, interrupts]
    rfl

theorem enqueueRing_puts (inLine : inst.InLine) (hasCell : inst.tier.hasInterruptCell = true)
    (ordinary : event.priority ≠ .interrupt) :
    Returns (inst.enqueueRing event) (inst.Puts event) := by
  have here := mailbox_split inst hasCell
  simp only [enqueueRing]
  split
  · next full =>
    have most := UInt8.le_iff_toNat_le.1 full
    rw [toNat_ringCapacity] at most
    refine .pure (inLine.refuse ?_)
    simp [here, Mailbox.accepts, ordinary, most]
  · next free =>
    have room : inst.count.toNat < inst.tier.ringCapacity := by
      rw [← toNat_ringCapacity]
      exact UInt8.lt_iff_toNat_lt.1 (UInt8.not_le.1 free)
    have more := toNat_succ inst.tier room
    have added : ringEvents (inst.cells.set inst.tail.toNat ⟨event.toBytes, event.length_toBytes⟩)
        inst.tier.ringCapacity inst.head.toNat (inst.count + 1).toNat = inst.line ++ [event] := by
      rw [more, inLine.tail_eq, ringEvents_set room inst.ringCapacity_le_length, line]
    rw [setCell_eq inLine.tail_lt, ok_bind]
    refine .pure ⟨⟨⟨inLine.head_lt, advance_lt _ _, more ▸ room⟩, ?_, inLine.hasCell⟩, ?_, rfl⟩
    · show ((inst.tail + 1) % UInt8.ofNat inst.tier.ringCapacity).toNat =
        (inst.head.toNat + (inst.count + 1).toNat) % _
      rw [toNat_advance _ inLine.tail_lt, inLine.tail_eq, more, Nat.mod_add_mod, Nat.add_assoc]
    · rw [mailbox_split _ (by exact hasCell), line, added, here]
      simp only [Mailbox.offer, Mailbox.accepts, Mailbox.put, ordinary, length_line, room]
      rfl

theorem enqueueSingle_puts (inLine : inst.InLine) (noCell : inst.tier.hasInterruptCell = false) :
    Returns (inst.enqueueSingle event) (inst.Puts event) := by
  have here := mailbox_lone inst noCell
  have one := ringCapacity_of_noCell noCell
  have head : inst.head.toNat = 0 := Nat.lt_one_iff.1 (one ▸ inLine.head_lt)
  have tail : inst.tail.toNat = 0 := Nat.lt_one_iff.1 (one ▸ inLine.tail_lt)
  have first : (0 : UInt8).toNat < inst.tier.ringCapacity := ringCapacity_pos _
  have filling (taken : inst.mailbox.accepts event.priority = true) : Returns
      (inst.setCell 0 event >>= fun filled => pure (true, { filled with count := 1 }))
      (inst.Puts event) := by
    have only : ringEvents (inst.cells.set ((inst.head.toNat + 0) % inst.tier.ringCapacity)
        ⟨event.toBytes, event.length_toBytes⟩) inst.tier.ringCapacity inst.head.toNat 1 = [event] :=
      ringEvents_set (ringCapacity_pos _) inst.ringCapacity_le_length event
    rw [head, Nat.zero_mod] at only
    rw [setCell_eq first, ok_bind]
    refine .pure
      ⟨⟨⟨inLine.head_lt, inLine.tail_lt, ringCapacity_pos _⟩, ?_, inLine.hasCell⟩, ?_, rfl⟩
    · show inst.tail.toNat = (inst.head.toNat + 1) % inst.tier.ringCapacity
      rw [tail, one, Nat.mod_one]
    · rw [Mailbox.offer, if_pos taken, here, mailbox_lone _ (by exact noCell), line]
      show (true, Mailbox.lone (ringEvents (inst.cells.set 0 _) _ inst.head.toNat 1).head?) = _
      rw [head, only]
      rfl
  unfold enqueueSingle
  split
  · next filled =>
    have some : inst.count ≠ 0 := (UInt8.ne_of_lt filled).symm
    have occupied : inst.mailbox = .lone (.some (eventIn inst.cells 0)) := by
      rw [here, inLine.line_eq_cons some, head, List.head?_cons]
    rw [cellEvent_eq first, ok_bind]
    split
    · next full =>
      refine .pure (inLine.refuse ?_)
      rw [occupied, Mailbox.accepts, decide_eq_false_iff_not]
      exact fun both => full.elim (absurd both.1) both.2
    · next free =>
      apply filling
      rw [occupied, Mailbox.accepts, decide_eq_true_eq]
      exact not_or.1 free |>.imp_left not_not.1
  · next none =>
    apply filling
    have empty : inst.count = 0 := by simpa using none
    rw [here, line_of_empty empty]
    rfl

theorem enqueue_follows (inLine : inst.InLine) (event : Event) (priority : Priority) :
    Returns (inst.enqueue event priority) fun answer =>
      Follows inst (inst.mailbox.enqueue event priority) (!answer.1) answer := by
  have close (answer : Bool × Instance) (puts : inst.Puts { event with priority } answer) :
      Returns
        (if answer.1 = true then pure (true, answer.2)
        else pure (false,
          { answer.2 with status := { answer.2.status with queueDropped := true } }))
        fun answer => Follows inst (inst.mailbox.enqueue event priority) (!answer.1) answer := by
    obtain ⟨accepted, after⟩ := answer
    cases accepted with
    | true => exact .pure (.of_kept puts.inLine puts.agrees puts.kept)
    | false =>
      refine .pure ⟨puts.inLine.of_queue_eq rfl, ?_, (Bool.or_true _).symm⟩
      exact (Prod.ext rfl (mailbox_congr rfl)).trans puts.agrees
  unfold enqueue
  split
  · next hasCell =>
    split
    · next interrupts => exact close _ (inLine.enqueueInterrupt_puts hasCell interrupts)
    · next ordinary => exact (inLine.enqueueRing_puts hasCell ordinary).bind close
  · next noCell => exact (inLine.enqueueSingle_puts (Bool.eq_false_iff.2 noCell)).bind close

end InLine

/-! ### Sequences of operations -/

/-- One operation on the queue of an instance. -/
def perform (inst : Instance) : QueueCall → Except Fault (QueueAnswer × Instance)
  | .enqueue event priority => (inst.enqueue event priority).map (Prod.map .accepted id)
  | .dequeue => inst.dequeue.map (Prod.map .event id)
  | .peek => inst.peek.map fun next => (.event next, inst)
  | .count => .ok (.number inst.queueCount, inst)
  | .clear => .ok (.done, inst.clearQueue)

/-- Operations on the queue of an instance, one after the other. -/
def performAll (inst : Instance) : List QueueCall → Except Fault (List QueueAnswer × Instance)
  | [] => .ok ([], inst)
  | call :: later => do
      let (answer, next) ← inst.perform call
      (next.performAll later).map (Prod.map (answer :: ·) id)

/-- No operation on the queue writes a leaf slot. -/
theorem QueueSound.perform_returns {pledge : Pledge} (sound : inst.QueueSound) (call : QueueCall) :
    Returns (inst.perform call) fun answer => Spares pledge inst answer.2 := by
  cases call with
  | enqueue event priority =>
    exact (sound.enqueue_returns event priority).map fun _ waits => waits.toSpares
  | dequeue => exact sound.dequeue_returns.map fun _ => id
  | peek => exact sound.peek_returns.map fun _ _ => .refl pledge inst
  | count => exact .ok (.refl pledge inst)
  | clear =>
    exact .ok ⟨rfl, fun _ => (inst.clearQueue_follows).inLine.toQueueSound, id⟩

/-- Answers can be written differently, as long as they tell what is refused. -/
theorem Follows.map {Value Other : Type} {expected : Value × Mailbox} {refused : Bool}
    {answer : Value × Instance} (follows : Follows inst expected refused answer)
    (change : Value → Other) :
    Follows inst (expected.map change id) refused (answer.map change id) :=
  ⟨follows.inLine, congrArg (Prod.map change id) follows.agrees, follows.dropped_eq⟩

namespace InLine

theorem perform_follows (inLine : inst.InLine) (call : QueueCall) :
    Returns (inst.perform call) fun answer =>
      Follows inst (inst.mailbox.perform call) (answer.1 = .accepted false) answer := by
  cases call with
  | enqueue event priority =>
    refine (inLine.enqueue_follows event priority).map fun answer follows => ?_
    have same : (!answer.1) = decide (QueueAnswer.accepted answer.1 = .accepted false) := by
      cases answer.1 <;> rfl
    exact same ▸ follows.map QueueAnswer.accepted
  | dequeue => exact inLine.dequeue_follows.map fun _ follows => follows.map QueueAnswer.event
  | peek =>
    rw [perform, inLine.peek_eq]
    exact .ok (.of_kept inLine rfl rfl)
  | count =>
    rw [perform, inLine.queueCount_eq]
    exact .ok (.of_kept inLine rfl rfl)
  | clear => exact .ok (inst.clearQueue_follows.map fun _ => QueueAnswer.done)

theorem performAll_follows (inLine : inst.InLine) (calls : List QueueCall) :
    Returns (inst.performAll calls) fun answer =>
      Follows inst (inst.mailbox.performAll calls) (.accepted false ∈ answer.1) answer := by
  induction calls generalizing inst with
  | nil => exact .ok (.of_kept inLine rfl rfl)
  | cons call later ih =>
    apply (inLine.perform_follows call).bind
    intro first one
    refine (ih one.inLine).map fun rest others => ⟨others.inLine, ?_, ?_⟩
    · have agrees := congrArg (Prod.map (first.1 :: ·) id) others.agrees
      rw [Mailbox.performAll, ← one.agrees]
      exact agrees
    · rw [Prod.map_snd, id, others.dropped_eq, one.dropped_eq, Bool.or_assoc]
      congr 1
      simp [eq_comm]

end InLine

/-- Whatever is done with the queue of a new instance, or of one that was reset, it answers
what the mailbox of its tier answers, and in the end an event has been lost if and only if one
was refused. -/
theorem performAll_eq_mailbox (tier : Tier) (machineId seed : UInt32) (generation : UInt16)
    (calls : List QueueCall) :
    let start := { Instance.fresh tier machineId seed with generation }
    Returns (start.performAll calls) fun answer =>
      (answer.1, answer.2.mailbox) = (Mailbox.empty tier).performAll calls ∧
        (answer.2.status.queueDropped = true ↔ .accepted false ∈ answer.1) := by
  intro start
  have inLine : start.InLine := (InLine.fresh tier machineId seed).of_queue_eq rfl
  have opened : start.mailbox = .empty tier :=
    (mailbox_congr rfl).trans (mailbox_fresh tier machineId seed)
  refine (inLine.performAll_follows calls).mono fun answer follows => ?_
  rw [opened] at follows
  have unmarked : start.status.queueDropped = false := rfl
  exact ⟨follows.agrees, by simp [follows.dropped_eq, unmarked]⟩

/-! ### Events that wait -/

/-- An event joins those that wait, or some of them. -/
structure Joins (event : Event) (before after : Instance) : Prop where
  inLine : after.InLine
  subperm : after.waiting.Subperm (event :: before.waiting)

namespace InLine

/-- Taking an event out of the queue takes the first one that waits. -/
theorem dequeue_yields (inLine : inst.InLine) : Yields inst.dequeue fun answer =>
    answer.2.InLine ∧
      ∀ event, answer.1 = some event → inst.waiting = event :: answer.2.waiting := by
  refine inLine.dequeue_follows.yields.mono fun answer follows => ⟨follows.inLine, ?_⟩
  intro event taken
  rw [← inLine.events_mailbox, ← follows.inLine.events_mailbox]
  have agrees := follows.agrees
  rw [taken] at agrees
  rw [Mailbox.events_of_dequeue (congrArg Prod.fst agrees).symm, ← agrees]

/-- An event that is put into the queue joins those that wait, or some of them. -/
theorem enqueue_yields (inLine : inst.InLine) (event : Event) (priority : Priority) :
    Yields (inst.enqueue event priority) fun answer =>
      Joins { event with priority } inst answer.2 := by
  refine (inLine.enqueue_follows event priority).yields.mono fun answer follows =>
    ⟨follows.inLine, ?_⟩
  have left : answer.2.mailbox = (inst.mailbox.enqueue event priority).2 :=
    congrArg Prod.snd follows.agrees
  rw [← inLine.events_mailbox, ← follows.inLine.events_mailbox, left]
  exact inst.mailbox.events_offer_subperm { event with priority }

end InLine

end Instance

end Statechart
