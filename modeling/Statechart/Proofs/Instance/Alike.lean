/-
# Instances of two tiers

A machine can run in any tier with room for it. Two instances of different tiers are `Alike` if
they agree in what both have room for, and the larger one has nothing in the slots that only it has.
The mailbox of the larger one is that of the smaller one, widened: its events wait in the same
order, and there are more places for others.

What finds a place in a mailbox also finds one in the wider mailbox, and if no other event has to
make way for it, both mailboxes have the same events afterwards (`Mailbox.offer_widen`). So an event
that the smaller instance takes in is taken in by the larger one, and both stay alike.
-/

import Statechart.Proofs.Instance.Leaves
import Statechart.Proofs.Instance.Mailbox
import Statechart.Proofs.Tracks

namespace Statechart

open Rom (noIndex)

/-! ### Wider mailboxes -/

namespace Mailbox

variable {mailbox : Mailbox} {event : Event} {bound : Nat}

/-- The mailbox with a place of its own for interrupts, and a line of at most `bound` others. -/
def widen (bound : Nat) : Mailbox → Mailbox
  | lone none => split bound none []
  | lone (some occupant) => (split bound none []).put occupant
  | split _ interrupt line => split bound interrupt line

/-- How many events can wait that are no interrupts. -/
def places : Mailbox → Nat
  | lone _ => 1
  | split bound _ _ => bound

/-- No event has to make way for another one. -/
def Spacious : Mailbox → Prop
  | lone occupant => occupant = none
  | split .. => True

@[simp]
theorem events_widen (mailbox : Mailbox) (bound : Nat) :
    (mailbox.widen bound).events = mailbox.events := by
  rcases mailbox with (_ | occupant) | ⟨_, interrupt, line⟩
  · rfl
  · by_cases interrupts : occupant.priority = .interrupt <;> simp [widen, put, interrupts, events]
  · rfl

theorem dequeue_widen (mailbox : Mailbox) (bound : Nat) :
    (mailbox.widen bound).dequeue = (mailbox.dequeue.1, mailbox.dequeue.2.widen bound) := by
  rcases mailbox with (_ | occupant) | ⟨_, _ | interrupt, _ | ⟨first, later⟩⟩
  · rfl
  · by_cases interrupts : occupant.priority = .interrupt <;>
      simp [widen, put, interrupts, dequeue]
  all_goals rfl

/-- After an event was taken there is space. -/
theorem spacious_dequeue (mailbox : Mailbox) : mailbox.dequeue.2.Spacious := by
  rcases mailbox with occupant | ⟨_, _ | interrupt, _ | ⟨first, later⟩⟩
  · exact rfl
  all_goals trivial

theorem accepts_of_offer (accepted : (mailbox.offer event).1 = true) :
    mailbox.accepts event.priority = true := by
  by_contra refused
  rw [offer, if_neg refused] at accepted
  cases accepted

/-- Only an interrupt makes others give way. -/
theorem spacious_of_ordinary (ordinary : event.priority ≠ .interrupt)
    (accepted : (mailbox.offer event).1 = true) : mailbox.Spacious := by
  have taken := accepts_of_offer accepted
  rcases mailbox with (_ | occupant) | _
  · exact rfl
  · simp [accepts, ordinary] at taken
  · trivial

/-- There was space if there is one event more afterwards. -/
theorem spacious_of_gained
    (gained : (mailbox.offer event).2.events.length = mailbox.events.length + 1) :
    mailbox.Spacious := by
  rcases mailbox with (_ | occupant) | _
  · exact rfl
  · unfold offer at gained
    split at gained <;> simp [put, events] at gained
  · trivial

/-- What finds a place without others making way finds one in a wider mailbox, too. -/
theorem offer_widen (spacious : mailbox.Spacious) (wide : mailbox.places ≤ bound)
    (accepted : (mailbox.offer event).1 = true) :
    (mailbox.widen bound).offer event = (true, (mailbox.offer event).2.widen bound) := by
  have taken := accepts_of_offer accepted
  have takenToo : (mailbox.widen bound).accepts event.priority = true := by
    rcases mailbox with occupant | ⟨narrow, interrupt, line⟩
    · obtain rfl : occupant = none := spacious
      have some : 0 < bound := wide
      simp [widen, accepts, some]
    · simp only [accepts, widen] at taken ⊢
      split
      · simpa [*] using taken
      · next ordinary =>
        rw [if_neg ordinary, decide_eq_true_eq] at taken
        exact decide_eq_true (Nat.lt_of_lt_of_le taken wide)
  rw [offer, offer, if_pos taken, if_pos takenToo, Prod.mk.injEq]
  refine ⟨rfl, ?_⟩
  rcases mailbox with occupant | ⟨_, interrupt, line⟩
  · obtain rfl : occupant = none := spacious
    rfl
  · simp only [widen, put]
    split <;> rfl

end Mailbox

namespace Tier

variable {small large : Tier}

/-- A larger tier has at least as many slots of each kind and as many places in its ring. -/
theorem capacities_le (smaller : small < large) :
    small.leafCapacity ≤ large.leafCapacity ∧ small.timerCapacity ≤ large.timerCapacity ∧
      small.historyCapacity ≤ large.historyCapacity ∧
      small.ringCapacity ≤ large.ringCapacity := by
  revert smaller
  cases small <;> cases large <;> decide

end Tier

/-- The slots behind the first `few` of `many`. -/
def slotsBeyond (few many : Nat) : List Nat :=
  (List.range (many - few)).map (few + ·)

theorem range_append_slotsBeyond {few many : Nat} (le : few ≤ many) :
    List.range many = List.range few ++ slotsBeyond few many := by
  rw [slotsBeyond, ← List.range_add, Nat.add_sub_cancel' le]

theorem bounds_of_mem_slotsBeyond {few many slot : Nat} (beyond : slot ∈ slotsBeyond few many) :
    few ≤ slot ∧ slot < many := by
  obtain ⟨offset, less, rfl⟩ := List.mem_map.1 beyond
  have less := List.mem_range.1 less
  omega

namespace Instance

/-- What the larger instance has room for in addition is empty. -/
structure Padded (small large : Tier) (first second : Instance) : Prop where
  tier_first : first.tier = small
  tier_second : second.tier = large
  machineId_eq : second.machineId = first.machineId
  phaseByte_eq : second.phaseByte = first.phaseByte
  seed_eq : second.seed = first.seed
  leaves_eq : second.leaves =
    first.leaves ++ List.replicate (large.leafCapacity - small.leafCapacity) noIndex
  timers_eq : second.timers =
    first.timers ++ List.replicate (large.timerCapacity - small.timerCapacity) 0
  history_eq : second.history =
    first.history ++ List.replicate (large.historyCapacity - small.historyCapacity) noIndex

/-- The second mailbox is the first one with more places. -/
structure Widened (bound : Nat) (first second : Instance) : Prop where
  inLine : first.InLine
  inLineToo : second.InLine
  mailbox_eq : second.mailbox = first.mailbox.widen bound

/-- Instances of two tiers that agree in what both have room for. -/
structure Alike (small large : Tier) (first second : Instance) : Prop
    extends Padded small large first second, Widened large.ringCapacity first second

variable {small large : Tier} {first second after other : Instance}

theorem Widened.of_queue_eq {bound : Nat} (widened : Widened bound first second)
    (same : after.queue = first.queue) (sameToo : other.queue = second.queue) :
    Widened bound after other where
  inLine := widened.inLine.of_queue_eq same
  inLineToo := widened.inLineToo.of_queue_eq sameToo
  mailbox_eq := by rw [mailbox_congr same, mailbox_congr sameToo, widened.mailbox_eq]

theorem Padded.of_sameSlots (padded : Padded small large first second)
    (same : first.SameSlots after) (sameToo : second.SameSlots other) :
    Padded small large after other where
  tier_first := same.tier_eq.trans padded.tier_first
  tier_second := sameToo.tier_eq.trans padded.tier_second
  machineId_eq := by rw [same.machineId_eq, sameToo.machineId_eq, padded.machineId_eq]
  phaseByte_eq := by rw [same.phaseByte_eq, sameToo.phaseByte_eq, padded.phaseByte_eq]
  seed_eq := by rw [same.seed_eq, sameToo.seed_eq, padded.seed_eq]
  leaves_eq := by rw [same.leaves_eq, sameToo.leaves_eq, padded.leaves_eq]
  timers_eq := by rw [same.timers_eq, sameToo.timers_eq, padded.timers_eq]
  history_eq := by rw [same.history_eq, sameToo.history_eq, padded.history_eq]

/-- The number of places is that of the ring. -/
theorem places_mailbox (inst : Instance) : inst.mailbox.places = inst.tier.ringCapacity := by
  cases hasCell : inst.tier.hasInterruptCell with
  | true => rw [mailbox_split inst hasCell]; rfl
  | false => rw [mailbox_lone inst hasCell, ringCapacity_of_noCell hasCell]; rfl

/-- Behind slots there can be empty ones. -/
theorem slot_append {Value : Type} {kind : SlotKind} (slots more : List Value) (index : Nat) :
    Yields (slot kind slots index) fun value => slot kind (slots ++ more) index = .ok value := by
  unfold slot
  split
  · next value found =>
    have inside := (List.getElem?_eq_some_iff.1 found).1
    rw [List.getElem?_append_left inside, found]
    exact .ok rfl
  · exact .error

theorem slot_beyond {Value : Type} {kind : SlotKind} {slots : List Value} {index count : Nat}
    (value : Value) (behind : slots.length ≤ index) (inside : index < slots.length + count) :
    slot kind (slots ++ List.replicate count value) index = .ok value := by
  have less : index - slots.length < count := by omega
  rw [slot, List.getElem?_append_right behind, List.getElem?_replicate, if_pos less]

namespace Alike

variable (alike : Alike small large first second)

include alike

theorem activeLeaves_eq : second.activeLeaves = first.activeLeaves := by
  have empty (count : Nat) :
      (List.replicate count noIndex).takeWhile (fun leaf => leaf != noIndex) = [] := by
    rw [List.takeWhile_replicate, if_neg (by decide)]
  unfold activeLeaves
  rw [alike.leaves_eq, List.takeWhile_append, empty, List.append_nil]
  split
  · next all => exact ((List.takeWhile_prefix _).eq_of_length all).symm
  · rfl

theorem waiting_eq : second.waiting = first.waiting := by
  rw [← alike.inLine.events_mailbox, ← alike.inLineToo.events_mailbox, alike.mailbox_eq,
    Mailbox.events_widen]

theorem queueIsEmpty_eq : second.queueIsEmpty = first.queueIsEmpty := by
  rw [queueIsEmpty, queueIsEmpty, alike.inLine.queueCount_eq, alike.inLineToo.queueCount_eq,
    alike.mailbox_eq, Mailbox.events_widen]

theorem withSeed (seed : UInt32) :
    Alike small large { first with seed } { second with seed } :=
  ⟨{ alike.toPadded with seed_eq := rfl }, alike.toWidened.of_queue_eq rfl rfl⟩

theorem withPhase (phase : Phase) :
    Alike small large (first.withPhase phase) (second.withPhase phase) :=
  ⟨{ alike.toPadded with phaseByte_eq := rfl }, alike.toWidened.of_queue_eq rfl rfl⟩

theorem phase_eq : second.phase? = first.phase? :=
  congrArg Phase.ofByte? alike.phaseByte_eq

/-! ### Slots -/

theorem leaf_yields (slot : Nat) :
    Yields (first.leaf slot) fun leaf => second.leaf slot = .ok leaf := by
  unfold Instance.leaf
  rw [alike.leaves_eq]
  exact slot_append _ _ slot

theorem timer_yields (slot : Nat) :
    Yields (first.timer slot) fun remaining => second.timer slot = .ok remaining := by
  unfold Instance.timer
  rw [alike.timers_eq]
  exact slot_append _ _ slot

theorem historyAt_yields (slot : Nat) :
    Yields (first.historyAt slot) fun saved => second.historyAt slot = .ok saved := by
  unfold Instance.historyAt
  rw [alike.history_eq]
  exact slot_append _ _ slot

theorem leaf_beyond {slot : Nat}
    (beyond : slot ∈ slotsBeyond small.leafCapacity large.leafCapacity) :
    second.leaf slot = .ok noIndex := by
  obtain ⟨behind, inside⟩ := bounds_of_mem_slotsBeyond beyond
  have few := first.length_leaves
  rw [alike.tier_first] at few
  unfold Instance.leaf
  rw [alike.leaves_eq]
  exact slot_beyond noIndex (by omega) (by omega)

theorem timer_beyond {slot : Nat}
    (beyond : slot ∈ slotsBeyond small.timerCapacity large.timerCapacity) :
    second.timer slot = .ok 0 := by
  obtain ⟨behind, inside⟩ := bounds_of_mem_slotsBeyond beyond
  have few := first.length_timers
  rw [alike.tier_first] at few
  unfold Instance.timer
  rw [alike.timers_eq]
  exact slot_beyond 0 (by omega) (by omega)

theorem length_activeLeaves_le : first.activeLeaves.length ≤ small.leafCapacity := by
  rw [← alike.tier_first, ← first.length_leaves]
  exact (List.takeWhile_prefix _).length_le

theorem setTimer_tracks (slot : Nat) (remaining : UInt32) :
    Tracks (fun _ => True) (Alike small large) (first.setTimer slot remaining)
      (second.setTimer slot remaining) := by
  constructor
  intro after ran _
  obtain ⟨inside, rfl⟩ := (setTimer_yields remaining).of_eq _ ran
  have insideToo : slot < second.timers.length := by
    rw [alike.timers_eq, List.length_append]
    omega
  unfold setTimer
  rw [if_pos insideToo]
  refine ⟨_, rfl, { alike.toPadded with timers_eq := ?_ }, alike.toWidened.of_queue_eq rfl rfl⟩
  show second.timers.set slot remaining = first.timers.set slot remaining ++ _
  rw [alike.timers_eq, List.set_append_left _ _ inside]

theorem setHistory_tracks (slot : Nat) (saved : UInt16) :
    Tracks (fun _ => True) (Alike small large) (first.setHistory slot saved)
      (second.setHistory slot saved) := by
  constructor
  intro after ran _
  obtain ⟨inside, rfl⟩ := (setHistory_yields saved).of_eq _ ran
  have insideToo : slot < second.history.length := by
    rw [alike.history_eq, List.length_append]
    omega
  unfold setHistory
  rw [if_pos insideToo]
  refine ⟨_, rfl, { alike.toPadded with history_eq := ?_ }, alike.toWidened.of_queue_eq rfl rfl⟩
  show second.history.set slot saved = first.history.set slot saved ++ _
  rw [alike.history_eq, List.set_append_left _ _ inside]

theorem setLeaf_tracks (slot : Nat) (state : UInt16) :
    Tracks (fun _ => True) (Alike small large) (first.setLeaf slot state)
      (second.setLeaf slot state) := by
  constructor
  intro after ran _
  obtain ⟨inside, rfl⟩ := (setLeaf_yields state).of_eq _ ran
  have insideToo : slot < second.leaves.length := by
    rw [alike.leaves_eq, List.length_append]
    omega
  unfold setLeaf
  rw [if_pos insideToo]
  refine ⟨_, rfl, { alike.toPadded with leaves_eq := ?_ }, alike.toWidened.of_queue_eq rfl rfl⟩
  show second.leaves.set slot state = first.leaves.set slot state ++ _
  rw [alike.leaves_eq, List.set_append_left _ _ inside]

/-- The first empty slot is the same one, if the smaller instance has one. -/
theorem findIdx?_leaves {slot : Nat}
    (free : first.leaves.findIdx? (fun leaf => leaf == noIndex) = some slot) :
    second.leaves.findIdx? (fun leaf => leaf == noIndex) = some slot := by
  rw [alike.leaves_eq, List.findIdx?_append, free]
  rfl

theorem withActiveLeaves (smaller : small < large) {active : List UInt16}
    (fits : active.length ≤ small.leafCapacity) :
    Alike small large (first.withActiveLeaves active) (second.withActiveLeaves active) := by
  have more := (Tier.capacities_le smaller).1
  refine ⟨{ alike.toPadded with leaves_eq := ?_ }, alike.toWidened.of_queue_eq rfl rfl⟩
  have padding {capacity : Nat} (fits : active.length ≤ capacity) :
      (active ++ List.replicate capacity noIndex).take capacity =
        active ++ List.replicate (capacity - active.length) noIndex := by
    rw [List.take_append, List.take_of_length_le fits, List.take_replicate,
      Nat.min_eq_left (Nat.sub_le _ _)]
  simp only [Instance.withActiveLeaves, alike.tier_first, alike.tier_second]
  rw [padding fits, padding (Nat.le_trans fits more), List.append_assoc,
    ← List.replicate_add]
  congr 2
  omega

theorem clearTimers (smaller : small < large) :
    Alike small large first.clearTimers second.clearTimers := by
  have more := (Tier.capacities_le smaller).2.1
  refine ⟨{ alike.toPadded with timers_eq := ?_ }, alike.toWidened.of_queue_eq rfl rfl⟩
  simp only [Instance.clearTimers, alike.tier_first, alike.tier_second]
  rw [← List.replicate_add, Nat.add_sub_cancel' more]

/-- What a tick does to drop the configuration. -/
theorem dropped (smaller : small < large) :
    Alike small large
      { first.clearLeaves.clearTimers with status := { first.status with rtcOverflow := true } }
      { second.clearLeaves.clearTimers with
        status := { second.status with rtcOverflow := true } } := by
  have none : ([] : List UInt16).length ≤ small.leafCapacity := Nat.zero_le _
  have cleared := (alike.withActiveLeaves smaller none).clearTimers smaller
  exact ⟨{ cleared.toPadded with }, cleared.toWidened.of_queue_eq rfl rfl⟩

/-! ### The queue -/

theorem dequeue_tracks :
    Tracks (fun _ => True)
      (fun answer other => other.1 = answer.1 ∧ Alike small large answer.2 other.2)
      first.dequeue second.dequeue := by
  constructor
  intro answer ran _
  obtain ⟨other, ranToo, follows⟩ := alike.inLineToo.dequeue_follows
  have agrees := (alike.inLine.dequeue_follows.yields.of_eq _ ran)
  have padded := alike.toPadded.of_sameSlots (dequeue_sameSlots.of_eq _ ran)
    (dequeue_sameSlots.of_eq _ ranToo)
  have widened := follows.agrees
  rw [alike.mailbox_eq, Mailbox.dequeue_widen, ← agrees.agrees, Prod.mk.injEq] at widened
  exact ⟨other, ranToo, widened.1, padded, agrees.inLine, follows.inLine, widened.2⟩

/-- An event that is taken in, without others making way for it, is taken in by both. -/
theorem enqueue_tracks (smaller : small < large) (event : Event) (priority : Priority)
    (space : (first.mailbox.enqueue event priority).1 = true → first.mailbox.Spacious) :
    Tracks (fun answer => answer.1 = true)
      (fun answer other => other.1 = answer.1 ∧ Alike small large answer.2 other.2)
      (first.enqueue event priority) (second.enqueue event priority) := by
  constructor
  rintro ⟨_, after⟩ ran rfl
  obtain ⟨other, ranToo, follows⟩ := alike.inLineToo.enqueue_follows event priority
  have agrees := (alike.inLine.enqueue_follows event priority).yields.of_eq _ ran
  have accepted : (first.mailbox.enqueue event priority).1 = true :=
    (congrArg Prod.fst agrees.agrees).symm
  have wide : first.mailbox.places ≤ large.ringCapacity := by
    rw [first.places_mailbox, alike.tier_first]
    exact (Tier.capacities_le smaller).2.2.2
  have padded := alike.toPadded.of_sameSlots ((enqueue_sameSlots event priority).of_eq _ ran)
    ((enqueue_sameSlots event priority).of_eq _ ranToo)
  have widened := follows.agrees
  rw [alike.mailbox_eq, Mailbox.enqueue, Mailbox.offer_widen (space accepted) wide accepted,
    Prod.mk.injEq] at widened
  refine ⟨other, ranToo, widened.1, padded, agrees.inLine, follows.inLine, ?_⟩
  exact widened.2.trans (congrArg (Mailbox.widen _) (congrArg Prod.snd agrees.agrees).symm)

end Alike

/-- New instances are alike. -/
theorem alike_fresh (smaller : small < large) (machineId seed : UInt32) :
    Alike small large (.fresh small machineId seed) (.fresh large machineId seed) := by
  obtain ⟨leaves, timers, history, -⟩ := Tier.capacities_le smaller
  have padding {Value : Type} {few many : Nat} (le : few ≤ many) (value : Value) :
      List.replicate many value =
        List.replicate few value ++ List.replicate (many - few) value := by
    rw [← List.replicate_add, Nat.add_sub_cancel' le]
  refine ⟨⟨rfl, rfl, rfl, rfl, rfl, padding leaves _, padding timers _, padding history _⟩,
    .fresh small machineId seed, .fresh large machineId seed, ?_⟩
  rw [mailbox_fresh, mailbox_fresh]
  revert smaller
  cases small <;> cases large <;> decide

end Instance

end Statechart
