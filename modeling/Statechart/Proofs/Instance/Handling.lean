/-
# Handling the events of a mailbox

Events are taken out of a mailbox one after the other. One that is put off goes back in without
its mark, the others are done with. `Handles` is what a series of such steps makes of a mailbox.

What comes of it can be told in advance. `Mailbox.agenda` lists the events of a mailbox in the
order in which they will be done with: the interrupt, the events of the line that are not put
off, and those that are. Putting an event off leaves the agenda as it is, and what is done with
is taken from its front (`Handles.agenda_eq`). So no event is lost or handled twice, and the
events of the line that are not put off keep their order. Each time an event is put off a mark
is spent (`Handles.marked_eq`).

For an event that was just taken out there is always a place, as long as interrupts are kept
apart from other events (`Mailbox.Filed`): it is the place that it comes from.
-/

import Mathlib.Data.List.Induction
import Statechart.Proofs.Instance.Mailbox

namespace Statechart

/-- The same event, not to be put off. -/
def Event.unmarked (event : Event) : Event :=
  { event with flags := { event.flags with deferred := false } }

theorem Event.unmarked_of_plain {event : Event} (plain : event.flags.deferred = false) :
    event.unmarked = event := by
  obtain ⟨id, priority, ⟨deferred, byReference⟩, timestamp, payload⟩ := event
  cases plain
  rfl

namespace Mailbox

variable {mailbox next : Mailbox} {event : Event}

/-- Interrupts are kept in their own place and nowhere else, and the line is as long as it may
be at most. -/
def Filed : Mailbox → Prop
  | lone _ => True
  | split bound interrupt line =>
      (∀ event ∈ interrupt, event.priority = .interrupt) ∧
        (∀ event ∈ line, event.priority ≠ .interrupt) ∧ line.length ≤ bound

theorem filed_empty (tier : Tier) : (empty tier).Filed := by
  cases tier <;> simp [empty, Filed]

theorem Filed.put (filed : mailbox.Filed) (accepted : mailbox.accepts event.priority = true) :
    (mailbox.put event).Filed := by
  cases mailbox with
  | lone occupant => trivial
  | split bound interrupt line =>
    obtain ⟨apart, ordinary, short⟩ := filed
    by_cases interrupts : event.priority = .interrupt
    · simp [Mailbox.put, interrupts, Filed, short]
      exact ordinary
    · have shorter : line.length < bound := by simpa [accepts, interrupts] using accepted
      simp [Mailbox.put, interrupts, Filed]
      grind

theorem Filed.offer (filed : mailbox.Filed) (event : Event) : (mailbox.offer event).2.Filed := by
  unfold Mailbox.offer
  split
  · next accepted => exact filed.put accepted
  · exact filed

theorem Filed.dequeue (filed : mailbox.Filed) : mailbox.dequeue.2.Filed := by
  cases mailbox with
  | lone occupant => trivial
  | split bound interrupt line =>
    obtain ⟨apart, ordinary, short⟩ := filed
    rcases interrupt with _ | interrupt
    · rcases line with _ | ⟨first, later⟩
      · exact ⟨apart, ordinary, short⟩
      · exact ⟨apart, fun event listed => ordinary event (List.mem_cons_of_mem _ listed),
          Nat.le_of_succ_le short⟩
    · exact ⟨nofun, ordinary, short⟩

theorem Filed.clear (filed : mailbox.Filed) : mailbox.clear.Filed := by
  cases mailbox with
  | lone occupant => trivial
  | split bound interrupt line => simp [Filed, Mailbox.clear]

/-! ### Events that arrive -/

/-- How many events there is a place for that interrupt nothing. -/
def room : Mailbox → Nat
  | lone none => 1
  | lone (some _) => 0
  | split bound _ line => bound - line.length

theorem accepts_iff_room (mailbox : Mailbox) (ordinary : event.priority ≠ .interrupt) :
    mailbox.accepts event.priority = true ↔ 0 < mailbox.room := by
  rcases mailbox with (_ | occupant) | ⟨bound, interrupt, line⟩
  · simp [accepts, room]
  · simp [accepts, room, ordinary]
  · rw [accepts, if_neg ordinary, decide_eq_true_eq, room, Nat.sub_pos_iff_lt]

theorem room_put (ordinary : event.priority ≠ .interrupt) :
    (mailbox.put event).room = mailbox.room - 1 := by
  rcases mailbox with (_ | occupant) | ⟨bound, interrupt, line⟩ <;>
    simp [put, room, ordinary, Nat.sub_sub]

theorem events_put (ordinary : event.priority ≠ .interrupt) (free : 0 < mailbox.room) :
    (mailbox.put event).events = mailbox.events ++ [event] := by
  rcases mailbox with (_ | occupant) | ⟨bound, interrupt, line⟩
  · rfl
  · simp [room] at free
  · simp [put, events, ordinary]

/-- A mailbox with ordinary events behind its own. -/
theorem events_foldl_put {arriving : List Event}
    (ordinary : ∀ event ∈ arriving, event.priority ≠ .interrupt)
    (fits : arriving.length ≤ mailbox.room) :
    (arriving.foldl put mailbox).events = mailbox.events ++ arriving ∧
      (arriving.foldl put mailbox).room = mailbox.room - arriving.length := by
  induction arriving generalizing mailbox with
  | nil => simp
  | cons event rest ih =>
    have first := ordinary event (List.mem_cons_self ..)
    rw [List.length_cons] at fits
    have fewer : rest.length ≤ (mailbox.put event).room := by
      rw [room_put first]
      omega
    have others := fun other later => ordinary other (List.mem_cons_of_mem event later)
    obtain ⟨events, room⟩ := ih others fewer
    rw [List.foldl_cons, events, room, room_put first, events_put first (by omega)]
    simp [Nat.sub_sub, Nat.add_comm]

/-- Of ordinary events that arrive, those that are let in: as many as there is room for. -/
def letIn (mailbox : Mailbox) (arriving : List Event) : List Event :=
  arriving.take mailbox.room

/-- The mailbox after ordinary events have arrived. -/
def receive (mailbox : Mailbox) (arriving : List Event) : Mailbox :=
  (mailbox.letIn arriving).foldl put mailbox

@[simp]
theorem receive_nil : mailbox.receive [] = mailbox := by
  simp [receive, letIn]

section Arriving

variable {arriving : List Event} (ordinary : ∀ event ∈ arriving, event.priority ≠ .interrupt)

include ordinary

theorem events_receive :
    (mailbox.receive arriving).events = mailbox.events ++ mailbox.letIn arriving :=
  (events_foldl_put (fun event listed => ordinary event (List.mem_of_mem_take listed))
    (List.length_take_le ..)).1

theorem room_receive : (mailbox.receive arriving).room = mailbox.room - arriving.length := by
  have less : (mailbox.receive arriving).room = mailbox.room - (mailbox.letIn arriving).length :=
    (events_foldl_put (fun event listed => ordinary event (List.mem_of_mem_take listed))
      (List.length_take_le ..)).2
  rw [less, letIn, List.length_take]
  omega

/-- One more event is let in if there is still room for it. -/
theorem offer_receive (last : event.priority ≠ .interrupt) :
    (mailbox.receive arriving).offer event =
      (decide (arriving.length < mailbox.room), mailbox.receive (arriving ++ [event])) := by
  have accepts := accepts_iff_room (mailbox.receive arriving) last
  rw [room_receive ordinary, Nat.sub_pos_iff_lt] at accepts
  by_cases free : arriving.length < mailbox.room
  · have all : (arriving ++ [event]).take mailbox.room = arriving ++ [event] :=
      List.take_of_length_le (by simpa using Nat.succ_le_of_lt free)
    rw [offer, if_pos (accepts.2 free), decide_eq_true free, receive, receive, letIn, letIn, all,
      List.take_of_length_le (Nat.le_of_lt free), List.foldl_append]
    rfl
  · have same : (arriving ++ [event]).take mailbox.room = arriving.take mailbox.room :=
      List.take_append_of_le_length (Nat.le_of_not_lt free)
    rw [offer, if_neg (mt accepts.1 free), decide_eq_false free, receive, receive, letIn, letIn,
      same]

theorem Filed.receive (filed : mailbox.Filed) : (mailbox.receive arriving).Filed := by
  induction arriving using List.reverseRecOn with
  | nil => rwa [receive_nil]
  | append_singleton arriving event ih =>
    have earlier := fun other listed => ordinary other (List.mem_append_left [event] listed)
    have last := ordinary event (List.mem_append_right _ (List.mem_singleton_self event))
    have offered := (ih earlier).offer event
    rwa [offer_receive earlier last] at offered

end Arriving

/-! ### Events that are taken out -/

/-- The events in the order in which they will be done with. Those that are put off come last,
without their marks. -/
def agenda : Mailbox → List Event
  | lone occupant => occupant.toList.map Event.unmarked
  | split _ interrupt line =>
      interrupt.toList.map Event.unmarked ++ line.filter (!·.flags.deferred) ++
        (line.filter (·.flags.deferred)).map Event.unmarked

/-- The events that are to be put off. -/
def marked (mailbox : Mailbox) : List Event :=
  mailbox.events.filter (·.flags.deferred)

/-- Events without marks that arrive are none of those that are to be put off. -/
theorem marked_receive {arriving : List Event}
    (ordinary : ∀ event ∈ arriving, event.priority ≠ .interrupt)
    (plain : ∀ event ∈ arriving, event.flags.deferred = false) :
    (mailbox.receive arriving).marked = mailbox.marked := by
  have none : (mailbox.letIn arriving).filter (·.flags.deferred) = [] := by
    refine List.filter_eq_nil_iff.2 fun event listed => ?_
    rw [plain event (List.mem_of_mem_take listed)]
    exact Bool.false_ne_true
  rw [marked, events_receive ordinary, List.filter_append, none, List.append_nil, marked]

/-- The agenda has the events of the mailbox, without their marks. -/
theorem agenda_perm (mailbox : Mailbox) :
    mailbox.agenda.Perm (mailbox.events.map Event.unmarked) := by
  cases mailbox with
  | lone occupant => exact .refl _
  | split bound interrupt line =>
    have plain : line.filter (!·.flags.deferred) =
        (line.filter (!·.flags.deferred)).map Event.unmarked := by
      refine (List.map_id _).symm.trans (List.map_congr_left fun event listed => ?_)
      exact (Event.unmarked_of_plain (by simpa using List.of_mem_filter listed)).symm
    have sorted : (line.filter (!·.flags.deferred) ++ line.filter (·.flags.deferred)).Perm
        line := by
      simpa using (List.filter_append_perm (!·.flags.deferred) line)
    have unmarked := sorted.map Event.unmarked
    rw [List.map_append] at unmarked
    rw [agenda, plain, List.append_assoc, events, List.map_append]
    exact unmarked.append_left _

/-- Where an event that is taken out comes from. -/
theorem dequeue_eq_some (taken : mailbox.dequeue = (some event, next)) :
    (mailbox = lone (some event) ∧ next = lone none) ∨
    (∃ bound line, mailbox = split bound (some event) line ∧ next = split bound none line) ∨
    ∃ bound later, mailbox = split bound none (event :: later) ∧ next = split bound none later := by
  rcases mailbox with occupant | ⟨bound, _ | interrupt, _ | ⟨first, later⟩⟩ <;>
    cases taken <;> simp

/-- An event that was taken out finds its place free. -/
theorem accepts_of_dequeue (filed : mailbox.Filed) (taken : mailbox.dequeue = (some event, next)) :
    next.accepts event.priority = true := by
  rcases dequeue_eq_some taken with ⟨rfl, rfl⟩ | ⟨bound, line, rfl, rfl⟩ | ⟨bound, later, rfl, rfl⟩
  · rfl
  · simp [accepts, filed.1 event rfl]
  · obtain ⟨-, ordinary, short⟩ := filed
    simpa [accepts, ordinary] using Nat.lt_of_succ_le short

/-- An event that is not put off is the first of the agenda. -/
theorem agenda_of_plain (taken : mailbox.dequeue = (some event, next))
    (plain : event.flags.deferred = false) : mailbox.agenda = event :: next.agenda := by
  have same := Event.unmarked_of_plain plain
  rcases dequeue_eq_some taken with
    ⟨rfl, rfl⟩ | ⟨bound, line, rfl, rfl⟩ | ⟨bound, later, rfl, rfl⟩ <;>
    simp [agenda, same, plain]

/-- An event that is put off changes nothing about the agenda. -/
theorem agenda_of_putOff (filed : mailbox.Filed) (taken : mailbox.dequeue = (some event, next))
    (deferred : event.flags.deferred = true) :
    (next.put event.unmarked).agenda = mailbox.agenda := by
  have same : event.unmarked.unmarked = event.unmarked := rfl
  have plain : event.unmarked.flags.deferred = false := rfl
  rcases dequeue_eq_some taken with ⟨rfl, rfl⟩ | ⟨bound, line, rfl, rfl⟩ | ⟨bound, later, rfl, rfl⟩
  · simp [put, agenda, same]
  · have interrupts : event.unmarked.priority = .interrupt := filed.1 event rfl
    simp [put, agenda, same, interrupts]
  · have ordinary : event.unmarked.priority ≠ .interrupt := filed.2.1 event (List.mem_cons_self ..)
    simp [put, agenda, ordinary, plain, deferred]

theorem marked_of_plain (taken : mailbox.dequeue = (some event, next))
    (plain : event.flags.deferred = false) : mailbox.marked = next.marked := by
  have events := events_of_dequeue (congrArg Prod.fst taken)
  rw [taken] at events
  simp [marked, events, plain]

/-- An event that is put off spends its mark. -/
theorem marked_of_putOff (filed : mailbox.Filed) (taken : mailbox.dequeue = (some event, next))
    (deferred : event.flags.deferred = true) :
    mailbox.marked = event :: (next.put event.unmarked).marked := by
  have plain : event.unmarked.flags.deferred = false := rfl
  rcases dequeue_eq_some taken with ⟨rfl, rfl⟩ | ⟨bound, line, rfl, rfl⟩ | ⟨bound, later, rfl, rfl⟩
  · simp [put, marked, events, plain, deferred]
  · have interrupts : event.unmarked.priority = .interrupt := filed.1 event rfl
    simp [put, marked, events, plain, deferred, interrupts]
  · have ordinary : event.unmarked.priority ≠ .interrupt := filed.2.1 event (List.mem_cons_self ..)
    simp [put, marked, events, plain, deferred, ordinary]

end Mailbox

/-! ### Handling events -/

/-- What becomes of an event that is taken out of a mailbox. -/
inductive Handling
  | done (event : Event)
  /-- The event is put off: it goes back without its mark. -/
  | putOff (event : Event)
  deriving DecidableEq

namespace Handling

/-- The events that are done with. -/
def allDone (handled : List Handling) : List Event :=
  handled.filterMap fun
    | done event => some event
    | putOff _ => none

/-- The events that are put off. -/
def allPutOff (handled : List Handling) : List Event :=
  handled.filterMap fun
    | done _ => none
    | putOff event => some event

@[simp]
theorem allDone_append (handled later : List Handling) :
    allDone (handled ++ later) = allDone handled ++ allDone later :=
  List.filterMap_append

end Handling

open Handling (allDone allPutOff)

/-- Taking events out of a mailbox one after the other and handling them. An event goes back if
it is marked and there is a place for it, and it is done with if it is not marked. -/
inductive Handles : Mailbox → List Handling → Mailbox → Prop
  | nil (mailbox : Mailbox) : Handles mailbox [] mailbox
  | done {mailbox next last : Mailbox} {event : Event} {later : List Handling} :
      mailbox.dequeue = (some event, next) → event.flags.deferred = false →
      Handles next later last → Handles mailbox (.done event :: later) last
  | putOff {mailbox next back last : Mailbox} {event : Event} {later : List Handling} :
      mailbox.dequeue = (some event, next) → event.flags.deferred = true →
      next.offer event.unmarked = (true, back) →
      Handles back later last → Handles mailbox (.putOff event :: later) last

namespace Mailbox.Filed

variable {mailbox next : Mailbox} {event : Event}

theorem of_dequeue {taken : Option Event} (filed : mailbox.Filed)
    (left : mailbox.dequeue = (taken, next)) : next.Filed := by
  have rest := filed.dequeue
  rwa [left] at rest

/-- Putting an event off never fails. -/
theorem offer_putOff (filed : mailbox.Filed) (taken : mailbox.dequeue = (some event, next)) :
    next.offer event.unmarked = (true, next.put event.unmarked) := by
  have free := accepts_of_dequeue filed taken
  exact if_pos free

theorem putOff (filed : mailbox.Filed) (taken : mailbox.dequeue = (some event, next)) :
    (next.put event.unmarked).Filed := by
  have offered := (filed.of_dequeue taken).offer event.unmarked
  rwa [filed.offer_putOff taken] at offered

/-- What is called between two ticks keeps interrupts apart. -/
theorem perform (filed : mailbox.Filed) (call : QueueCall) : (mailbox.perform call).2.Filed := by
  cases call with
  | enqueue event priority => exact filed.offer { event with priority }
  | dequeue => exact filed.dequeue
  | peek => exact filed
  | count => exact filed
  | clear => exact filed.clear

end Mailbox.Filed

/-- The event that an operation on a queue has let in, if it has. -/
def QueueCall.arrivals : QueueCall → QueueAnswer → List Event
  | .enqueue event priority, .accepted true => [{ event with priority }]
  | _, _ => []

/-- After an operation there is nothing in a mailbox but what was there and what has arrived. -/
theorem Mailbox.events_perform_subperm (mailbox : Mailbox) (call : QueueCall) :
    (mailbox.perform call).2.events.Subperm
      (call.arrivals (mailbox.perform call).1 ++ mailbox.events) := by
  cases call with
  | enqueue event priority =>
    have offered := mailbox.events_offer_subperm { event with priority }
    simp only [perform, enqueue, offer, Prod.map] at offered ⊢
    split
    · next accepted => simpa [QueueCall.arrivals, accepted] using offered
    · exact .refl _
  | dequeue =>
    show mailbox.dequeue.2.events.Subperm mailbox.events
    cases taken : mailbox.dequeue.1 with
    | none => rw [(dequeue_of_none taken).2]
    | some event =>
      rw [events_of_dequeue taken]
      exact (List.sublist_cons_self ..).subperm
  | peek => exact .refl _
  | count => exact .refl _
  | clear => cases mailbox <;> exact List.nil_subperm

namespace Handles

variable {before after : Mailbox} {handled : List Handling}

theorem append {middle : Mailbox} {later : List Handling}
    (first : Handles before handled middle) (second : Handles middle later after) :
    Handles before (handled ++ later) after := by
  induction first with
  | nil mailbox => exact second
  | done taken plain _ ih => exact .done taken plain (ih second)
  | putOff taken deferred back _ ih => exact .putOff taken deferred back (ih second)

theorem filed (handles : Handles before handled after) (filed : before.Filed) : after.Filed := by
  induction handles with
  | nil mailbox => exact filed
  | done taken _ _ ih => exact ih (filed.of_dequeue taken)
  | putOff taken _ back _ ih =>
    cases (filed.offer_putOff taken).symm.trans back
    exact ih (filed.putOff taken)

/-- What is done with is taken from the front of the agenda, and nothing else changes it. -/
theorem agenda_eq (handles : Handles before handled after) (filed : before.Filed) :
    before.agenda = allDone handled ++ after.agenda := by
  induction handles with
  | nil mailbox => rfl
  | done taken plain _ ih =>
    rw [Mailbox.agenda_of_plain taken plain, ih (filed.of_dequeue taken)]
    rfl
  | putOff taken deferred back _ ih =>
    cases (filed.offer_putOff taken).symm.trans back
    rw [← Mailbox.agenda_of_putOff filed taken deferred, ih (filed.putOff taken)]
    rfl

/-- The marked events that are not put off are still there. -/
theorem marked_eq (handles : Handles before handled after) (filed : before.Filed) :
    before.marked = allPutOff handled ++ after.marked := by
  induction handles with
  | nil mailbox => rfl
  | done taken plain _ ih =>
    rw [Mailbox.marked_of_plain taken plain, ih (filed.of_dequeue taken)]
    rfl
  | putOff taken deferred back _ ih =>
    cases (filed.offer_putOff taken).symm.trans back
    rw [Mailbox.marked_of_putOff filed taken deferred, ih (filed.putOff taken)]
    rfl

theorem map_unmarked_allDone (handles : Handles before handled after) :
    (allDone handled).map Event.unmarked = allDone handled := by
  induction handles with
  | nil mailbox => rfl
  | done _ plain _ ih => exact congrArg₂ List.cons (Event.unmarked_of_plain plain) ih
  | putOff _ _ _ _ ih => exact ih

/-- Up to marks, the events are those that are done with and those that are left. -/
theorem events_perm (handles : Handles before handled after) (filed : before.Filed) :
    (before.events.map Event.unmarked).Perm
      ((allDone handled ++ after.events).map Event.unmarked) := by
  rw [List.map_append, handles.map_unmarked_allDone]
  refine (before.agenda_perm.symm.trans ?_).trans (after.agenda_perm.append_left _)
  rw [handles.agenda_eq filed]

end Handles

end Statechart
