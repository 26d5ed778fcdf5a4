/-
# Events that come and go

A trace tells of three things that happen to events: one is served, a timer announces that it
has run out, and one finds no room in the queue. `Trace.traffic` keeps these and nothing else.

Between two events a tick leaves the queue alone and adds nothing to the traffic (`Calm`), since
that is so of each of its moves. What serving events does to the queue is what `Handles` says,
and the traffic tells which ones are done with (`Serves`). How many events are taken is counted
by the budget: what was taken and what is left of the budget make up the whole (`Counts`).
-/

import Statechart.Proofs.Instance.Handling
import Statechart.Proofs.Kernel.Moves
import Statechart.Proofs.Kernel.Tick

namespace Statechart

namespace Trace

/-- What a trace tells of events. -/
structure Traffic where
  /-- The events that were served, by id and priority. -/
  served : List (UInt16 × Priority)
  /-- The events by which timers announce that they have run out. -/
  expired : List Event
  /-- The events that found no room, by id. -/
  lost : List UInt16
  deriving DecidableEq

namespace Traffic

/-- Nothing has come and gone. -/
def none : Traffic :=
  ⟨[], [], []⟩

/-- What one more step tells. -/
def note (traffic : Traffic) : Entry → Traffic
  | .event id priority => { traffic with served := traffic.served ++ [(id, priority)] }
  | .timerFired slot owner => { traffic with expired := traffic.expired ++ [.timer slot owner] }
  | .eventDropped id => { traffic with lost := traffic.lost ++ [id] }
  | _ => traffic

/-- The traffic with more events that are served. -/
def serve (traffic : Traffic) (events : List Event) : Traffic :=
  { traffic with served := traffic.served ++ events.map fun event => (event.id, event.priority) }

@[simp]
theorem serve_nil (traffic : Traffic) : traffic.serve [] = traffic := by
  simp [serve]

@[simp]
theorem serve_serve (traffic : Traffic) (events later : List Event) :
    (traffic.serve events).serve later = traffic.serve (events ++ later) := by
  simp [serve]

end Traffic

/-- What a trace tells of events. -/
def traffic (trace : List Entry) : Traffic :=
  trace.foldl Traffic.note .none

/-- A step below the level of events says nothing of them. -/
theorem Entry.Inner.note_traffic {entry : Entry} (inner : entry.Inner) (traffic : Traffic) :
    traffic.note entry = traffic := by
  cases entry <;> first | rfl | cases inner

end Trace

namespace Kernel

open Rom (rootIndex)
open Handling (allDone)
open Trace (Traffic)

variable {User : Type} {kernel : Kernel User} {progress before middle after : Progress User}

/-- What the steps so far tell of events. -/
def Progress.traffic (progress : Progress User) : Traffic :=
  Trace.traffic progress.trace.toList

@[simp]
theorem Progress.traffic_note (progress : Progress User) (entry : Trace.Entry) :
    (progress.note entry).traffic = progress.traffic.note entry := by
  simp [Progress.traffic, Trace.traffic, Progress.note]

@[simp]
theorem Progress.traffic_withInst (progress : Progress User) (inst : Instance) :
    (progress.withInst inst).traffic = progress.traffic :=
  rfl

/-! ### What leaves the queue alone -/

/-- The queue is as it was, and nothing has come and gone. -/
structure Calm (before after : Progress User) : Prop where
  queue_eq : after.inst.queue = before.inst.queue
  traffic_eq : after.traffic = before.traffic

namespace Calm

theorem refl (progress : Progress User) : Calm progress progress :=
  ⟨rfl, rfl⟩

theorem trans (first : Calm before middle) (second : Calm middle after) : Calm before after :=
  ⟨second.queue_eq.trans first.queue_eq, second.traffic_eq.trans first.traffic_eq⟩

theorem note {entry : Trace.Entry}
    (silent : progress.traffic.note entry = progress.traffic) :
    Calm progress (progress.note entry) :=
  ⟨rfl, (progress.traffic_note entry).trans silent⟩

theorem write {inst : Instance} (same : inst.queue = progress.inst.queue) :
    Calm progress (progress.withInst inst) :=
  ⟨same, rfl⟩

theorem withPhase (phase : Phase) (progress : Progress User) :
    Calm progress (progress.withPhase phase) :=
  write rfl

theorem withSteps (steps : Nat) (progress : Progress User) :
    Calm progress (Kernel.withSteps steps progress) :=
  write rfl

/-- Nothing of the queue is lost with the configuration. -/
theorem contain (kernel : Kernel User) (progress : Progress User) :
    Calm progress (kernel.contain progress) :=
  ⟨rfl, Progress.traffic_note _ _⟩

theorem mailbox_eq (calm : Calm before after) : after.inst.mailbox = before.inst.mailbox :=
  Instance.mailbox_congr calm.queue_eq

end Calm

section

variable (spares : kernel.dispatch.Preserves Instance.queue)

include spares

theorem Move.calm (move : Move kernel before after) : Calm before after := by
  cases move with
  | called traced became =>
    refine ⟨?_, by rw [Progress.traffic, traced, Progress.traffic]⟩
    rcases became with same | touches
    · rw [same]
    · exact spares _ _ touches
  | noted inner => exact .note (inner.note_traffic _)
  | written same => exact .write same

theorem Moves.calm (moves : Moves kernel before after) : Calm before after := by
  induction moves with
  | refl => exact .refl _
  | tail _ move ih => exact ih.trans (move.calm spares)

/-- Taking one transition after the other. -/
theorem runFrom_calm (remaining steps : Nat) (event : Event) (progress : Progress User) :
    Yields (kernel.runFrom remaining steps event progress) fun completion =>
      Calm progress completion.reached := by
  induction remaining generalizing steps event progress with
  | zero =>
    unfold runFrom
    apply (select_errands event progress).bind
    rintro ⟨chosen, reached⟩ ⟨moves, -⟩
    cases chosen with
    | none => exact .pure (moves.calm spares)
    | some transition => exact .pure (moves.calm spares)
  | succ remaining ih =>
    unfold runFrom
    apply (select_errands event progress).bind
    rintro ⟨chosen, reached⟩ ⟨moves, -⟩
    have searched : Calm progress reached := moves.calm spares
    cases chosen with
    | none => exact .pure searched
    | some transition =>
      apply (fire_errands transition event.id reached).bind
      intro fired taking
      have taken : Calm reached fired := (Calm.note rfl).trans (taking.moves.calm spares)
      have stepped := taken.trans (.withSteps (steps + 1) fired)
      exact (ih _ _ _).mono fun _ => (searched.trans stepped).trans

theorem runToCompletion_calm (event : Event) (progress : Progress User) :
    Yields (kernel.runToCompletion event progress) fun completion =>
      Calm progress completion.reached :=
  (runFrom_calm spares _ _ _ _).mono fun _ => (Calm.withSteps 0 progress).trans

/-- The end of a tick. -/
theorem finish_calm (outcome : Outcome) (progress : Progress User) :
    Yields (kernel.finish outcome progress) fun answer =>
      answer.1 = outcome ∧ Calm progress answer.2 := by
  apply (runActivities_moves _).bind
  intro after moves
  have ended := (Calm.withPhase .activity progress).trans (moves.calm spares)
  exact .pure ⟨rfl, ended.trans (.withPhase .idle after)⟩

end

/-! ### Serving events -/

/-- From one moment to another, events have been taken from the queue and handled, and those
that are done with have been traced. -/
structure Serves (before : Progress User) (handled : List Handling) (after : Progress User) :
    Prop where
  inLine : after.inst.InLine
  handles : Handles before.inst.mailbox handled after.inst.mailbox
  traffic_eq : after.traffic = before.traffic.serve (allDone handled)

namespace Serves

variable {handled later : List Handling} {event : Event} {inst : Instance}

theorem of_calm (inLine : before.inst.InLine) (calm : Calm before after) :
    Serves before [] after where
  inLine := inLine.of_queue_eq calm.queue_eq
  handles := calm.mailbox_eq ▸ .nil _
  traffic_eq := calm.traffic_eq.trans (Traffic.serve_nil _).symm

theorem trans (first : Serves before handled middle) (second : Serves middle later after) :
    Serves before (handled ++ later) after where
  inLine := second.inLine
  handles := first.handles.append second.handles
  traffic_eq := by
    rw [second.traffic_eq, first.traffic_eq, Traffic.serve_serve, Handling.allDone_append]

theorem trans_calm (first : Serves before handled middle) (calm : Calm middle after) :
    Serves before handled after := by
  have both := first.trans (.of_calm first.inLine calm)
  rwa [List.append_nil] at both

/-- An event without a mark is taken and traced. -/
theorem done (inLine : inst.InLine)
    (taken : progress.inst.mailbox.dequeue = (some event, inst.mailbox))
    (plain : event.flags.deferred = false) :
    Serves progress [.done event]
      ((progress.withInst inst).note (.event event.id event.priority)) where
  inLine := inLine
  handles := .done taken plain (.nil _)
  traffic_eq := Progress.traffic_note _ _

/-- An event with a mark is taken and put back without it. -/
theorem putOff (filed : progress.inst.mailbox.Filed) (inLine : inst.InLine)
    (taken : progress.inst.mailbox.dequeue = (some event, inst.mailbox))
    (deferred : event.flags.deferred = true) :
    Yields (requeue event (progress.withInst inst)) (Serves progress [.putOff event]) := by
  have back := filed.offer_putOff taken
  apply (enqueueOrNote_yields _ _ _).mono
  rintro after ⟨accepted, queue, put, rfl⟩
  have follows := (inLine.enqueue_follows event.unmarked event.priority).yields.of_eq _ put
  have agrees : (accepted, queue.mailbox) = (true, inst.mailbox.put event.unmarked) :=
    follows.agrees.trans back
  obtain ⟨rfl, filled⟩ := Prod.mk.inj agrees
  exact ⟨follows.inLine, .putOff taken deferred (filled ▸ back) (.nil _),
    (Traffic.serve_nil _).symm⟩

end Serves

/-- Of a budget, so many events were taken, and the rest is left. -/
def Service.Counts (budget taken : Nat) : Service User → Prop
  | .served left _ _ => left + taken = budget
  | _ => taken ≤ budget

theorem Service.Counts.succ {budget taken : Nat} {service : Service User}
    (counts : service.Counts budget taken) : service.Counts (budget + 1) (taken + 1) := by
  cases service with
  | served left transitions progress => exact congrArg Nat.succ counts
  | _ => exact Nat.succ_le_succ counts

/-- Serving from one moment on takes events from the queue and handles them, and counts them. -/
def Tallies (budget : Nat) (before : Progress User) (service : Service User) : Prop :=
  ∃ handled, Serves before handled service.reached ∧ service.Counts budget handled.length

namespace Tallies

variable {budget : Nat} {service : Service User} {handling : Handling}

theorem of_calm (inLine : before.inst.InLine) (calm : Calm before service.reached)
    (counts : service.Counts budget 0) : Tallies budget before service :=
  ⟨[], .of_calm inLine calm, counts⟩

/-- What comes before is calm. -/
theorem after_calm (calm : Calm before middle) (inLine : before.inst.InLine)
    (tallies : Tallies budget middle service) : Tallies budget before service := by
  obtain ⟨handled, serves, counts⟩ := tallies
  exact ⟨handled, (Serves.of_calm inLine calm).trans serves, counts⟩

/-- What comes before is the handling of one event. -/
theorem after_one (first : Serves before [handling] middle)
    (tallies : Tallies budget middle service) : Tallies (budget + 1) before service := by
  obtain ⟨handled, serves, counts⟩ := tallies
  exact ⟨handling :: handled, first.trans serves, counts.succ⟩

end Tallies

section

variable (spares : kernel.dispatch.Preserves Instance.queue)

include spares

/-- The entry phase takes no events. -/
theorem enterPhase_tallies {budget : Nat} {next : Progress User → Except Fault (Service User)}
    (goes : ∀ progress : Progress User, progress.inst.InLine → progress.inst.mailbox.Filed →
      Yields (next progress) (Tallies budget progress))
    (inLine : progress.inst.InLine) (filed : progress.inst.mailbox.Filed) :
    Yields (kernel.enterPhase next progress) (Tallies budget progress) := by
  have entry := Calm.withPhase .entry progress
  have ready := inLine.of_queue_eq entry.queue_eq
  unfold enterPhase
  show Yields (if _ then _ else _) _
  split
  · exact (goes _ ready (entry.mailbox_eq ▸ filed)).mono fun _ => .after_calm entry inLine
  · apply (descend_errands rootIndex _).bind
    rintro after ⟨moves, -⟩
    exact .pure (.of_calm inLine (entry.trans (moves.calm spares)) (Nat.zero_le _))

/-- An event that is served takes no other, unless it is gone on with `next`. -/
theorem serveEvent_tallies {budget transitions : Nat}
    {next : Nat → Progress User → Except Fault (Service User)} (event : Event)
    (goes : ∀ transitions (progress : Progress User), progress.inst.InLine →
      progress.inst.mailbox.Filed → Yields (next transitions progress) (Tallies budget progress))
    (inLine : progress.inst.InLine) (filed : progress.inst.mailbox.Filed) :
    Yields (kernel.serveEvent budget transitions next event progress)
      (Tallies budget progress) := by
  unfold serveEvent
  apply (runToCompletion_calm spares event _).bind
  intro completion ran
  have calm : Calm progress completion.reached := (Calm.withPhase .rtc progress).trans ran
  cases completion with
  | overflow after => exact .pure (.of_calm inLine calm (Nat.zero_le _))
  | settled steps after =>
    show Yields (if _ then _ else _) _
    split
    · have ready := inLine.of_queue_eq calm.queue_eq
      apply (enterPhase_tallies spares (goes _) ready (calm.mailbox_eq ▸ filed)).mono
      exact fun _ => .after_calm calm inLine
    · exact .pure (.of_calm inLine calm (Nat.add_zero _))

/-- Taking events from the queue, one after the other. -/
theorem serve_tallies (budget transitions : Nat) (progress : Progress User)
    (inLine : progress.inst.InLine) (filed : progress.inst.mailbox.Filed) :
    Yields (kernel.serve budget transitions progress) (Tallies budget progress) := by
  -- Each event costs one of the budget, whether it is done with or put off.
  induction budget generalizing transitions progress with
  | zero => exact .ok (.of_calm inLine (.refl _) rfl)
  | succ budget ih =>
    unfold serve
    apply inLine.dequeue_follows.yields.bind
    rintro ⟨next, inst⟩ follows
    cases next with
    | none => exact .pure (.of_calm inLine (.refl _) rfl)
    | some event =>
      have taken := follows.agrees.symm
      show Yields (if _ then _ else _) _
      split
      · next deferred =>
        apply (Serves.putOff filed follows.inLine taken deferred).bind
        intro back served
        have filedBack := served.handles.filed filed
        exact (ih _ back served.inLine filedBack).mono fun _ => .after_one served
      · next plain =>
        have served := Serves.done follows.inLine taken (Bool.eq_false_iff.2 plain)
        have filedOn := served.handles.filed filed
        exact (serveEvent_tallies spares event ih served.inLine filedOn).mono
          fun _ => .after_one served

end

end Kernel

end Statechart
