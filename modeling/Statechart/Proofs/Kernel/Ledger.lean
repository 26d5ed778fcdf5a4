/-
# What a tick spends

A tick has two budgets: of events that it takes from the queue, and of transitions that one of
them sets off. `Spends` is the ledger of a tick. It lists what was taken from the queue and what
became of it, and tells how many transitions each run to completion took. Between these entries
there are only moves, which take nothing, and the passing of time.

The ledger is kept for whatever definition, callbacks and instance there may be. Callbacks can
fill the queue again as often as they are called, so it is the budgets alone that end a tick,
and not what is left to be done.

No part of a tick takes back what was traced before (`Spends.trace_prefix`).
-/

import Statechart.Proofs.Kernel.Remembering
import Statechart.Proofs.Kernel.Traffic

namespace Statechart

/-- A step below the level of transitions is none. -/
theorem Trace.Entry.Inner.isTransition_eq {entry : Trace.Entry} (inner : entry.Inner) :
    entry.isTransition = false := by
  cases entry <;> first | rfl | cases inner

namespace Kernel

open Rom (rootIndex)

variable {User : Type} {kernel : Kernel User} {delta : UInt32}
  {progress before middle after : Progress User}

/-- How many transitions were taken so far. -/
def Progress.fired (progress : Progress User) : Nat :=
  progress.trace.toList.countP Trace.Entry.isTransition

@[simp]
theorem Progress.fired_note (progress : Progress User) (entry : Trace.Entry) :
    (progress.note entry).fired = progress.fired + entry.isTransition.toNat := by
  unfold fired note
  rw [Array.toList_push, List.countP_append, List.countP_singleton]
  cases entry.isTransition <;> rfl

/-! ### Traces only grow -/

/-- What was traced before is still there. -/
def Grows (before after : Progress User) : Prop :=
  before.trace.toList <+: after.trace.toList

namespace Grows

theorem refl (progress : Progress User) : Grows progress progress :=
  List.prefix_refl _

theorem trans (first : Grows before middle) (second : Grows middle after) : Grows before after :=
  List.IsPrefix.trans first second

theorem note (progress : Progress User) (entry : Trace.Entry) :
    Grows progress (progress.note entry) :=
  ⟨[entry], Array.toList_push.symm⟩

end Grows

theorem Moves.grows (moves : Moves kernel before after) : Grows before after := by
  induction moves with
  | refl => exact .refl _
  | tail _ move ih =>
    apply ih.trans
    cases move with
    | called same _ => exact ⟨[], (List.append_nil _).trans (congrArg Array.toList same.symm)⟩
    | noted _ => exact .note _ _
    | written _ => exact .refl _

theorem Moves.fired_eq (moves : Moves kernel before after) : after.fired = before.fired := by
  induction moves with
  | refl => rfl
  | tail _ move ih =>
    rw [← ih]
    cases move with
    | called same _ => rw [Progress.fired, same, Progress.fired]
    | noted inner => rw [Progress.fired_note, inner.isTransition_eq]; rfl
    | written _ => rfl

theorem enqueueOrNote_grows (event : Event) (priority : Priority) (progress : Progress User) :
    Yields (enqueueOrNote event priority progress) (Grows progress) := by
  apply (enqueueOrNote_yields event priority progress).mono
  rintro _ ⟨accepted, inst, _, rfl⟩
  split
  · exact .refl progress
  · exact .note (progress.withInst inst) _

theorem Tock.grows {slot : Nat} (tock : Tock kernel delta slot before after) :
    Grows before after := by
  cases tock with
  | unarmed _ => exact .refl _
  | waned _ _ _ => exact .refl _
  | lapsed _ _ _ _ _ => exact .refl _
  | @expired _ inst owner acted _ _ _ _ _ _ ran queued =>
    have acting := ((runAction_errands _ _ _ _).of_eq _ ran).moves.grows
    have noted : Grows before
        ((before.withInst inst).note (.timerFired (UInt16.ofNat slot) owner)) :=
      .note _ _
    exact noted.trans (acting.trans ((enqueueOrNote_grows _ _ _).of_eq _ queued))

theorem Elapses.grows {slots : List Nat} (elapses : Elapses kernel delta slots before after) :
    Grows before after := by
  induction elapses with
  | nil => exact .refl _
  | cons tock _ ih => exact tock.grows.trans ih

/-! ### Runs to completion -/

/-- So many transitions were taken. -/
structure Fires (before : Progress User) (count : Nat) (after : Progress User) : Prop where
  grows : Grows before after
  fired_eq : after.fired = before.fired + count

namespace Fires

theorem of_moves (moves : Moves kernel before after) : Fires before 0 after :=
  ⟨moves.grows, moves.fired_eq⟩

theorem trans {first second : Nat} (earlier : Fires before first middle)
    (later : Fires middle second after) : Fires before (first + second) after where
  grows := earlier.grows.trans later.grows
  fired_eq := by rw [later.fired_eq, earlier.fired_eq, Nat.add_assoc]

end Fires

/-- Taking a transition. -/
theorem fire_fires (transition : Rom.TransitionRecord) (event : UInt16)
    (progress : Progress User) :
    Yields (kernel.fire transition event progress) (Fires progress 1) := by
  apply (fire_errands transition event progress).mono
  rintro after ⟨moves, -⟩
  have noted : Fires progress 1
      (progress.note (.transition transition.source transition.target event)) :=
    ⟨.note _ _, Progress.fired_note _ _⟩
  exact noted.trans (.of_moves moves)

/-- A run to completion takes no more transitions than it may. -/
theorem runFrom_fires (remaining steps : Nat) (event : Event) (progress : Progress User) :
    Yields (kernel.runFrom remaining steps event progress) fun completion =>
      ∃ count, Fires progress count completion.reached ∧ count ≤ remaining := by
  induction remaining generalizing steps event progress with
  | zero =>
    unfold runFrom
    apply (select_errands event progress).bind
    rintro ⟨chosen, reached⟩ ⟨moves, -⟩
    cases chosen with
    | none => exact .pure ⟨0, .of_moves moves, Nat.le_refl _⟩
    | some transition => exact .pure ⟨0, .of_moves moves, Nat.le_refl _⟩
  | succ remaining ih =>
    unfold runFrom
    apply (select_errands event progress).bind
    rintro ⟨chosen, reached⟩ ⟨moves, -⟩
    have searched : Fires progress 0 reached := .of_moves moves
    cases chosen with
    | none => exact .pure ⟨0, searched, Nat.zero_le _⟩
    | some transition =>
      apply (fire_fires transition event.id reached).bind
      intro taken fires
      apply (ih (steps + 1) .completion (withSteps (steps + 1) taken)).mono
      rintro completion ⟨count, more, few⟩
      have stepped : Fires taken 0 (withSteps (steps + 1) taken) := ⟨.refl _, rfl⟩
      refine ⟨_, searched.trans (fires.trans (stepped.trans more)), ?_⟩
      omega

theorem runToCompletion_fires (event : Event) (progress : Progress User) :
    Yields (kernel.runToCompletion event progress) fun completion =>
      ∃ count, Fires progress count completion.reached ∧
        count ≤ kernel.limits.rtcSteps.toNat := by
  apply (runFrom_fires _ 0 event (withSteps 0 progress)).mono
  rintro completion ⟨count, fires, few⟩
  exact ⟨count, ⟨fires.grows, fires.fired_eq⟩, few⟩

/-! ### The ledger -/

/-- An item of a tick's ledger. -/
inductive Outlay
  /-- A deferred event was taken from the queue and put back. -/
  | putOff
  /-- An event was taken from the queue and run to completion, which took so many transitions. -/
  | ran (count : Nat)
  /-- A run to completion that an earlier tick had left was gone on with. -/
  | resumed (count : Nat)

namespace Outlay

/-- Whether an event was taken from the queue. -/
def isTaken : Outlay → Bool
  | putOff => true
  | ran _ => true
  | resumed _ => false

/-- How many transitions were taken. -/
def count : Outlay → Nat
  | putOff => 0
  | ran count => count
  | resumed count => count

end Outlay

/-- The way of a tick from one moment to another, with its outlays. -/
inductive Spends (kernel : Kernel User) (delta : UInt32) :
    Progress User → List Outlay → Progress User → Prop
  | done {progress : Progress User} : Spends kernel delta progress [] progress
  | moved {outlays : List Outlay} {before middle after : Progress User} :
      Move kernel before middle → Spends kernel delta middle outlays after →
      Spends kernel delta before outlays after
  /-- Time passes for some timers. -/
  | elapsed {slots : List Nat} {outlays : List Outlay} {before middle after : Progress User} :
      Elapses kernel delta slots before middle → Spends kernel delta middle outlays after →
      Spends kernel delta before outlays after
  /-- The configuration is dropped. -/
  | dropped {outlays : List Outlay} {before after : Progress User} :
      Spends kernel delta (kernel.contain before) outlays after →
      Spends kernel delta before outlays after
  | putOff {event : Event} {inst : Instance} {outlays : List Outlay}
      {before middle after : Progress User} :
      before.inst.dequeue = .ok (some event, inst) → event.flags.deferred = true →
      requeue event (before.withInst inst) = .ok middle →
      Spends kernel delta middle outlays after →
      Spends kernel delta before (.putOff :: outlays) after
  | ran {event : Event} {inst : Instance} {count : Nat} {completion : Completion User}
      {outlays : List Outlay} {before after : Progress User} :
      before.inst.dequeue = .ok (some event, inst) → event.flags.deferred = false →
      kernel.runToCompletion event
        (((before.withInst inst).note (.event event.id event.priority)).withPhase .rtc) =
          .ok completion →
      completion.reached.fired = before.fired + count →
      Spends kernel delta completion.reached outlays after →
      Spends kernel delta before (.ran count :: outlays) after
  | resumed {count : Nat} {completion : Completion User} {outlays : List Outlay}
      {before after : Progress User} :
      kernel.runToCompletion .completion (before.withPhase .rtc) = .ok completion →
      completion.reached.fired = before.fired + count →
      Spends kernel delta completion.reached outlays after →
      Spends kernel delta before (.resumed count :: outlays) after

/-- How many events were taken from the queue. -/
def taken (outlays : List Outlay) : Nat :=
  outlays.countP Outlay.isTaken

namespace Spends

variable {outlays later : List Outlay}

theorem trans (first : Spends kernel delta before outlays middle)
    (second : Spends kernel delta middle later after) :
    Spends kernel delta before (outlays ++ later) after := by
  induction first with
  | done => exact second
  | moved move _ ih => exact .moved move (ih second)
  | elapsed elapses _ ih => exact .elapsed elapses (ih second)
  | dropped _ ih => exact .dropped (ih second)
  | putOff takes deferred back _ ih => exact .putOff takes deferred back (ih second)
  | ran takes plain runs counts _ ih => exact .ran takes plain runs counts (ih second)
  | resumed runs counts _ ih => exact .resumed runs counts (ih second)

/-- What comes after the last outlay. -/
theorem trans_nil (first : Spends kernel delta before outlays middle)
    (second : Spends kernel delta middle [] after) : Spends kernel delta before outlays after := by
  have whole := first.trans second
  rwa [List.append_nil] at whole

theorem of_moves (moves : Moves kernel before after) : Spends kernel delta before [] after := by
  induction moves with
  | refl => exact .done
  | tail _ move ih => exact ih.trans (.moved move .done)

theorem of_withPhase (phase : Phase) (progress : Progress User) :
    Spends kernel delta progress [] (progress.withPhase phase) :=
  .of_moves (.write rfl)

/-- No part of a tick takes back what was traced before. -/
theorem trace_prefix (spends : Spends kernel delta before outlays after) : Grows before after := by
  induction spends with
  | done => exact .refl _
  | moved move _ ih => exact (Moves.grows (.single move)).trans ih
  | elapsed elapses _ ih => exact elapses.grows.trans ih
  | @dropped _ before _ _ ih =>
    have noted : Grows before (kernel.contain before) := .note _ _
    exact noted.trans ih
  | @putOff event inst _ before middle _ _ _ back _ ih =>
    have queued : Grows (before.withInst inst) middle :=
      (enqueueOrNote_grows _ _ _).of_eq _ back
    exact Grows.trans queued ih
  | @ran event inst _ _ _ before _ _ _ runs _ _ ih =>
    obtain ⟨_, fires, _⟩ := (runToCompletion_fires _ _).of_eq _ runs
    have noted : Grows before ((before.withInst inst).note (.event event.id event.priority)) :=
      .note _ _
    exact noted.trans (fires.grows.trans ih)
  | resumed runs _ _ ih =>
    obtain ⟨_, fires, _⟩ := (runToCompletion_fires _ _).of_eq _ runs
    exact Grows.trans fires.grows ih

/-- No run to completion has taken more transitions than the limits allow. -/
theorem count_le (spends : Spends kernel delta before outlays after) :
    ∀ outlay ∈ outlays, outlay.count ≤ kernel.limits.rtcSteps.toNat := by
  have within {event : Event} {start : Progress User} {completion : Completion User}
      {count fired : Nat} (runs : kernel.runToCompletion event start = .ok completion)
      (same : start.fired = fired) (counts : completion.reached.fired = fired + count) :
      count ≤ kernel.limits.rtcSteps.toNat := by
    obtain ⟨_, fires, few⟩ := (runToCompletion_fires _ _).of_eq _ runs
    have exactly := fires.fired_eq
    omega
  induction spends with
  | done => exact nofun
  | moved _ _ ih => exact ih
  | elapsed _ _ ih => exact ih
  | dropped _ ih => exact ih
  | putOff _ _ _ _ ih => exact List.forall_mem_cons.2 ⟨Nat.zero_le _, ih⟩
  | ran _ _ runs counts _ ih =>
    exact List.forall_mem_cons.2 ⟨within runs (Progress.fired_note _ _) counts, ih⟩
  | resumed runs counts _ ih => exact List.forall_mem_cons.2 ⟨within runs rfl counts, ih⟩

end Spends

/-! ### Serving events -/

/-- From one moment on, so much was spent on the events of a tick; of the budget, what was taken
and what is left make up the whole. -/
def Affords (kernel : Kernel User) (delta : UInt32) (budget : Nat) (before : Progress User)
    (service : Service User) : Prop :=
  ∃ outlays, Spends kernel delta before outlays service.reached ∧
    service.Counts budget (taken outlays)

namespace Affords

variable {budget : Nat} {service : Service User}

/-- Nothing is taken on the way to where events are served from. -/
theorem after_moves (spends : Spends kernel delta before [] middle)
    (affords : Affords kernel delta budget middle service) :
    Affords kernel delta budget before service := by
  obtain ⟨outlays, more, counts⟩ := affords
  exact ⟨outlays, spends.trans more, counts⟩

/-- One event is taken first. -/
theorem after_one {outlay : Outlay} (spends : Spends kernel delta before [outlay] middle)
    (takes : outlay.isTaken = true) (affords : Affords kernel delta budget middle service) :
    Affords kernel delta (budget + 1) before service := by
  obtain ⟨outlays, more, counts⟩ := affords
  refine ⟨outlay :: outlays, spends.trans more, ?_⟩
  rw [taken, List.countP_cons_of_pos takes]
  exact counts.succ

end Affords

/-- The entry phase takes no events. -/
theorem enterPhase_affords {budget : Nat} {next : Progress User → Except Fault (Service User)}
    (goes : ∀ progress, Yields (next progress) (Affords kernel delta budget progress))
    (progress : Progress User) :
    Yields (kernel.enterPhase next progress) (Affords kernel delta budget progress) := by
  have entry : Spends kernel delta progress [] (progress.withPhase .entry) := .of_withPhase _ _
  unfold enterPhase
  show Yields (if _ then _ else _) _
  split
  · exact (goes _).mono fun _ => .after_moves entry
  · apply (descend_errands rootIndex _).bind
    rintro after ⟨moves, -⟩
    exact .pure ⟨[], entry.trans (.of_moves moves), Nat.zero_le _⟩

/-- How a run to completion ends the service of an event, or is followed by others. -/
theorem serveEvent_yields {budget transitions : Nat}
    {next : Nat → Progress User → Except Fault (Service User)}
    (goes : ∀ transitions progress,
      Yields (next transitions progress) (Affords kernel delta budget progress))
    (event : Event) (progress : Progress User) :
    Yields (kernel.serveEvent budget transitions next event progress) fun service =>
      ∃ completion, kernel.runToCompletion event (progress.withPhase .rtc) = .ok completion ∧
        Affords kernel delta budget completion.reached service := by
  unfold serveEvent
  apply (Yields.self _).bind
  intro completion runs
  cases completion with
  | overflow after => exact .pure ⟨_, runs, [], .done, Nat.zero_le _⟩
  | settled steps after =>
    show Yields (if _ then _ else _) _
    split
    · exact (enterPhase_affords (goes _) after).mono fun _ affords => ⟨_, runs, affords⟩
    · exact .pure ⟨_, runs, [], .done, Nat.add_zero _⟩

/-- Taking events from the queue, one after the other. -/
theorem serve_affords (budget transitions : Nat) (progress : Progress User) :
    Yields (kernel.serve budget transitions progress) (Affords kernel delta budget progress) := by
  -- Each event costs one of the budget, whether it is run or put off.
  induction budget generalizing transitions progress with
  | zero => exact .ok ⟨[], .done, rfl⟩
  | succ budget ih =>
    unfold serve
    apply (Yields.self _).bind
    rintro ⟨next, inst⟩ takes
    cases next with
    | none => exact .pure ⟨[], .done, rfl⟩
    | some event =>
      show Yields (if _ then _ else _) _
      split
      · next deferred =>
        apply (Yields.self _).bind
        intro back queued
        have put : Spends kernel delta _ _ back := .putOff takes deferred queued .done
        exact (ih transitions back).mono fun _ => .after_one put rfl
      · next plain =>
        apply (serveEvent_yields (fun transitions => ih transitions) event _).mono
        rintro service ⟨completion, runs, affords⟩
        obtain ⟨count, fires, _⟩ := (runToCompletion_fires _ _).of_eq _ runs
        have counts : completion.reached.fired = progress.fired + count :=
          fires.fired_eq.trans (congrArg (· + count) (Progress.fired_note _ _))
        exact .after_one (.ran takes (Bool.eq_false_iff.2 plain) runs counts .done) rfl affords

/-! ### Ticks -/

/-- What a tick has spent from one moment to its end. No more events are taken than the limits
allow, and their number is reported if the tick is complete. -/
def Balanced (kernel : Kernel User) (delta : UInt32) (before : Progress User)
    (answer : Outcome × Progress User) : Prop :=
  ∃ outlays, Spends kernel delta before outlays answer.2 ∧
    taken outlays ≤ kernel.limits.events.toNat ∧
    ∀ events transitions, answer.1 = .completed events transitions → events = taken outlays

/-- What comes before the events takes none of them. -/
theorem Balanced.later_on {outlays : List Outlay} {answer : Outcome × Progress User}
    (spends : Spends kernel delta before outlays middle) (none : taken outlays = 0)
    (balanced : Balanced kernel delta middle answer) : Balanced kernel delta before answer := by
  obtain ⟨later, more, few, counted⟩ := balanced
  have all : taken (outlays ++ later) = taken later := by
    rw [taken, List.countP_append]
    exact (congrArg (· + taken later) none).trans (Nat.zero_add _)
  exact ⟨outlays ++ later, spends.trans more, all.symm ▸ few, all.symm ▸ counted⟩

theorem finish_balanced {outlays : List Outlay} {outcome : Outcome}
    (spends : Spends kernel delta before outlays progress)
    (few : taken outlays ≤ kernel.limits.events.toNat)
    (counted : ∀ events transitions, outcome = .completed events transitions →
      events = taken outlays) :
    Yields (kernel.finish outcome progress) (Balanced kernel delta before) := by
  have activity : Spends kernel delta progress [] (progress.withPhase .activity) :=
    .of_withPhase _ _
  unfold finish
  apply (runActivities_moves _).bind
  intro after moves
  have last := (activity.trans (.of_moves moves)).trans (.of_withPhase .idle after)
  exact .pure ⟨outlays, spends.trans_nil last, few, counted⟩

theorem conclude_balanced {service : Service User}
    (affords : Affords kernel delta kernel.limits.events.toNat before service) :
    Yields (kernel.conclude service) (Balanced kernel delta before) := by
  obtain ⟨outlays, spends, counts⟩ := affords
  cases service with
  | started progress => exact finish_balanced spends counts nofun
  | served left transitions progress =>
    have all : left + taken outlays = kernel.limits.events.toNat := counts
    refine finish_balanced spends (by omega) ?_
    rintro _ _ ⟨⟩
    omega
  | overflow progress => exact .ok ⟨outlays, spends.trans_nil (.dropped .done), counts, nofun⟩

theorem rest_balanced (progress : Progress User) :
    Yields (kernel.finish (.completed 0 0) progress) (Balanced kernel delta progress) := by
  refine finish_balanced .done (Nat.zero_le _) ?_
  rintro _ _ ⟨⟩
  rfl

theorem enter_balanced (progress : Progress User) :
    Yields (kernel.enterPhase (kernel.serve kernel.limits.events.toNat 0) progress
      >>= kernel.conclude) (Balanced kernel delta progress) :=
  (enterPhase_affords (serve_affords _ 0) progress).bind fun _ => conclude_balanced

theorem runPhases_balanced (phase : Phase) (progress : Progress User) :
    Yields (kernel.runPhases phase delta progress) (Balanced kernel delta progress) := by
  cases phase with
  | idle =>
    unfold runPhases
    apply (advanceTimers_yields _).bind
    intro aged passes
    have idle : Spends kernel delta progress [] (progress.withPhase .idle) := .of_withPhase _ _
    have ages : Spends kernel delta progress [] aged := by
      rcases passes with ⟨_, rfl⟩ | ⟨_, elapses⟩
      · exact idle
      · exact idle.trans (.elapsed elapses .done)
    split
    · exact (rest_balanced aged).mono fun _ => .later_on ages rfl
    · exact (enter_balanced aged).mono fun _ => .later_on ages rfl
  | entry => exact enter_balanced progress
  | rtc =>
    unfold runPhases
    apply (serveEvent_yields (serve_affords _) .completion progress).bind
    rintro service ⟨completion, runs, affords⟩
    obtain ⟨count, fires, _⟩ := (runToCompletion_fires _ _).of_eq _ runs
    exact (conclude_balanced affords).mono fun _ =>
      .later_on (.resumed runs fires.fired_eq .done) rfl
  | activity => exact rest_balanced progress

/-- Of a tick that ends there is a ledger, and it is balanced. -/
theorem tick_balanced (scene : Scene User) :
    Yields (kernel.tick delta scene) (Balanced kernel delta (.ofScene scene)) := by
  unfold tick
  simp only
  split
  · split
    · exact runPhases_balanced _ _
    · exact .ok ⟨[], .done, Nat.zero_le _, nofun⟩
  · exact .ok ⟨[], .done, Nat.zero_le _, nofun⟩

end Kernel

end Statechart
