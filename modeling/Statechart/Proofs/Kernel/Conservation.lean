/-
# Events are neither lost nor doubled

What a tick does to the queue can be told from the trace (`Account`). The events that wait at
first, and of the timers' events those for which there is room, are served or still wait
afterwards, and nothing else does. Events are served in the order of the agenda. An event that
is put off finds its place again, and it has lost its mark then, so over the whole life of an
instance no more events are put off than have arrived with a mark (`tick_conserves`).

The first part of the account is settled when time has passed (`Aged`), the second one by serving
events (`Answers`). Neither depends on how the tick ends, so the account holds as well if the
configuration is dropped.
-/

import Statechart.Proofs.Chart.Compilation
import Statechart.Proofs.Kernel.Safety
import Statechart.Proofs.Kernel.Traffic

namespace Statechart

open Handling (allDone allPutOff)

namespace Kernel

open Trace (Traffic)

variable {User : Type} {kernel : Kernel User} {delta : UInt32} {start : Mailbox}
  {progress before middle after : Progress User}

/-! ### Time -/

/-- Since a mailbox was `start`, nothing has happened but that timers have run out. Their events
were let in as long as there was room, and the others are lost. -/
structure Aged (start : Mailbox) (expired : List Event) (progress : Progress User) : Prop where
  inLine : progress.inst.InLine
  mailbox_eq : progress.inst.mailbox = start.receive expired
  timers (event : Event) : event ∈ expired → ∃ slot owner, event = .timer slot owner
  traffic_eq : progress.traffic =
    ⟨[], expired, .replicate (expired.length - start.room) Event.timerId⟩

namespace Aged

variable {expired : List Event}

theorem ofScene {scene : Scene User} (inLine : scene.inst.InLine) :
    Aged scene.inst.mailbox [] (.ofScene scene) where
  inLine := inLine
  mailbox_eq := Mailbox.receive_nil.symm
  timers := nofun
  traffic_eq := by simp [Progress.traffic, Progress.ofScene, Trace.traffic, Traffic.none]

theorem calm (aged : Aged start expired before) (calm : Calm before after) :
    Aged start expired after where
  inLine := aged.inLine.of_queue_eq calm.queue_eq
  mailbox_eq := calm.mailbox_eq.trans aged.mailbox_eq
  timers := aged.timers
  traffic_eq := calm.traffic_eq.trans aged.traffic_eq

theorem ordinary (aged : Aged start expired progress) (event : Event) (listed : event ∈ expired) :
    event.priority ≠ .interrupt := by
  obtain ⟨slot, owner, rfl⟩ := aged.timers event listed
  exact nofun

theorem plain (aged : Aged start expired progress) (event : Event) (listed : event ∈ expired) :
    event.flags.deferred = false := by
  obtain ⟨slot, owner, rfl⟩ := aged.timers event listed
  rfl

theorem filed (aged : Aged start expired progress) (filed : start.Filed) :
    progress.inst.mailbox.Filed :=
  aged.mailbox_eq ▸ filed.receive aged.ordinary

/-- A timer runs out, and its event is queued if there is room for it. -/
theorem expire (aged : Aged start expired before) {slot owner : UInt16} {acted : Progress User}
    (acting : Calm (before.note (.timerFired slot owner)) acted) :
    Yields (enqueueOrNote (.timer slot owner) .normal acted)
      (Aged start (expired ++ [.timer slot owner])) := by
  let event := Event.timer slot owner
  have ordinary : (Event.timer slot owner).priority ≠ .interrupt := nofun
  have inLine := aged.inLine.of_queue_eq acting.queue_eq
  have told : acted.traffic = ⟨[], expired ++ [event],
      .replicate (expired.length - start.room) Event.timerId⟩ := by
    rw [acting.traffic_eq, Progress.traffic_note, aged.traffic_eq]
    rfl
  have timers (other : Event) (listed : other ∈ expired ++ [event]) :
      ∃ slot owner, other = .timer slot owner := by
    rcases List.mem_append.1 listed with earlier | last
    · exact aged.timers other earlier
    · exact ⟨slot, owner, List.mem_singleton.1 last⟩
  apply (enqueueOrNote_yields _ _ _).mono
  rintro after ⟨accepted, queue, put, rfl⟩
  have follows := (inLine.enqueue_follows event .normal).yields.of_eq _ put
  have offered : (accepted, queue.mailbox) = (start.receive expired).offer event :=
    follows.agrees.trans (by rw [acting.mailbox_eq, ← aged.mailbox_eq]; rfl)
  rw [Mailbox.offer_receive aged.ordinary ordinary] at offered
  obtain ⟨free, filled⟩ := Prod.mk.inj offered
  split
  · next taken =>
    have room : expired.length < start.room := of_decide_eq_true (free.symm.trans taken)
    refine ⟨follows.inLine, filled, timers, told.trans ?_⟩
    rw [List.length_append, List.length_singleton, Nat.sub_eq_zero_of_le (Nat.le_of_lt room),
      Nat.sub_eq_zero_of_le room]
  · next refused =>
    have full : start.room ≤ expired.length := by
      rw [free, decide_eq_true_eq] at refused
      exact Nat.le_of_not_lt refused
    refine ⟨follows.inLine, filled, timers, ?_⟩
    rw [Progress.traffic_note, Progress.traffic_withInst, told, List.length_append,
      List.length_singleton, Nat.sub_add_comm full, List.replicate_succ']
    rfl

end Aged

section

variable (spares : kernel.dispatch.Preserves Instance.queue)

include spares

theorem Tock.aged {slot : Nat} {expired : List Event} (tock : Tock kernel delta slot before after)
    (aged : Aged start expired before) : ∃ expired, Aged start expired after := by
  have writing {value : UInt32} {inst : Instance}
      (written : before.inst.setTimer slot value = .ok inst) :
      Calm before (before.withInst inst) :=
    .write ((Instance.setTimer_queue value).of_eq _ written)
  cases tock with
  | unarmed _ => exact ⟨expired, aged⟩
  | waned _ _ written => exact ⟨expired, aged.calm (writing written)⟩
  | lapsed _ _ _ written _ => exact ⟨expired, aged.calm (writing written)⟩
  | expired _ _ _ written _ ran queued =>
    -- The action is run between the note and the event, and it leaves the queue alone.
    have acting := ((runAction_errands _ _ _ _).of_eq _ ran).moves.calm spares
    exact ⟨_, ((aged.calm (writing written)).expire acting).of_eq _ queued⟩

theorem Elapses.aged {slots : List Nat} {expired : List Event}
    (elapses : Elapses kernel delta slots before after) (aged : Aged start expired before) :
    ∃ expired, Aged start expired after := by
  induction elapses generalizing expired with
  | nil => exact ⟨expired, aged⟩
  | cons tock _ ih =>
    obtain ⟨more, next⟩ := tock.aged spares aged
    exact ih next

theorem advanceTimers_aged (aged : Aged start [] progress) :
    Yields (kernel.advanceTimers delta progress) fun after =>
      ∃ expired, Aged start expired after := by
  apply (advanceTimers_yields progress).mono
  rintro after (⟨_, rfl⟩ | ⟨_, elapses⟩)
  · exact ⟨[], aged⟩
  · exact elapses.aged spares aged

end

/-! ### Ticks -/

/-- From one moment to the end of a tick, events have been taken from the queue and handled, no
more of them than the limits allow, and their number is reported if the tick is complete. -/
def Answers (limits : Limits) (before : Progress User) (answer : Outcome × Progress User) : Prop :=
  ∃ handled, Serves before handled answer.2 ∧ handled.length ≤ limits.events.toNat ∧
    ∀ events transitions, answer.1 = .completed events transitions → events = handled.length

section

variable (spares : kernel.dispatch.Preserves Instance.queue)

include spares

theorem finish_answers {outcome : Outcome} {handled : List Handling}
    (serves : Serves before handled progress) (few : handled.length ≤ kernel.limits.events.toNat)
    (counted : ∀ events transitions, outcome = .completed events transitions →
      events = handled.length) :
    Yields (kernel.finish outcome progress) (Answers kernel.limits before) := by
  apply (finish_calm spares outcome progress).mono
  rintro ⟨_, after⟩ ⟨rfl, calm⟩
  exact ⟨handled, serves.trans_calm calm, few, counted⟩

theorem conclude_answers {service : Service User}
    (tallies : Tallies kernel.limits.events.toNat before service) :
    Yields (kernel.conclude service) (Answers kernel.limits before) := by
  obtain ⟨handled, serves, counts⟩ := tallies
  cases service with
  | started progress => exact finish_answers spares serves counts nofun
  | served left transitions progress =>
    have all : left + handled.length = kernel.limits.events.toNat := counts
    refine finish_answers spares serves (by omega) ?_
    rintro _ _ ⟨⟩
    omega
  | overflow progress =>
    exact .ok ⟨handled, serves.trans_calm (.contain kernel progress), counts, nofun⟩

theorem rest_answers (inLine : progress.inst.InLine) :
    Yields (kernel.finish (.completed 0 0) progress) (Answers kernel.limits progress) := by
  refine finish_answers spares (.of_calm inLine (.refl progress)) (Nat.zero_le _) ?_
  rintro _ _ ⟨⟩
  rfl

theorem enter_answers (inLine : progress.inst.InLine) (filed : progress.inst.mailbox.Filed) :
    Yields (kernel.enterPhase (kernel.serve kernel.limits.events.toNat 0) progress
      >>= kernel.conclude) (Answers kernel.limits progress) :=
  (enterPhase_tallies spares (serve_tallies spares _ 0) inLine filed).bind
    fun _ => conclude_answers spares

/-- A tick lets time pass and then serves events. A tick that was left in another phase goes on
there, and no time passes. -/
theorem runPhases_answers (phase : Phase) (filed : start.Filed) (aged : Aged start [] progress) :
    Yields (kernel.runPhases phase delta progress) fun answer =>
      ∃ expired middle, Aged start expired middle ∧ Answers kernel.limits middle answer := by
  cases phase with
  | idle =>
    have resumed := aged.calm (.withPhase .idle progress)
    unfold runPhases
    apply (advanceTimers_aged spares resumed).bind
    rintro middle ⟨expired, aged⟩
    have onward (answer : Outcome × Progress User) (answers : Answers kernel.limits middle answer) :
        ∃ expired middle, Aged start expired middle ∧ Answers kernel.limits middle answer :=
      ⟨expired, middle, aged, answers⟩
    split
    · exact (rest_answers spares aged.inLine).mono onward
    · exact (enter_answers spares aged.inLine (aged.filed filed)).mono onward
  | entry =>
    unfold runPhases
    exact (enter_answers spares aged.inLine (aged.filed filed)).mono
      fun _ answers => ⟨[], progress, aged, answers⟩
  | rtc =>
    unfold runPhases
    apply (serveEvent_tallies spares .completion (serve_tallies spares _) aged.inLine
      (aged.filed filed)).bind
    intro service tallies
    exact (conclude_answers spares tallies).mono fun _ answers => ⟨[], progress, aged, answers⟩
  | activity =>
    unfold runPhases
    exact (rest_answers spares aged.inLine).mono fun _ answers => ⟨[], progress, aged, answers⟩

end

/-- What a tick has done to the queue, told from its trace. -/
structure Account (limits : Limits) (before : Instance) (answer : Outcome × Progress User)
    (handled : List Handling) : Prop where
  /-- What was there and what was let in is what was done with and what is there, up to marks. -/
  conserved :
    ((before.waiting ++ before.mailbox.letIn answer.2.traffic.expired).map Event.unmarked).Perm
      ((allDone handled ++ answer.2.inst.waiting).map Event.unmarked)
  /-- What is traced as served is what was done with. -/
  served_eq : answer.2.traffic.served =
    (allDone handled).map fun event => (event.id, event.priority)
  /-- Only timers' events found no room, and only those that were not let in. -/
  lost_eq : answer.2.traffic.lost =
    .replicate (answer.2.traffic.expired.length - before.mailbox.room) Event.timerId
  /-- Events are taken one after the other. Those with a mark find a place again. -/
  handles : Handles (before.mailbox.receive answer.2.traffic.expired) handled
    answer.2.inst.mailbox
  /-- Events are done with in the order of the agenda. -/
  ordered : (before.mailbox.receive answer.2.traffic.expired).agenda =
    allDone handled ++ answer.2.inst.mailbox.agenda
  /-- Those that were put off are no longer marked. -/
  marked_eq : before.mailbox.marked = allPutOff handled ++ answer.2.inst.mailbox.marked
  length_le : handled.length ≤ limits.events.toNat
  counted (events transitions : Nat) : answer.1 = .completed events transitions →
    events = handled.length

theorem Aged.account {limits : Limits} {inst : Instance} {expired : List Event}
    {answer : Outcome × Progress User} (aged : Aged inst.mailbox expired middle)
    (answers : Answers limits middle answer) (inLine : inst.InLine) (filed : inst.mailbox.Filed) :
    ∃ handled, Account limits inst answer handled ∧ answer.2.inst.InLine ∧
      answer.2.inst.mailbox.Filed := by
  obtain ⟨handled, serves, few, counted⟩ := answers
  have traffic := serves.traffic_eq
  rw [aged.traffic_eq] at traffic
  have same : answer.2.traffic.expired = expired := congrArg Trace.Traffic.expired traffic
  have handles := serves.handles
  rw [aged.mailbox_eq] at handles
  have admitted := filed.receive aged.ordinary
  refine ⟨handled, ⟨?_, ?_, ?_, ?_, ?_, ?_, few, counted⟩, serves.inLine, handles.filed admitted⟩
  · rw [same, ← inLine.events_mailbox, ← serves.inLine.events_mailbox,
      ← Mailbox.events_receive aged.ordinary]
    exact handles.events_perm admitted
  · rw [traffic]
    exact List.nil_append _
  · rw [same, traffic]
    rfl
  · rw [same]
    exact handles
  · rw [same]
    exact handles.agenda_eq admitted
  · rw [← Mailbox.marked_receive aged.ordinary aged.plain]
    exact handles.marked_eq admitted

theorem tick_account (spares : kernel.dispatch.Preserves Instance.queue) {scene : Scene User}
    (inLine : scene.inst.InLine) (filed : scene.inst.mailbox.Filed) :
    Yields (kernel.tick delta scene) fun answer =>
      ∃ handled, Account kernel.limits scene.inst answer handled ∧ answer.2.inst.InLine ∧
        answer.2.inst.mailbox.Filed := by
  have aged := Aged.ofScene inLine
  have skipping : Answers kernel.limits (.ofScene scene) (.skipped, .ofScene scene) :=
    ⟨[], .of_calm inLine (.refl _), Nat.zero_le _, nofun⟩
  unfold tick
  split
  · split
    · next phase _ =>
      apply (runPhases_answers spares phase filed aged).mono
      rintro answer ⟨expired, middle, later, answers⟩
      exact later.account answers inLine filed
    · exact .ok (aged.account skipping inLine filed)
  · exact .ok (aged.account skipping inLine filed)

/-! ### Lives -/

/-- The life of an instance, with the events that have arrived in its queue and those that ticks
have put off. It begins with any queue, as long as interrupts are kept apart in it. -/
inductive Lived (User : Type) : List Event → List Event → Instance → Prop
  | begun {inst : Instance} : inst.InLine → inst.mailbox.Filed →
      Lived User inst.waiting [] inst
  /-- The host does something with the queue. -/
  | called {arrived putOff : List Event} {before after : Instance} {call : QueueCall}
      {answer : QueueAnswer} : Lived User arrived putOff before →
      before.perform call = .ok (answer, after) →
      Lived User (arrived ++ call.arrivals answer) putOff after
  /-- The host writes something else than the queue. -/
  | rewritten {arrived putOff : List Event} {before after : Instance} :
      Lived User arrived putOff before → after.queue = before.queue →
      Lived User arrived putOff after
  | ticked {kernel : Kernel User} {delta : UInt32} {scene : Scene User}
      {answer : Outcome × Progress User} {arrived putOff : List Event} {handled : List Handling} :
      kernel.dispatch.Preserves Instance.queue → Lived User arrived putOff scene.inst →
      kernel.tick delta scene = .ok answer → Account kernel.limits scene.inst answer handled →
      Lived User arrived (putOff ++ allPutOff handled) answer.2.inst

/-- What a life keeps to: what has been put off and what is still to be put off has arrived with
a mark. -/
structure Living (arrived putOff : List Event) (inst : Instance) : Prop where
  inLine : inst.InLine
  filed : inst.mailbox.Filed
  marked_le : (putOff ++ inst.mailbox.marked).Subperm (arrived.filter (·.flags.deferred))

namespace Living

variable {arrived putOff : List Event} {inst : Instance}

theorem begun (inLine : inst.InLine) (filed : inst.mailbox.Filed) :
    Living inst.waiting [] inst where
  inLine := inLine
  filed := filed
  marked_le := by
    rw [← inLine.events_mailbox]
    exact .refl _

theorem perform {next : Instance} {call : QueueCall} {answer : QueueAnswer}
    (living : Living arrived putOff inst) (performed : inst.perform call = .ok (answer, next)) :
    Living (arrived ++ call.arrivals answer) putOff next := by
  have follows := (living.inLine.perform_follows call).yields.of_eq _ performed
  have left : next.mailbox = (inst.mailbox.perform call).2 := congrArg Prod.snd follows.agrees
  refine ⟨follows.inLine, left ▸ living.filed.perform call, ?_⟩
  -- The marks that the operation has let in are told apart from those that were there.
  let new := (call.arrivals answer).filter (·.flags.deferred)
  have gained : next.mailbox.marked.Subperm (new ++ inst.mailbox.marked) := by
    have events := inst.mailbox.events_perform_subperm call
    rw [← follows.agrees] at events
    have marks := events.filter (·.flags.deferred)
    rwa [List.filter_append] at marks
  have moved : (putOff ++ (new ++ inst.mailbox.marked)).Perm
      (putOff ++ inst.mailbox.marked ++ new) := by
    rw [List.append_assoc]
    exact List.perm_append_comm.append_left putOff
  rw [List.filter_append]
  exact ((List.subperm_append_left putOff).2 gained).trans
    (moved.subperm.trans ((List.subperm_append_right new).2 living.marked_le))

theorem rewrite {next : Instance} (living : Living arrived putOff inst)
    (same : next.queue = inst.queue) : Living arrived putOff next := by
  have mailbox := Instance.mailbox_congr same
  refine ⟨living.inLine.of_queue_eq same, mailbox ▸ living.filed, ?_⟩
  rw [mailbox]
  exact living.marked_le

/-- What is put off was marked before and is not marked any longer. -/
theorem tick {scene : Scene User} {answer : Outcome × Progress User} {handled : List Handling}
    (living : Living arrived putOff scene.inst)
    (spares : kernel.dispatch.Preserves Instance.queue)
    (ran : kernel.tick delta scene = .ok answer)
    (account : Account kernel.limits scene.inst answer handled) :
    Living arrived (putOff ++ allPutOff handled) answer.2.inst := by
  obtain ⟨_, _, inLine, filed⟩ := (tick_account spares living.inLine living.filed).of_eq _ ran
  refine ⟨inLine, filed, ?_⟩
  rw [List.append_assoc, ← account.marked_eq]
  exact living.marked_le

end Living

theorem Lived.living {arrived putOff : List Event} {inst : Instance}
    (lived : Lived User arrived putOff inst) : Living arrived putOff inst := by
  induction lived with
  | begun inLine filed => exact .begun inLine filed
  | called _ performed ih => exact ih.perform performed
  | rewritten _ same ih => exact ih.rewrite same
  | ticked spares _ ran account ih => exact ih.tick spares ran account

/-- In the life of an instance of a compiled machine, every tick accounts for all events: none is
lost or doubled, whatever the queue, the time that passes, the limits and the way in which the
tick ends, as long as no callback changes the queue. No more events have been put off afterwards
than have arrived with a mark. The tick ends without fault if the callbacks do and if they leave
the leaf slots alone, too. -/
theorem tick_conserves {graph : Chart.Graph} {compiled : Chart.Compiled} (drawn : graph.Drawn)
    (compiles : graph.compile = .ok (.ok compiled)) (runs : kernel.definition = compiled.definition)
    (spares : kernel.dispatch.Preserves Instance.queue) (delta : UInt32) (scene : Scene User)
    {arrived putOff : List Event} (lived : Lived User arrived putOff scene.inst) :
    (kernel.dispatch.Harmless .nothing → Reachable User compiled.definition scene.inst →
      ∃ answer, kernel.tick delta scene = .ok answer) ∧
    ∀ answer, kernel.tick delta scene = .ok answer → ∃ handled,
      Account kernel.limits scene.inst answer handled ∧
        (putOff ++ allPutOff handled).Subperm (arrived.filter (·.flags.deferred)) := by
  constructor
  · intro harmless reachable
    have sound := (drawn.sound compiles).1
    have ready := reachable.ready sound
    rw [← runs] at sound ready
    have reliable : Reliable .nothing kernel := ⟨sound, harmless⟩
    obtain ⟨answer, ran, -⟩ := reliable.tick_ready delta ready trivial
    exact ⟨answer, ran⟩
  · intro answer ran
    have living := lived.living
    obtain ⟨handled, account, -⟩ := (tick_account spares living.inLine living.filed).of_eq _ ran
    have next := living.tick spares ran account
    exact ⟨handled, account, (List.sublist_append_left _ _).subperm.trans next.marked_le⟩

theorem tick_conserves_lone :
    ∃ compiled, Chart.Graph.lone.compile = .ok (.ok compiled) ∧
      let kernel := bare compiled.definition
      let event := { Event.ofId 2 with flags := { deferred := true, byReference := false } }
      ∃ inst first handled second later,
        (Instance.fresh .tier256 compiled.definition.structureHash 1).perform
            (.enqueue event .normal) = .ok (.accepted true, inst) ∧
          kernel.tick 16 ⟨inst, (), .ofPage .blank⟩ = .ok first ∧
          Account .default inst first handled ∧
          kernel.tick 16 ⟨first.2.inst, (), .ofPage .blank⟩ = .ok second ∧
          Account .default first.2.inst second later ∧
          (allPutOff handled ++ allPutOff later).Subperm [event] := by
  obtain ⟨compiled, compiles⟩ := Chart.Graph.exists_compiled_lone
  refine ⟨compiled, compiles, ?_⟩
  intro kernel event
  let fresh := Instance.fresh .tier256 compiled.definition.structureHash 1
  have inLine : fresh.InLine := .fresh .tier256 _ 1
  have opened : fresh.mailbox = .empty .tier256 := Instance.mailbox_fresh _ _ _
  have begun : Lived Unit fresh.waiting [] fresh := .begun inLine (opened ▸ Mailbox.filed_empty _)
  rw [Instance.waiting_fresh] at begun
  obtain ⟨⟨answer, inst⟩, performed, follows⟩ := inLine.perform_follows (.enqueue event .normal)
  rw [opened] at follows
  obtain rfl : answer = .accepted true := congrArg Prod.fst follows.agrees
  have queued : Lived Unit [event] [] inst := begun.called performed
  have kept : fresh.Spares .nothing inst :=
    (inLine.toQueueSound.perform_returns _).yields.of_eq _ performed
  have reached : Reachable Unit compiled.definition inst :=
    .rewritten (.fresh .tier256 _ 1 (Tier.le_tier256 _)) kept.leaves_eq follows.inLine.toQueueSound
  have harmless : kernel.dispatch.Harmless .nothing := .empty _
  have spares : kernel.dispatch.Preserves Instance.queue := Dispatch.preserves_empty _
  obtain ⟨returns, conserves⟩ := tick_conserves Chart.Graph.drawn_lone compiles rfl spares 16
    ⟨inst, (), .ofPage .blank⟩ queued
  obtain ⟨first, ran⟩ := returns harmless reached
  obtain ⟨handled, account, -⟩ := conserves first ran
  -- The second tick goes on where the first one has ended.
  have ticked : Lived Unit [event] ([] ++ allPutOff handled) first.2.inst :=
    .ticked spares queued ran account
  obtain ⟨returnsAgain, conservesAgain⟩ := tick_conserves Chart.Graph.drawn_lone compiles rfl
    spares 16 ⟨first.2.inst, (), .ofPage .blank⟩ ticked
  obtain ⟨second, again⟩ := returnsAgain harmless (.ticked rfl harmless reached ran)
  obtain ⟨later, accountAgain, few⟩ := conservesAgain second again
  exact ⟨inst, first, handled, second, later, performed, ran, account, again, accountAgain, few⟩

end Kernel

end Statechart
