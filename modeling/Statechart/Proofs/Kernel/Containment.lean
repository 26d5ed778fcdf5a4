/-
# What an overflow leaves behind

A tick that overflows ends at once: no activity goes on, nothing is active any more and no timer
runs (`Instance.Dormant`). The queue and the history slots stay as they were when one transition
too many applied (`Contained`). The next tick finds nothing active, so it takes no event and enters
the default configuration (`Enduring.restarts`).

This is so whatever the callbacks do to the queue, the timers and the history, as long as they leave
states in the leaf slots. Where they leave the history alone, what a state saves in its slot is told
by the life of the instance, up to and including the tick that overflows (`Abides.tick_slots`).
-/

import Statechart.Proofs.Kernel.Budget
import Statechart.Proofs.Kernel.Retaining
import Statechart.Proofs.Kernel.Unfolding

namespace Statechart

open Rom (Definition noIndex rootIndex)

/-- Nothing is active, no timer runs, and no tick is to be taken up. -/
structure Instance.Dormant (inst : Instance) : Prop where
  leaves : ∀ leaf ∈ inst.leaves, leaf = noIndex
  timers : ∀ remaining ∈ inst.timers, remaining = 0
  idle : inst.phase? = some .idle

namespace Instance.Dormant

variable {inst after : Instance}

theorem fresh (tier : Tier) (machineId seed : UInt32) :
    (Instance.fresh tier machineId seed).Dormant where
  leaves _ := List.eq_of_mem_replicate
  timers _ := List.eq_of_mem_replicate
  idle := Phase.ofByte?_toByte .idle

/-- Whatever is done to the queue and the history. -/
theorem of_eq (dormant : inst.Dormant) (leaves : after.leaves = inst.leaves)
    (timers : after.timers = inst.timers) (phase : after.phaseByte = inst.phaseByte) :
    after.Dormant where
  leaves := leaves.symm ▸ dormant.leaves
  timers := timers.symm ▸ dormant.timers
  idle := by
    have idle := dormant.idle
    unfold phase? at idle ⊢
    rwa [phase]

theorem isStarted_eq (dormant : inst.Dormant) : inst.isStarted = false := by
  rw [Instance.isStarted_eq, Bool.not_eq_false', List.isEmpty_iff, activeLeaves,
    List.takeWhile_eq_nil_iff]
  intro some active
  exact bne_iff_ne.1 active (dormant.leaves _ (List.getElem_mem some))

end Instance.Dormant

namespace Kernel

variable {User : Type} {kernel : Kernel User} {tier : Tier} {inOrder : Prop} {event next : Event}
  {steps : Nat} {start progress before reached after : Progress User} {call callee : Call User}
  {run : Except Fault (Outcome × Progress User)} {delta : UInt32} {scene : Scene User}

theorem dormant_contain (kernel : Kernel User) (progress : Progress User) :
    (kernel.contain progress).inst.Dormant where
  leaves _ listed := List.eq_of_mem_replicate (List.mem_of_mem_take listed)
  timers _ := List.eq_of_mem_replicate
  idle := Phase.ofByte?_toByte .idle

/-! ### Starting over -/

/-- Time passes for no timer. -/
theorem advanceTimers_of_dormant (dormant : progress.inst.Dormant) :
    kernel.advanceTimers delta progress = .ok progress := by
  have still (slot : Nat) (inside : slot < progress.inst.tier.timerCapacity) :
      kernel.advanceTimer delta progress slot = .ok progress := by
    obtain ⟨remaining, read, listed⟩ : Returns (progress.inst.timer slot) _ :=
      Instance.slot_returns (progress.inst.length_timers.symm ▸ inside)
    rw [advanceTimer, read, ok_bind, if_pos (dormant.timers _ listed)]
    rfl
  have passing : Returns ((List.range progress.inst.tier.timerCapacity).foldlM
      (kernel.advanceTimer delta) progress) (· = progress) := by
    refine .foldlM_keeps (fun slot after listed same => ?_) rfl
    exact ⟨progress, same ▸ still slot (List.mem_range.1 listed), rfl⟩
  unfold advanceTimers
  split
  · rfl
  · obtain ⟨_, ran, rfl⟩ := passing
    exact ran

/-- A tick of a dormant instance enters the default configuration, and that is all. -/
theorem tick_of_dormant (fits : kernel.fits scene.inst = true) (dormant : scene.inst.Dormant) :
    kernel.tick delta scene = (do
      let entered ← kernel.descend rootIndex (((Progress.ofScene scene).withPhase .idle).withPhase
        .entry)
      kernel.finish .started entered) := by
  have idle : ((Progress.ofScene scene).withPhase .idle).inst.Dormant :=
    ⟨dormant.leaves, dormant.timers, Phase.ofByte?_toByte .idle⟩
  have closed : ((Progress.ofScene scene).withPhase .idle).inst.isStarted = false :=
    idle.isStarted_eq
  have still : (((Progress.ofScene scene).withPhase .idle).withPhase .entry).inst.isStarted =
      false := closed
  rw [tick_of_phase? fits dormant.idle]
  simp only [runPhases, advanceTimers_of_dormant idle, ok_bind, closed, Bool.false_and, enterPhase,
    still]
  cases kernel.descend rootIndex (((Progress.ofScene scene).withPhase .idle).withPhase .entry) <;>
    rfl

/-- A tick of a dormant instance makes moves and nothing else. -/
theorem tick_moves_of_dormant (fits : kernel.fits scene.inst = true)
    (dormant : scene.inst.Dormant) : Yields (kernel.tick delta scene) fun answer =>
      answer.1 = .started ∧ Moves kernel (.ofScene scene) answer.2 := by
  have turned : Moves kernel (.ofScene scene)
      (((Progress.ofScene scene).withPhase .idle).withPhase .entry) :=
    (Moves.write rfl).trans (Moves.write rfl)
  rw [tick_of_dormant fits dormant]
  apply (descend_errands rootIndex _).bind
  rintro entered ⟨entering, -⟩
  apply (runActivities_moves _).bind
  intro acted acting
  have activity : Moves kernel entered (entered.withPhase .activity) := Moves.write rfl
  have idle : Moves kernel acted (acted.withPhase .idle) := Moves.write rfl
  exact .pure ⟨rfl, turned.trans (entering.trans (activity.trans (acting.trans idle)))⟩

/-- A dormant instance starts over, and no event is taken from its queue. -/
theorem Enduring.restarts (enduring : Enduring kernel scene.inst.tier)
    (fits : kernel.fits scene.inst = true) (dormant : scene.inst.Dormant)
    (sound : scene.inst.QueueSound) (delta : UInt32) :
    ∃ after, kernel.tick delta scene = .ok (.started, after) ∧
      Spends kernel delta (.ofScene scene) [] after := by
  have viable : Viable kernel.definition scene.inst.tier scene.inst.QueueSound scene.inst :=
    .ofScene fun leaf listed => .inr (dormant.leaves leaf listed)
  obtain ⟨⟨outcome, after⟩, ran, -⟩ :=
    (enduring.tick_ends delta viable).returns fun _ tolerated => tolerated.1 sound
  obtain ⟨rfl, moves⟩ := (tick_moves_of_dormant fits dormant).of_eq _ ran
  exact ⟨after, ran, .of_moves moves⟩

/-! ### On the way to an overflow -/

/-- What the steps of a tick up to its last call keep is kept on the way to this call. -/
theorem Within.moment_keeps (holds : Progress User → Prop)
    (keeps : ∀ call callee run, kernel.Calls call callee → callee.rest? kernel = some run →
      holds call.moment → holds callee.moment)
    (within : kernel.Within call callee) (rest : callee.rest? kernel = some run)
    (begins : holds call.moment) : holds callee.moment := by
  induction within with
  | refl => exact begins
  | @tail middle last _ calls ih =>
    exact keeps middle last run calls rest (ih (calls.rest_eq rest))

theorem enqueueOrNote_activities (event : Event) (priority : Priority)
    (progress : Progress User) : Yields (enqueueOrNote event priority progress) fun after =>
      after.activities = progress.activities := by
  apply (enqueueOrNote_yields event priority progress).mono
  rintro _ ⟨accepted, inst, -, rfl⟩
  split
  · rfl
  · exact (progress.withInst inst).activities_note rfl

theorem Elapses.activities_eq {slots : List Nat}
    (elapses : Elapses kernel delta slots before after) :
    after.activities = before.activities := by
  induction elapses with
  | nil => rfl
  | @cons slot _ before middle _ tock _ ih =>
    rw [ih]
    cases tock with
    | unarmed _ => rfl
    | waned _ _ _ => rfl
    | lapsed _ _ _ _ _ => rfl
    | @expired _ inst owner acted _ _ _ _ _ _ ran queued =>
      have fired :
          ((before.withInst inst).note (.timerFired (UInt16.ofNat slot) owner)).activities =
            before.activities := (before.withInst inst).activities_note rfl
      rw [(enqueueOrNote_activities _ _ _).of_eq _ queued,
        ((runAction_errands _ _ _ _).of_eq _ ran).activities_eq, fired]

theorem Unfolds.activities_eq (unfolds : Unfolds kernel event start steps next before) :
    before.activities = start.activities := by
  induction unfolds with
  | begun => rfl
  | @taken _ next _ chosen after transition _ applies fires ih =>
    have noted : (chosen.note
        (.transition transition.source transition.target next.id)).activities =
          chosen.activities := chosen.activities_note rfl
    have stepped (steps : Nat) : (withSteps steps after).activities = after.activities := rfl
    rw [stepped, ((fire_errands _ _ _).of_eq _ fires).activities_eq, noted,
      ((select_errands _ _).of_eq _ applies).activities_eq, ih]

/-- No activity goes on before the events are served. -/
theorem Calls.activities_eq (calls : kernel.Calls call callee)
    (rest : callee.rest? kernel = some run) :
    callee.moment.activities = call.moment.activities := by
  cases calls with
  | @idle _ scene _ _ _ ages _ =>
    have paced : ((Progress.ofScene scene).withPhase .idle).activities =
      (Progress.ofScene scene).activities := rfl
    rcases (advanceTimers_yields _).of_eq _ ages with ⟨-, rfl⟩ | ⟨-, elapses⟩
    · exact paced
    · exact elapses.activities_eq.trans paced
  | entry _ _ => rfl
  | rtc _ _ => rfl
  | started _ => rfl
  | @putBack _ _ progress after event inst _ _ back =>
    have same : (progress.withInst inst).activities = progress.activities := rfl
    exact ((enqueueOrNote_activities _ _ _).of_eq _ back).trans same
  | take _ _ => exact Progress.activities_note _ rfl
  | further ran _ _ =>
    obtain ⟨-, _, _, unfolds, rests⟩ := runToCompletion_eq_settled_iff.1 ran
    exact ((select_errands _ _).of_eq _ rests).activities_eq.trans unfolds.activities_eq
  | start | run | fire | again | exchange | last | onward | through | beside | region | initial |
      shallow | deep => cases rest

namespace Enduring

variable (enduring : Enduring kernel tier)

include enduring

theorem unfolds_viable (unfolds : Unfolds kernel event start steps next before)
    (viable : Viable kernel.definition tier inOrder start.inst) :
    Viable kernel.definition tier inOrder before.inst := by
  induction unfolds with
  | begun => exact viable
  | taken _ applies fires ih =>
    have looking := (enduring.select_ends _ ih).of_eq applies
    have left := (enduring.fire_ends _ (looking.listed _ rfl) looking.viable).of_eq fires
    exact left.write rfl rfl

/-- The leaf slots name states or nothing wherever events are served. -/
theorem calls_viable (calls : kernel.Calls call callee) (rest : callee.rest? kernel = some run)
    (viable : Viable kernel.definition tier inOrder call.moment.inst) :
    Viable kernel.definition tier inOrder callee.moment.inst := by
  have running {progress : Progress User}
      (viable : Viable kernel.definition tier inOrder progress.inst) (phase : Phase) :
      Viable kernel.definition tier inOrder (progress.withPhase phase).inst := viable.write rfl rfl
  have taking {inst : Instance} (viable : Viable kernel.definition tier inOrder inst) :
      Ends (Tolerated inOrder) inst.dequeue fun answer =>
        Viable kernel.definition tier inOrder answer.2 :=
    viable.queueing Instance.dequeue_ends fun sound => sound.dequeue_returns
  cases calls with
  | idle _ _ ages _ =>
    exact (enduring.advanceTimers_ends _ (running viable .idle)).of_eq ages
  | entry _ _ => exact viable
  | rtc _ _ => exact viable
  | started _ => exact running viable .entry
  | @putBack _ _ progress _ event inst takes _ back =>
    have taken : Viable kernel.definition tier inOrder (progress.withInst inst).inst :=
      (taking viable).of_eq takes
    exact (enqueueOrNote_ends taken _ _).of_eq back
  | take takes _ => exact (taking viable).of_eq takes
  | further ran _ _ =>
    exact (enduring.runToCompletion_ends _ (running viable .rtc)).of_eq ran
  | start | run | fire | again | exchange | last | onward | through | beside | region | initial |
      shallow | deep => cases rest

end Enduring

/-! ### The history slots -/

/-- A tick writes a history slot only where it leaves a state that saves its history there. -/
theorem Abides.tick_slots {pledge : Instance.Pledge} {rests : List Trace.Entry → Instance → Prop}
    {ticks : List Tick} (abides : Abides pledge kernel.definition rests ticks scene.inst)
    (reliable : Reliable pledge kernel) (spares : kernel.dispatch.Preserves Instance.history)
    {outcome : Outcome} (ran : kernel.tick delta scene = .ok (outcome, after)) {slot : Nat}
    (stays : ∀ state, kernel.definition.sections.SavesIn slot state →
      .exit state ∉ after.trace) :
    after.inst.history[slot]? = scene.inst.history[slot]? := by
  obtain ⟨done, -⟩ := (reliable.tick_done delta abides.resting abides.accounted).yields.of_eq _ ran
  rcases done.became with ⟨-, rfl⟩ | ⟨-, course⟩
  · rfl
  · obtain ⟨aged, ages, lands⟩ := course
    obtain ⟨_, path⟩ := lands.exists_path
    obtain ⟨more, grows, same⟩ := path.slots_eq spares
    have aging : aged.inst.history = scene.inst.history :=
      ((advanceTimers_idles spares _ _).of_eq _ ages).history_eq
    rw [← aging]
    refine same slot fun state saves listed => stays state saves ?_
    have later : .exit state ∈ after.trace.toList := grows ▸ List.mem_append_right _ listed
    exact Array.mem_toList_iff.1 later

/-- After a run, and a tick that follows, the slots tell what was left: the slot of a state that
keeps history holds what was recorded when the state was last left, unless another one that shares
the slot was left since, and a slot is as it was if no state was left in the tick that saves its
history there. -/
theorem Happening.tick_recites {graph : Chart.Graph} {compiled : Chart.Compiled}
    (drawn : graph.Drawn) (compiles : graph.compile = .ok (.ok compiled)) {tier : Tier}
    (room : compiled.definition.tier ≤ tier) {seed : UInt32} {happenings : List (Happening User)}
    (harmless : ∀ happening ∈ happenings, happening.Harmless .nothing)
    (spares : ∀ happening ∈ happenings, happening.SparesHistory)
    {ticks : List Tick} (told : Happening.chronicle compiled.definition happenings
      (.fresh tier compiled.definition.structureHash seed) = .ok ticks)
    (leaves : Happening.leave compiled.definition happenings
      (.fresh tier compiled.definition.structureHash seed) = .ok scene.inst)
    (runs : kernel.definition = compiled.definition)
    (harmlessNow : kernel.dispatch.Harmless .nothing)
    (sparesNow : kernel.dispatch.Preserves Instance.history) {outcome : Outcome}
    (ran : kernel.tick delta scene = .ok (outcome, after)) {state : UInt16}
    (has : compiled.definition.sections.Has state)
    (keeps : (compiled.definition.sections.record state).flags.history = true) :
    Retains compiled.definition.sections state
        (ticks.flatMap Tick.trace ++ after.trace.toList) after.inst ∧
      ((∀ other, compiled.definition.sections.SavesIn
          (compiled.definition.sections.record state).historySlot.toNat other →
          .exit other ∉ after.trace) →
        after.inst.history[(compiled.definition.sections.record state).historySlot.toNat]? =
          scene.inst.history[(compiled.definition.sections.record state).historySlot.toNat]?) := by
  have sound := (drawn.sound compiles).1
  have abiding : Abiding User .nothing compiled.definition
      (Recites compiled.definition.sections state)
      (Retains compiled.definition.sections state) := abiding_recites has keeps
  have begins : Recites compiled.definition.sections state []
      (.fresh tier compiled.definition.structureHash seed) :=
    ⟨.nil_of_replicate _, fun left => absurd left List.not_mem_nil⟩
  obtain ⟨_, _, toldToo, leavesToo, abides⟩ := Happening.chronicle_abides sound abiding harmless
    spares (.fresh room seed trivial begins)
  obtain rfl := Except.ok.inj (told.symm.trans toldToo)
  obtain rfl := Except.ok.inj (leaves.symm.trans leavesToo)
  rw [← runs] at sound abiding abides ⊢
  have reliable : Reliable .nothing kernel := ⟨sound, harmlessNow⟩
  refine ⟨?_, abides.tick_slots reliable sparesNow ran⟩
  -- The tick is one more happening of the run.
  let ticking : Happening User :=
    .ticked kernel.dispatch kernel.limits delta scene.user scene.commands
  have tells : ticking.tell kernel.definition scene.inst =
      .ok ([.of delta scene.inst outcome after], after.inst) := by
    show (kernel.tick delta scene >>= fun answer => _) = _
    rw [ran]
    rfl
  have careful : ticking.Harmless .nothing := harmlessNow
  have sparing : ticking.SparesHistory := sparesNow
  have onward := (Happening.tell_abides sound abiding careful sparing abides).yields.of_eq _ tells
  have retains := onward.rests.retains
  rwa [List.flatMap_append, List.flatMap_singleton] at retains

/-! ### Overflows -/

/-- The leaf slots of an instance that is ready name states or nothing. -/
theorem Ready.known {definition : Definition} {inst : Instance} (ready : Ready definition inst)
    (sound : definition.Sound) :
    ∀ leaf ∈ inst.leaves, definition.sections.Has leaf ∨ leaf = noIndex := by
  obtain ⟨active, holds, settled⟩ := ready.exists_active
  intro leaf listed
  rcases holds.mem listed with nothing | isActive
  · exact .inr nothing
  · exact .inl (settled.of_mem sound.wellFormed leaf isActive).1

/-- What an overflow leaves behind. An event was begun with at a moment, and at another one a
transition too many applied. -/
structure Contained (kernel : Kernel User) (before reached after : Progress User) : Prop where
  dormant : after.inst.Dormant
  marked : after.inst.status.rtcOverflow = true
  inactive (action state : UInt16) : .activity action state ∉ after.trace
  queue_eq : after.inst.queue = reached.inst.queue
  /-- What waited besides the event goes on waiting. -/
  waits : kernel.dispatch.Preserves Instance.queue → after.inst.queue = before.inst.queue
  queueSound : after.inst.QueueSound
  history_eq : after.inst.history = reached.inst.history
  /-- The next tick that is not skipped starts over and takes no event, whatever was queued in the
  meantime. -/
  restarts {next : Kernel User} {scene : Scene User} (delta : UInt32) :
    next.definition = kernel.definition → next.dispatch.Careful kernel.definition →
    scene.inst.leaves = after.inst.leaves → scene.inst.timers = after.inst.timers →
    scene.inst.phaseByte = after.inst.phaseByte → scene.inst.QueueSound →
    next.fits scene.inst = true → ∃ later, next.tick delta scene = .ok (.started, later) ∧
      Spends next delta (.ofScene scene) [] later

/-- An overflow on the way of a tick is contained. -/
theorem Enduring.contained (enduring : Enduring kernel scene.inst.tier)
    (known : ∀ leaf ∈ scene.inst.leaves, kernel.definition.sections.Has leaf ∨ leaf = noIndex)
    (queue : scene.inst.QueueSound) {budget transitions : Nat}
    (within : kernel.Within (.tick delta scene) (.serveEvent budget transitions event before))
    (goesOn : GoesOn kernel event (withSteps 0 (before.withPhase .rtc))
      kernel.limits.rtcSteps.toNat reached) :
    Contained kernel before reached (kernel.contain reached) := by
  have given := runToCompletion_eq_overflow_iff.2 goesOn
  obtain ⟨next, stuck, transition, unfolds, applies⟩ := goesOn
  have viable : Viable kernel.definition scene.inst.tier scene.inst.QueueSound before.inst :=
    within.moment_keeps
      (fun moment => Viable kernel.definition scene.inst.tier scene.inst.QueueSound moment.inst)
      (fun _ _ _ calls rest => enduring.calls_viable calls rest) rfl (Viable.ofScene known)
  have stillViable := (enduring.select_ends next (enduring.unfolds_viable unfolds
    (viable.write rfl rfl))).of_eq applies
  have sound : reached.inst.QueueSound := stillViable.viable.queueSound queue
  have none : (kernel.contain reached).activities = [] := by
    have earlier : before.activities = (Progress.ofScene scene).activities :=
      within.moment_keeps
        (fun moment => moment.activities = (Progress.ofScene scene).activities)
        (fun _ _ _ calls rest same => (calls.activities_eq rest).trans same) rfl rfl
    have running : (withSteps 0 (before.withPhase .rtc)).activities = before.activities := rfl
    have cleared : (kernel.contain reached).activities = reached.activities :=
      Progress.activities_note _ rfl
    rw [cleared, ((select_errands _ _).of_eq _ applies).activities_eq, unfolds.activities_eq,
      running, earlier]
    rfl
  constructor
  case dormant => exact dormant_contain kernel reached
  case marked => rfl
  case inactive =>
    intro action state listed
    have found : .activity action state ∈ (kernel.contain reached).activities :=
      List.mem_filter.2 ⟨Array.mem_toList_iff.2 listed, rfl⟩
    rw [none] at found
    cases found
  case queue_eq => exact (Calm.contain kernel reached).queue_eq
  case waits =>
    intro spares
    have running : Calm before (before.withPhase .rtc) := .withPhase .rtc before
    have served : Calm (before.withPhase .rtc) reached :=
      (runToCompletion_calm spares event _).of_eq _ given
    exact ((running.trans served).trans (.contain kernel reached)).queue_eq
  case queueSound => exact sound.of_ring_eq rfl
  case history_eq => rfl
  case restarts =>
    intro other later delta same careful leaves timers phase sound fits
    have room : other.definition.tier ≤ later.inst.tier :=
      of_decide_eq_true (Bool.and_eq_true_iff.1 fits).2
    have again : Enduring other later.inst.tier :=
      ⟨same ▸ enduring.sound, same ▸ careful, room⟩
    exact again.restarts fits ((dormant_contain kernel reached).of_eq leaves timers phase) sound
      delta

/-- Runs to completion have an exact limit, and an overflow is contained. A tick of a compiled
machine overflows exactly if an event that it serves sets off as many transitions as the limits
allow and one more applies. Then no activity goes on, nothing is active, no timer runs, and the
instance is idle and marked. Queue and history are as the transitions have left them, and the next
tick starts over without taking an event. An event that sets off no more transitions than the limits
allow is completed, also if it sets off exactly as many. -/
theorem overflow_contained {graph : Chart.Graph} {compiled : Chart.Compiled} (drawn : graph.Drawn)
    (compiles : graph.compile = .ok (.ok compiled)) (runs : kernel.definition = compiled.definition)
    (careful : kernel.dispatch.Careful compiled.definition) (delta : UInt32) (scene : Scene User)
    (room : compiled.definition.tier ≤ scene.inst.tier)
    (known : ∀ leaf ∈ scene.inst.leaves,
      compiled.definition.sections.Has leaf ∨ leaf = noIndex)
    (queue : scene.inst.QueueSound) :
    (∃ answer, kernel.tick delta scene = .ok answer) ∧
      (∀ after, kernel.tick delta scene = .ok (.rtcOverflow, after) ↔
        ∃ budget transitions event before reached,
          kernel.Within (.tick delta scene) (.serveEvent budget transitions event before) ∧
            GoesOn kernel event (withSteps 0 (before.withPhase .rtc))
              kernel.limits.rtcSteps.toNat reached ∧
            after = kernel.contain reached) ∧
      (∀ budget transitions event before,
        kernel.Within (.tick delta scene) (.serveEvent budget transitions event before) →
          (∀ reached, GoesOn kernel event (withSteps 0 (before.withPhase .rtc))
              kernel.limits.rtcSteps.toNat reached →
            Contained kernel before reached (kernel.contain reached)) ∧
          ∀ steps reached, steps ≤ kernel.limits.rtcSteps.toNat →
            ComesToRest kernel event (withSteps 0 (before.withPhase .rtc)) steps reached →
            (0 < budget → reached.inst.queueIsEmpty = false →
              kernel.Calls (.serveEvent budget transitions event before)
                (.resume budget (min (transitions + steps) maxTransitions) reached)) ∧
            (budget = 0 ∨ reached.inst.queueIsEmpty = true → ∃ after,
              kernel.tick delta scene = .ok (.completed (kernel.limits.events.toNat - budget)
                (min (transitions + steps) maxTransitions), after))) ∧
      ∀ tier seed happenings ticks, compiled.definition.tier ≤ tier →
        (∀ happening ∈ happenings, happening.Harmless .nothing) →
        (∀ happening ∈ happenings, (happening : Happening User).SparesHistory) →
        Happening.chronicle compiled.definition happenings
          (.fresh tier compiled.definition.structureHash seed) = .ok ticks →
        Happening.leave compiled.definition happenings
          (.fresh tier compiled.definition.structureHash seed) = .ok scene.inst →
        kernel.dispatch.Harmless .nothing → kernel.dispatch.Preserves Instance.history →
        ∀ after, kernel.tick delta scene = .ok (.rtcOverflow, after) →
          ∀ state, compiled.definition.sections.Has state →
            (compiled.definition.sections.record state).flags.history = true →
            Retains compiled.definition.sections state
                (ticks.flatMap Tick.trace ++ after.trace.toList) after.inst ∧
              ((∀ other, compiled.definition.sections.SavesIn
                  (compiled.definition.sections.record state).historySlot.toNat other →
                  .exit other ∉ after.trace) →
                after.inst.history[(compiled.definition.sections.record state).historySlot.toNat]? =
                  scene.inst.history[
                    (compiled.definition.sections.record state).historySlot.toNat]?) := by
  have enduring : Enduring kernel scene.inst.tier :=
    ⟨runs ▸ (drawn.sound compiles).1, runs ▸ careful, runs ▸ room⟩
  have viable : Viable kernel.definition scene.inst.tier scene.inst.QueueSound scene.inst :=
    .ofScene (runs ▸ known)
  obtain ⟨answer, ran, -⟩ :=
    (enduring.tick_ends delta viable).returns fun _ tolerated => tolerated.1 queue
  refine ⟨⟨answer, ran⟩, fun _ => tick_eq_overflow_iff, ?_, ?_⟩
  · intro budget transitions event before within
    refine ⟨fun reached => enduring.contained (runs ▸ known) queue within, ?_⟩
    intro steps reached few rests
    have settled := runToCompletion_eq_settled_iff.2 ⟨few, rests⟩
    refine ⟨fun left more => .further settled left more, fun last => ?_⟩
    have ends := tick_of_settled within settled last
    rw [ran] at ends
    obtain ⟨_, _, same⟩ := Yields.exists_of_bind ends.symm
    obtain rfl := Except.ok.inj same
    exact ⟨_, ran⟩
  · intro tier seed happenings ticks enough harmless spares told leaves harmlessNow sparesNow after
      ended state has keeps
    exact Happening.tick_recites drawn compiles enough harmless spares told leaves runs harmlessNow
      sparesNow ended has keeps

end Kernel

/-! ### A machine that goes on and on -/

namespace Chart.Graph

/-- The first state remembers which child was active. Its first child gives way to the second after
5 ms, and this one to a state that is entered again as soon as it was entered. -/
def treadmill : Graph :=
  let wide := (((lone.insertState "D" rootId).2.insertState "B" 1).2.insertState "C" 1).2
  let timed := (wide.modifyState 3 fun node =>
    { node with timer := some ⟨5, none, some 0⟩ }).modifyState 4 fun node =>
      { node with timer := some ⟨5, none, some 1⟩ }
  let keeping := timed.modifyState 1 fun node => { node with history := .shallow }
  let leading := ((keeping.addTransition 3 (some 4) .timer).2.addTransition 4 (some 2) .timer).2
  (leading.addTransition 2 (some 2) .completion).2

theorem drawn_treadmill : Drawn treadmill := by
  have wide := (((namedBy_lone.insertState "D" rootId (by decide +kernel) (by decide)
    (by decide)).insertState "B" 1 (by decide +kernel) (by decide) (by decide)).insertState "C" 1
      (by decide +kernel) (by decide) (by decide)).drawn
  refine .addTransition (some 2) .completion (.addTransition (some 2) .timer
    (.addTransition (some 4) .timer ?_ (by decide +kernel)) (by decide +kernel)) (by decide +kernel)
  refine .configure 1 (.configure 4 ?_ (fun _ => rfl) (fun _ => rfl) fun _ => rfl)
    (fun _ => rfl) (fun _ => rfl) fun _ => rfl
  exact .configure 3 wide (fun _ => rfl) (fun _ => rfl) fun _ => rfl

theorem exists_compiled_treadmill : ∃ compiled, treadmill.compile = .ok (.ok compiled) := by
  refine drawn_treadmill.exists_compiled ?_ (by decide +kernel)
  rw [findings, stableIdFindings_eq_nil (by decide +kernel), slotFindings,
    sharedSlotFindings_eq_nil "timer" Placement.timerSlot (by decide +kernel)]
  decide +kernel

/-- The first state keeps shallow history, and it is the only one. -/
theorem sections_treadmill {compiled : Compiled}
    (compiles : treadmill.compile = .ok (.ok compiled)) :
    let sections := compiled.definition.sections
    sections.Has 1 ∧ (sections.record 1).flags.history = true ∧
      (sections.record 1).flags.deepHistory = false ∧ (sections.record 1).historySlot = 0 ∧
      (sections.record Rom.rootIndex).flags.parallel = false ∧
      ∀ other : Nat, other < sections.states.size →
        (sections.record (.ofNat other)).flags.history = true → other = 1 := by
  have ran : treadmill.definition?.map (fun definition =>
      let sections := definition.sections
      decide (sections.Has 1 ∧ (sections.record 1).flags.history = true ∧
        (sections.record 1).flags.deepHistory = false ∧ (sections.record 1).historySlot = 0 ∧
        (sections.record Rom.rootIndex).flags.parallel = false ∧
        ∀ other : Nat, other < sections.states.size →
          (sections.record (.ofNat other)).flags.history = true → other = 1)) = some true := by
    decide +kernel
  rw [drawn_treadmill.definition?_eq compiles] at ran
  exact of_decide_eq_true (Option.some.inj ran)

end Chart.Graph

namespace Kernel

open Chart.Graph

/-- A host without callbacks that allows an event three transitions. -/
def brief (definition : Definition) : Kernel Unit where
  definition := definition
  dispatch := .empty
  limits := Limits.default.withRtcSteps 3

/-- The second child was active when the machine left the first state for one that does not come to
rest. The state's slot keeps it, although the tick overflows. -/
theorem overflow_contained_treadmill :
    ∃ compiled, treadmill.compile = .ok (.ok compiled) ∧ ∃ inst after later,
      Happening.leave compiled.definition [.beat 0, .beat 5]
          (.fresh .tier256 compiled.definition.structureHash 1) = .ok inst ∧
        (brief compiled.definition).tick 5 ⟨inst, (), .ofPage .blank⟩ =
          .ok (.rtcOverflow, after) ∧
        after.inst.Dormant ∧ after.inst.status.rtcOverflow = true ∧
        (∃ saved, after.inst.history[0]? = some saved ∧
          compiled.definition.sections.Child 1 saved) ∧
        (brief compiled.definition).tick 0 ⟨after.inst, (), .ofPage .blank⟩ =
          .ok (.started, later) ∧
        Spends (brief compiled.definition) 0 (.ofScene ⟨after.inst, (), .ofPage .blank⟩) []
          later := by
  obtain ⟨compiled, compiles⟩ := exists_compiled_treadmill
  obtain ⟨has, keeps, shallow, slot, serial, alone⟩ := sections_treadmill compiles
  have ran : (do
      let definition ← treadmill.definition?
      let fresh := Instance.fresh .tier256 definition.structureHash 1
      return decide ((do
        let ticks ← Happening.chronicle definition [.beat 0, .beat 5] fresh
        let inst ← Happening.leave definition [.beat 0, .beat 5] fresh
        let (outcome, after) ← (brief definition).tick 5 ⟨inst, (), .ofPage .blank⟩
        return decide (outcome = .rtcOverflow ∧ (brief definition).fits after.inst = true ∧
          .exit 1 ∈ ticks.flatMap Tick.trace ++ after.trace.toList)) = Except.ok true)) =
      some true := by decide +kernel
  rw [drawn_treadmill.definition?_eq compiles] at ran
  have goes := of_decide_eq_true (Option.some.inj ran)
  obtain ⟨ticks, told, goes⟩ := Yields.exists_of_bind goes
  obtain ⟨inst, left, goes⟩ := Yields.exists_of_bind goes
  obtain ⟨⟨outcome, after⟩, overflows, goes⟩ := Yields.exists_of_bind goes
  obtain ⟨rfl, fits, wasLeft⟩ := of_decide_eq_true (Except.ok.inj goes)
  have sound := (drawn_treadmill.sound compiles).1
  have resting : Resting .nothing compiled.definition inst :=
    (Happening.leave_returns sound serial (by simp)
      (.fresh (Tier.le_tier256 _) 1 trivial)).yields.of_eq _ left
  have careful : (brief compiled.definition).dispatch.Careful compiled.definition := ⟨nofun, nofun⟩
  obtain ⟨-, exactly, contains, history⟩ := overflow_contained drawn_treadmill compiles rfl careful
    5 ⟨inst, (), .ofPage .blank⟩ resting.ready.room (resting.ready.known sound)
    resting.ready.queueSound
  obtain ⟨budget, transitions, event, before, reached, within, goesOn, rfl⟩ :=
    (exactly after).1 overflows
  have contained := (contains budget transitions event before within).1 reached goesOn
  let next : Scene Unit := ⟨((brief compiled.definition).contain reached).inst, (), .ofPage .blank⟩
  obtain ⟨later, starts, spends⟩ : ∃ later, (brief compiled.definition).tick 0 next = _ ∧ _ :=
    contained.restarts 0 rfl careful rfl rfl rfl contained.queueSound fits
  obtain ⟨retains, -⟩ := history .tier256 1 [.beat 0, .beat 5] ticks (Tier.le_tier256 _) (by simp)
    (by simp) told left (.empty _) (Dispatch.preserves_empty _) _ overflows 1 has keeps
  obtain ⟨saved, found, leaf, -, -, recorded⟩ := retains wasLeft fun other shares => by
    refine absurd (UInt16.toNat_inj.1 (alone other.toNat shares.has ?_)) shares.differs
    rw [UInt16.ofNat_toNat]
    exact shares.keeps
  rw [slot] at found
  exact ⟨compiled, compiles, inst, _, later, left, overflows, contained.dormant,
    contained.marked, ⟨saved, found, (recorded shallow).1⟩, starts, spends⟩

end Kernel

end Statechart
