/-
# Ticks keep the configuration

Each phase of a tick keeps `Configured`: events are taken from the queue and run to
completion, each transition exchanges a part of the configuration, and the activities
follow. A tick that is cut short drops the configuration as a whole. Either way the tick
returns, in the idle phase (`tick_returns`).

Whether anything is active is only in doubt until the entry phase. An instance that is
idle passes through it, so after its tick a configuration is active unless the tick was
cut short. A stored phase behind the entry phase goes on with what there is.
-/

import Statechart.Proofs.Kernel.Activity
import Statechart.Proofs.Kernel.Transition

namespace Statechart.Kernel

open Rom (Definition Sections noIndex rootIndex)

variable {User : Type} {pledge : Instance.Pledge} {idle : Prop} {kernel : Kernel User}
  {progress : Progress User}
  {active : List UInt16}

/-- How far a run to completion has come when it ends. -/
def Completion.reached : Completion User → Progress User
  | .settled _ progress => progress
  | .overflow progress => progress

/-- How far the events of a tick have led. -/
def Service.reached : Service User → Progress User
  | .started progress => progress
  | .served _ _ progress => progress
  | .overflow progress => progress

/-- What is counted stays within the limits and can be reported. -/
def Outcome.Counted (limits : Limits) : Outcome → Prop
  | .completed events transitions =>
      events ≤ limits.events.toNat ∧ transitions ≤ maxTransitions
  | _ => True

/-- What holds when the events of a tick are through. -/
def Service.Configured (pledge : Instance.Pledge) (kernel : Kernel User) (idle : Prop) :
    Service User → Prop
  | .started progress => Kernel.Configured pledge kernel False progress
  | .served _ transitions progress =>
      Kernel.Configured pledge kernel idle progress ∧ transitions ≤ maxTransitions
  | .overflow progress => Kernel.Configured pledge kernel idle progress

/-- What holds at the end of a tick that was not skipped. -/
structure Ended (pledge : Instance.Pledge) (kernel : Kernel User) (idle : Prop) (outcome : Outcome)
    (after : Progress User) : Prop where
  steady : Steady pledge kernel after
  taken : outcome ≠ .skipped
  counted : outcome.Counted kernel.limits
  phase : after.inst.phase? = some .idle
  dropped : outcome = .rtcOverflow → Holds after.inst.leaves []
  configured : outcome ≠ .rtcOverflow → Configured pledge kernel idle after

namespace Configured

theorem withPhase (configured : Configured pledge kernel idle progress) (phase : Phase) :
    Configured pledge kernel idle (progress.withPhase phase) :=
  configured.of_kept (configured.steady.spare rfl (.withPhase phase))

theorem withSteps (configured : Configured pledge kernel idle progress) (steps : Nat) :
    Configured pledge kernel idle (withSteps steps progress) := by
  have spares : progress.inst.Spares pledge (Kernel.withSteps steps progress).inst :=
    ⟨rfl, fun sound => sound.of_ring_eq rfl, id⟩
  exact configured.of_kept (configured.steady.spare rfl spares)

theorem states (configured : Configured pledge kernel idle progress)
    (wellFormed : kernel.definition.sections.WellFormed) :
    ∃ active, Holds progress.inst.leaves active ∧
      Settled kernel.definition.sections idle active ∧
      ∀ leaf ∈ active, kernel.definition.sections.Has leaf := by
  obtain ⟨active, holds, settled⟩ := configured.exists_active
  exact ⟨active, holds, settled, fun leaf listed => (settled.of_mem wellFormed leaf listed).1⟩

/-- An instance that was started has a configuration. -/
theorem started (configured : Configured pledge kernel idle progress)
    (running : progress.inst.isStarted = true) : Configured pledge kernel False progress := by
  obtain ⟨active, holds, settled⟩ := configured.exists_active
  refine ⟨configured.steady, active, holds, .inl ?_⟩
  rcases settled with standing | ⟨_, none⟩
  · exact standing
  · exact absurd none ((Instance.isStarted_iff holds).1 running)

end Configured

theorem Service.Configured.weaken {service : Service User} {wider : Prop}
    (configured : service.Configured pledge kernel idle) (allows : idle → wider) :
    service.Configured pledge kernel wider := by
  cases service with
  | started _ => exact configured
  | served _ _ _ => exact ⟨Kernel.Configured.weaken configured.1 allows, configured.2⟩
  | overflow _ => exact Kernel.Configured.weaken configured allows

namespace Reliable

variable (reliable : Reliable pledge kernel)

include reliable

/-! ### Events -/

/-- Taking one transition after the other keeps the configuration. -/
theorem runFrom_returns (remaining : Nat) : ∀ steps event progress,
    Configured pledge kernel idle progress →
      Returns (kernel.runFrom remaining steps event progress) fun completion =>
        Configured pledge kernel idle completion.reached := by
  have wellFormed := reliable.sound.wellFormed
  induction remaining with
  | zero =>
    intro steps event progress configured
    obtain ⟨active, holds, settled, states⟩ := configured.states wellFormed
    unfold runFrom
    apply (reliable.select_returns event holds states configured.steady).bind
    intro found searched
    have still := configured.of_kept searched.kept
    obtain ⟨chosen, after⟩ := found
    cases chosen with
    | none => exact .pure still
    | some transition => exact .pure still
  | succ remaining ih =>
    intro steps event progress configured
    obtain ⟨active, holds, settled, states⟩ := configured.states wellFormed
    unfold runFrom
    apply (reliable.select_returns event holds states configured.steady).bind
    intro found searched
    obtain ⟨chosen, after⟩ := found
    cases chosen with
    | none => exact .pure (configured.of_kept searched.kept)
    | some transition =>
      apply (reliable.fire_returns event.id (searched.kept.holds holds) settled
        (searched.enabled transition rfl) searched.kept.steady).bind
      intro fired next
      exact ih _ _ _ (next.withSteps (steps + 1))

theorem runToCompletion_returns (event : Event)
    (configured : Configured pledge kernel idle progress) :
    Returns (kernel.runToCompletion event progress) fun completion =>
      Configured pledge kernel idle completion.reached :=
  reliable.runFrom_returns _ _ _ _ (configured.withSteps 0)

/-- Past the entry phase a configuration is active. -/
theorem enterPhase_returns {next : Progress User → Except Fault (Service User)}
    (goes : ∀ progress, Configured pledge kernel False progress →
      Returns (next progress) fun service => service.Configured pledge kernel False)
    (configured : Configured pledge kernel idle progress) :
    Returns (kernel.enterPhase next progress) fun service =>
      service.Configured pledge kernel False := by
  have entry := configured.withPhase .entry
  unfold enterPhase
  show Returns (if _ then _ else _) _
  split
  · next running => exact goes _ (entry.started running)
  · next fresh =>
    obtain ⟨active, holds, _⟩ := entry.exists_active
    obtain rfl := Instance.eq_nil_of_not_started holds (Bool.eq_false_iff.2 fresh)
    apply (reliable.descend_root_settles entry.steady holds).bind
    intro after entered
    obtain ⟨steady, filled, fills, added⟩ := entered
    exact .pure ⟨steady, filled, added, .inl ⟨rootIndex, filled, .inl rfl, .refl _, fills⟩⟩

theorem serveEvent_returns (budget transitions : Nat)
    {next : Nat → Progress User → Except Fault (Service User)} (event : Event)
    (goes : ∀ transitions progress, transitions ≤ maxTransitions →
      Configured pledge kernel False progress →
        Returns (next transitions progress) fun service => service.Configured pledge kernel False)
    (configured : Configured pledge kernel idle progress) :
    Returns (kernel.serveEvent budget transitions next event progress) fun service =>
      service.Configured pledge kernel idle := by
  unfold serveEvent
  apply (reliable.runToCompletion_returns event (configured.withPhase .rtc)).bind
  intro completion still
  cases completion with
  | overflow after => exact .pure still
  | settled steps after =>
    have counted : min (transitions + steps) maxTransitions ≤ maxTransitions :=
      Nat.min_le_right _ _
    show Returns (if _ then _ else _) _
    split
    · have onward := fun progress => goes _ progress counted
      apply (reliable.enterPhase_returns onward still).mono
      intro service entered
      exact entered.weaken False.elim
    · exact .pure ⟨still, counted⟩

/-- Taking events from the queue keeps the configuration. -/
theorem serve_returns (budget : Nat) : ∀ transitions progress, transitions ≤ maxTransitions →
    Configured pledge kernel False progress →
      Returns (kernel.serve budget transitions progress) fun service =>
        service.Configured pledge kernel False := by
  induction budget with
  | zero =>
    intro transitions progress counted configured
    exact .ok ⟨configured, counted⟩
  | succ budget ih =>
    intro transitions progress counted configured
    have taking : Returns progress.inst.dequeue fun answer =>
        progress.inst.Spares pledge answer.2 := configured.steady.queueSound.dequeue_returns
    unfold serve
    apply taking.bind
    intro answer spares
    obtain ⟨next, inst⟩ := answer
    have kept : Kept pledge kernel progress (progress.withInst inst) :=
      configured.steady.spare rfl spares
    cases next with
    | none => exact .pure ⟨configured, counted⟩
    | some event =>
      show Returns (if _ then _ else _) _
      split
      · apply (kept.steady.enqueueOrNote_returns _ _).bind
        intro after queued
        exact ih _ _ counted (configured.of_kept (kept.trans queued))
      · have noted : Kept pledge kernel progress
            ((progress.withInst inst).note (.event event.id event.priority)) :=
          kept.trans (kept.steady.note nofun)
        exact reliable.serveEvent_returns _ _ event ih (configured.of_kept noted)

/-! ### The end of a tick -/

theorem finish_returns {outcome : Outcome} (taken : outcome ≠ .skipped)
    (normal : outcome ≠ .rtcOverflow) (counted : outcome.Counted kernel.limits)
    (configured : Configured pledge kernel idle progress) :
    Returns (kernel.finish outcome progress) fun answer =>
      Ended pledge kernel idle answer.1 answer.2 := by
  have wellFormed := reliable.sound.wellFormed
  have activity := configured.withPhase .activity
  obtain ⟨active, holds, _, states⟩ := activity.states wellFormed
  unfold finish
  apply (reliable.runActivities_returns holds states activity.steady).bind
  intro after kept
  have last := (activity.of_kept kept).withPhase .idle
  refine .pure ⟨last.steady, taken, counted, Phase.ofByte?_toByte .idle, ?_, fun _ => last⟩
  exact fun dropped => absurd dropped normal

omit reliable in
/-- Dropping the configuration leaves an idle instance without active leaves. -/
theorem contain_ended (steady : Steady pledge kernel progress) :
    Ended pledge kernel idle .rtcOverflow (kernel.contain progress) := by
  have cleared : Steady pledge kernel (progress.withInst progress.inst.clearLeaves) :=
    steady.withActiveLeaves []
  have empty : Holds progress.inst.clearLeaves.leaves [] :=
    Instance.holds_withActiveLeaves (Nat.zero_le _) nofun
  -- Timers, status and phase are written behind the cleared slots.
  let timers := progress.inst.clearLeaves.clearTimers
  let marked : Instance := { timers with status := { timers.status with rtcOverflow := true } }
  have spares : progress.inst.clearLeaves.Spares pledge marked :=
    ⟨rfl, fun sound => sound.of_ring_eq rfl, id⟩
  have written : Kept pledge kernel (progress.withInst progress.inst.clearLeaves)
      ((progress.withInst marked).withPhase .idle) :=
    cleared.spare rfl (spares.trans (.withPhase .idle))
  have noted : Kept pledge kernel (progress.withInst progress.inst.clearLeaves)
      (kernel.contain progress) :=
    written.trans (written.steady.note nofun)
  refine ⟨noted.steady, nofun, trivial, Phase.ofByte?_toByte .idle, ?_, ?_⟩
  · exact fun _ => noted.holds empty
  · exact fun other => absurd rfl other

theorem conclude_returns {service : Service User}
    (configured : service.Configured pledge kernel idle) :
    Returns (kernel.conclude service) fun answer => Ended pledge kernel idle answer.1 answer.2 := by
  cases service with
  | started progress =>
    have running : Configured pledge kernel idle progress := Configured.weaken configured False.elim
    exact reliable.finish_returns nofun nofun trivial running
  | served budget transitions progress =>
    obtain ⟨still, counted⟩ := configured
    exact reliable.finish_returns nofun nofun ⟨Nat.sub_le _ _, counted⟩ still
  | overflow progress => exact .ok (contain_ended (Configured.steady configured))

/-- A tick ends, and an instance that was idle has a configuration then. -/
theorem runPhases_returns (phase : Phase) (delta : UInt32)
    (configured : Configured pledge kernel True progress) :
    Returns (kernel.runPhases phase delta progress) fun answer =>
      Ended pledge kernel (phase ≠ .idle) answer.1 answer.2 := by
  have serving := fun transitions progress =>
    reliable.serve_returns kernel.limits.events.toNat transitions progress
  have fresh := fun progress => serving 0 progress (Nat.zero_le _)
  have none : Outcome.Counted kernel.limits (.completed 0 0) := ⟨Nat.zero_le _, Nat.zero_le _⟩
  cases phase with
  | idle =>
    have resting := configured.withPhase .idle
    obtain ⟨active, holds, settled, states⟩ := resting.states reliable.sound.wellFormed
    unfold runPhases
    apply (reliable.advanceTimers_returns delta holds states resting.steady).bind
    intro after kept
    have aged := resting.of_kept kept
    split
    · next running =>
      have started := aged.started (Bool.and_eq_true_iff.1 running).1
      exact reliable.finish_returns nofun nofun none (started.weaken False.elim)
    · apply (reliable.enterPhase_returns fresh aged).bind
      intro service entered
      exact reliable.conclude_returns (entered.weaken False.elim)
  | entry =>
    unfold runPhases
    apply (reliable.enterPhase_returns fresh configured).bind
    intro service entered
    exact reliable.conclude_returns (entered.weaken False.elim)
  | rtc =>
    unfold runPhases
    apply (reliable.serveEvent_returns _ _ .completion serving configured).bind
    intro service served
    exact reliable.conclude_returns (served.weaken fun _ => nofun)
  | activity =>
    unfold runPhases
    exact reliable.finish_returns nofun nofun none (configured.weaken fun _ => nofun)

/-- A tick returns. Unless it was skipped, what it leaves behind is a configuration or,
where the configuration was dropped, nothing. -/
theorem tick_returns (delta : UInt32) {scene : Scene User}
    (room : kernel.definition.tier ≤ scene.inst.tier) (sound : scene.inst.QueueSound)
    (pledged : pledge.Of scene.inst)
    (holds : Holds scene.inst.leaves active)
    (settled : Settled kernel.definition.sections True active) :
    Returns (kernel.tick delta scene) fun answer =>
      (kernel.fits scene.inst = false ∨ scene.inst.phase? = none) ∧
          answer = (.skipped, .ofScene scene) ∨
        Ended pledge kernel (scene.inst.phase? ≠ some .idle) answer.1 answer.2 := by
  have steady : Steady pledge kernel (.ofScene scene) := {
    room := room
    queueSound := sound
    pledged := pledged
    untraced := fun _ => Array.not_mem_empty _ }
  unfold tick
  split
  · cases stored : scene.inst.phase? with
    | some phase =>
      apply (reliable.runPhases_returns phase delta ⟨steady, active, holds, settled⟩).mono
      intro answer ended
      refine .inr { ended with configured := fun normal => ?_ }
      exact (ended.configured normal).weaken fun other same => other (Option.some.inj same)
    | none => exact .ok (.inl ⟨.inr rfl, rfl⟩)
  · next foreign => exact .ok (.inl ⟨.inl (Bool.eq_false_iff.2 foreign), rfl⟩)

end Reliable

end Statechart.Kernel
