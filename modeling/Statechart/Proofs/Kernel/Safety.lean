/-
# A tick never breaks off

Whatever its host has done to an instance between ticks, as long as the leaf slots are the
ones that ticks have left behind, a tick of a compiled machine ends without fault: every
index lies in its table, every slot in the instance, every chain and every set of states to
leave in its buffer. No state that becomes active lacks a leaf slot either.

`Reachable` collects the instances in question. Between two ticks a host may rewrite
timers, history, status, phase and queue as it likes, with any events in the queue's cells;
only the cursors stay within the ring. Limits, time steps and callbacks can be different
ones in each tick.
-/

import Statechart.Proofs.Chart.Compilation
import Statechart.Proofs.Kernel.Tick

namespace Statechart.Kernel

open Rom (Definition)

variable {User : Type} {kernel : Kernel User}

/-- A kernel without callbacks. -/
def bare (definition : Definition) : Kernel Unit where
  definition := definition
  dispatch := .empty
  limits := .default

/-- The callbacks of a host that registers one action. -/
def Dispatch.ofAction (name : String) (action : Action User) : Dispatch User where
  actions := ⟨[.of name action], List.pairwise_singleton _ _⟩
  guards := .empty

theorem Dispatch.Harmless.empty (pledge : Instance.Pledge) :
    Dispatch.Harmless pledge (.empty : Dispatch User) :=
  ⟨nofun, nofun⟩

/-- The instances of a definition, as their hosts and their ticks leave them. -/
inductive Reachable (User : Type) (definition : Definition) : Instance → Prop
  | fresh (tier : Tier) (machineId seed : UInt32) : definition.tier ≤ tier →
      Reachable User definition (.fresh tier machineId seed)
  | rewritten {before after : Instance} : Reachable User definition before →
      after.leaves = before.leaves → after.QueueSound → Reachable User definition after
  | ticked {kernel : Kernel User} {delta : UInt32} {scene : Scene User} {outcome : Outcome}
      {after : Progress User} : kernel.definition = definition →
      kernel.dispatch.Harmless .nothing → Reachable User definition scene.inst →
      kernel.tick delta scene = .ok (outcome, after) → Reachable User definition after.inst

/-- What is known of an instance whose leaf slots come from ticks. -/
structure Ready (definition : Definition) (inst : Instance) : Prop where
  room : definition.tier ≤ inst.tier
  queueSound : inst.QueueSound
  exists_active : ∃ active, Holds inst.leaves active ∧ Settled definition.sections True active

namespace Ready

theorem fresh {definition : Definition} {tier : Tier} (room : definition.tier ≤ tier)
    (machineId seed : UInt32) : Ready definition (.fresh tier machineId seed) where
  room := room
  queueSound := ⟨Instance.ringCapacity_pos tier, Instance.ringCapacity_pos tier, Nat.zero_le _⟩
  exists_active := ⟨[], .nil_of_replicate _, .inr ⟨trivial, rfl⟩⟩

theorem of_leaves_eq {definition : Definition} {before after : Instance}
    (ready : Ready definition before) (same : after.leaves = before.leaves)
    (sound : after.QueueSound) : Ready definition after where
  room := (Instance.tier_eq_of_leaves same).symm ▸ ready.room
  queueSound := sound
  exists_active := same.symm ▸ ready.exists_active

end Ready

namespace Reliable

variable {pledge : Instance.Pledge}

/-- A tick of a ready instance returns, keeps what is pledged, and leaves the instance
ready for the next one. -/
theorem tick_ready (reliable : Reliable pledge kernel) (delta : UInt32) {scene : Scene User}
    (ready : Ready kernel.definition scene.inst) (pledged : pledge.Of scene.inst) :
    Returns (kernel.tick delta scene) fun answer =>
      Ready kernel.definition answer.2.inst ∧ Steady pledge kernel answer.2 ∧
        ((kernel.fits scene.inst = false ∨ scene.inst.phase? = none) ∧
            answer = (.skipped, .ofScene scene) ∨
          Ended pledge kernel (scene.inst.phase? ≠ some .idle) answer.1 answer.2) := by
  obtain ⟨room, sound, active, holds, settled⟩ := ready
  apply (reliable.tick_returns delta room sound pledged holds settled).mono
  intro answer became
  rcases became with ⟨foreign, rfl⟩ | ended
  · refine ⟨⟨room, sound, active, holds, settled⟩, ?_, .inl ⟨foreign, rfl⟩⟩
    exact ⟨room, sound, pledged, fun _ => Array.not_mem_empty _⟩
  · refine ⟨⟨ended.steady.room, ended.steady.queueSound, ?_⟩, ended.steady, .inr ended⟩
    by_cases dropped : answer.1 = .rtcOverflow
    · exact ⟨[], ended.dropped dropped, .inr ⟨trivial, rfl⟩⟩
    · exact ((ended.configured dropped).weaken fun _ => trivial).exists_active

end Reliable

theorem Reachable.ready {definition : Definition} (sound : definition.Sound) {inst : Instance}
    (reachable : Reachable User definition inst) : Ready definition inst := by
  induction reachable with
  | fresh tier machineId seed room => exact .fresh room machineId seed
  | rewritten _ same queue ih => exact ih.of_leaves_eq same queue
  | @ticked kernel delta scene outcome after runs harmless _ done ih =>
    subst runs
    have reliable : Reliable .nothing kernel := ⟨sound, harmless⟩
    obtain ⟨answer, ran, next, _⟩ := reliable.tick_ready delta ih trivial
    rw [done] at ran
    cases ran
    exact next

/-- A tick of a compiled machine ends without fault, counts within its limits and overflows
no leaf slot. The mark that would say so is only set if a callback sets it. -/
theorem tick_safe {graph : Chart.Graph} {compiled : Chart.Compiled} (drawn : graph.Drawn)
    (compiles : graph.compile = .ok (.ok compiled)) (runs : kernel.definition = compiled.definition)
    (harmless : kernel.dispatch.Harmless .nothing) (delta : UInt32) (scene : Scene User)
    (reachable : Reachable User compiled.definition scene.inst) :
    ∃ outcome after, kernel.tick delta scene = .ok (outcome, after) ∧
      outcome.Counted kernel.limits ∧ after.inst.QueueSound ∧
      (∀ state, Trace.Entry.leafOverflow state ∉ after.trace) ∧
      (kernel.dispatch.Harmless .unmarked → scene.inst.status.leafOverflow = false →
        after.inst.status.leafOverflow = false) := by
  have sound := (drawn.sound compiles).1
  have ready := reachable.ready sound
  rw [← runs] at sound ready
  have reliable : Reliable .nothing kernel := ⟨sound, harmless⟩
  obtain ⟨⟨outcome, after⟩, ran, _, steady, ended⟩ := reliable.tick_ready delta ready trivial
  have counted : outcome.Counted kernel.limits := by
    rcases ended with ⟨_, same⟩ | ended
    · cases same
      trivial
    · exact ended.counted
  refine ⟨outcome, after, ran, counted, steady.queueSound, steady.untraced, ?_⟩
  intro careful clear
  have minding : Reliable .unmarked kernel := ⟨sound, careful⟩
  obtain ⟨answer, again, _, still, _⟩ := minding.tick_ready delta ready clear
  rw [ran] at again
  cases again
  exact still.pledged

theorem tick_safe_lone :
    ∃ compiled, Chart.Graph.lone.compile = .ok (.ok compiled) ∧
      ∃ outcome after,
        (bare compiled.definition).tick 16
          ⟨.fresh .tier256 compiled.definition.structureHash 1, (), .ofPage .blank⟩ =
            .ok (outcome, after) ∧
        outcome.Counted .default ∧ after.inst.QueueSound ∧
        (∀ state, Trace.Entry.leafOverflow state ∉ after.trace) ∧
        after.inst.status.leafOverflow = false := by
  obtain ⟨compiled, compiles⟩ := Chart.Graph.exists_compiled_lone
  have room : compiled.definition.tier ≤ .tier256 := Tier.le_tier256 _
  have harmless (pledge : Instance.Pledge) :
      (bare compiled.definition).dispatch.Harmless pledge := .empty pledge
  obtain ⟨outcome, after, ran, counted, sound, untraced, unmarked⟩ :=
    tick_safe Chart.Graph.drawn_lone compiles rfl (harmless .nothing) 16
      ⟨.fresh .tier256 compiled.definition.structureHash 1, (), .ofPage .blank⟩
      (.fresh .tier256 _ 1 room)
  refine ⟨compiled, compiles, outcome, after, ran, counted, sound, untraced, ?_⟩
  exact unmarked (harmless .unmarked) rfl

end Statechart.Kernel
