/-
# Legal configurations over whole runs

A run is a list of happenings: events are queued, history slots are overwritten, and ticks
are done, each with callbacks, limits and a time step of its own. Every tick of a run ends in
the idle phase and leaves a legal configuration behind, or no active leaf at all; the latter
only if nothing was active and the tick was skipped, or if the tick dropped the configuration
because an event set off too many transitions.

The root must not be parallel. A transition within a parallel root enters one of its
children only, and leaves the others out.
-/

import Statechart.Proofs.Kernel.Safety
import Statechart.Proofs.Rom.Legal

namespace Statechart

open Rom (noIndex)

/-- An instance whose history slots say something else. -/
def Instance.withHistory (inst : Instance) (saved : Nat → UInt16) : Instance :=
  { inst with
    history := (List.range inst.tier.historyCapacity).map saved
    length_history := by rw [List.length_map, List.length_range] }

namespace Kernel

open Rom (Definition)

variable {User : Type} {definition : Definition} {pledge : Instance.Pledge} {inst : Instance}

/-- One thing that happens to an instance. -/
inductive Happening (User : Type)
  | queued (event : Event) (priority : Priority)
  /-- The history slots are overwritten. -/
  | remembered (saved : Nat → UInt16)
  | ticked (dispatch : Dispatch User) (limits : Limits) (delta : UInt32) (user : User)
      (commands : Command.Writer)

namespace Happening

/-- What a happening does to an instance of a definition. If it was a tick, its outcome is
answered together with the instance. -/
def run (definition : Definition) (inst : Instance) :
    Happening User → Except Fault (List (Outcome × Instance) × Instance)
  | queued event priority => do
      let (_, after) ← inst.enqueue event priority
      return ([], after)
  | remembered saved => .ok ([], inst.withHistory saved)
  | ticked dispatch limits delta user commands => do
      let kernel : Kernel User := { definition, dispatch, limits }
      let (outcome, progress) ← kernel.tick delta { inst, user, commands }
      return ([(outcome, progress.inst)], progress.inst)

/-- The callbacks keep their promise. -/
def Harmless (pledge : Instance.Pledge) : Happening User → Prop
  | ticked dispatch _ _ _ _ => dispatch.Harmless pledge
  | _ => True

/-- What comes of all happenings of a run, tick by tick. -/
def watch (definition : Definition) :
    List (Happening User) → Instance → Except Fault (List (Outcome × Instance))
  | [], _ => .ok []
  | happening :: rest, inst => do
      let (ticks, after) ← happening.run definition inst
      let later ← watch definition rest after
      return ticks ++ later

end Happening

/-- What a tick of a run leaves behind. -/
structure Lawful (definition : Definition) (outcome : Outcome) (inst : Instance) : Prop where
  idle : inst.phase? = some .idle
  legal : (∀ slot ∈ inst.leaves, slot = noIndex) ∨
    ∃ active, Holds inst.leaves active ∧ definition.sections.Legal active
  dropped : outcome = .rtcOverflow → ∀ slot ∈ inst.leaves, slot = noIndex
  running : outcome ≠ .skipped → outcome ≠ .rtcOverflow →
    ∃ active, Holds inst.leaves active ∧ definition.sections.Legal active

/-- What holds of an instance between the happenings of a run. -/
structure Resting (pledge : Instance.Pledge) (definition : Definition) (inst : Instance) :
    Prop where
  ready : Ready definition inst
  idle : inst.phase? = some .idle
  pledged : pledge.Of inst

namespace Resting

theorem fresh {tier : Tier} (room : definition.tier ≤ tier) (seed : UInt32)
    (pledged : pledge false definition.structureHash) :
    Resting pledge definition (.fresh tier definition.structureHash seed) where
  ready := .fresh room _ seed
  idle := Phase.ofByte?_toByte .idle
  pledged := pledged

/-- An instance rests on while an event is queued. -/
theorem of_waits {after : Instance} (resting : Resting pledge definition inst)
    (waits : inst.Waits pledge after) : Resting pledge definition after where
  ready := resting.ready.of_leaves_eq waits.leaves_eq (waits.queueSound resting.ready.queueSound)
  idle := waits.phase_eq.trans resting.idle
  pledged := waits.pledged resting.pledged

theorem withHistory (resting : Resting pledge definition inst) (saved : Nat → UInt16) :
    Resting pledge definition (inst.withHistory saved) where
  ready := resting.ready.of_leaves_eq rfl (resting.ready.queueSound.of_ring_eq rfl)
  idle := resting.idle
  pledged := resting.pledged

/-- The leaves of a resting instance are legal, if there are any. -/
theorem legal (resting : Resting pledge definition inst) (sound : definition.Sound)
    (alone : (definition.sections.record Rom.rootIndex).flags.parallel = false) :
    (∀ slot ∈ inst.leaves, slot = noIndex) ∨
      ∃ active, Holds inst.leaves active ∧ definition.sections.Legal active := by
  obtain ⟨active, holds, settled⟩ := resting.ready.exists_active
  rcases settled with standing | ⟨_, rfl⟩
  · exact .inr ⟨active, holds, standing.legal sound.wellFormed alone⟩
  · exact .inl fun slot listed => (holds.mem listed).resolve_right nofun

end Resting

/-- A tick of a resting instance is lawful. -/
theorem Reliable.tick_rests {kernel : Kernel User} (reliable : Reliable pledge kernel)
    (alone : (kernel.definition.sections.record Rom.rootIndex).flags.parallel = false)
    (delta : UInt32) {scene : Scene User} (resting : Resting pledge kernel.definition scene.inst) :
    Returns (kernel.tick delta scene) fun answer =>
      Resting pledge kernel.definition answer.2.inst ∧
        Lawful kernel.definition answer.1 answer.2.inst ∧
          ((∀ inst, pledge.Of inst → inst.machineId = kernel.definition.structureHash) →
            answer.1 ≠ .skipped) := by
  apply (reliable.tick_ready delta resting.ready resting.pledged).mono
  intro answer became
  obtain ⟨outcome, progress⟩ := answer
  obtain ⟨ready, steady, ended⟩ := became
  have rests : Resting pledge kernel.definition progress.inst := by
    refine ⟨ready, ?_, steady.pledged⟩
    rcases ended with ⟨_, same⟩ | ended
    · cases same
      exact resting.idle
    · exact ended.phase
  refine ⟨rests, ⟨rests.idle, rests.legal reliable.sound alone, ?_, ?_⟩, ?_⟩
  · intro dropped
    rcases ended with ⟨_, same⟩ | ended
    · cases same
      cases dropped
    · exact fun slot inSlots => ((ended.dropped dropped).mem inSlots).resolve_right nofun
  · intro taken normal
    rcases ended with ⟨_, same⟩ | ended
    · cases same
      exact absurd rfl taken
    · obtain ⟨active, holds, settled⟩ := (ended.configured normal).exists_active
      rcases settled with standing | ⟨phase, _⟩
      · exact ⟨active, holds, standing.legal reliable.sound.wellFormed alone⟩
      · exact absurd resting.idle phase
  · intro belongs
    rcases ended with ⟨foreign | unknown, _⟩ | ended
    · have fits : kernel.fits scene.inst = true := Bool.and_eq_true_iff.2
        ⟨decide_eq_true (belongs scene.inst resting.pledged), decide_eq_true resting.ready.room⟩
      rw [fits] at foreign
      cases foreign
    · rw [resting.idle] at unknown
      cases unknown
    · exact ended.taken

namespace Happening

/-- Every happening returns and leaves a resting instance behind, and a tick among them is
lawful. No tick is skipped if the callbacks pledge that the instance goes on belonging to
its machine. -/
theorem run_returns (sound : definition.Sound)
    (alone : (definition.sections.record Rom.rootIndex).flags.parallel = false)
    {happening : Happening User} (harmless : happening.Harmless pledge)
    (resting : Resting pledge definition inst) :
    Returns (happening.run definition inst) fun answer =>
      Resting pledge definition answer.2 ∧ ∀ tick ∈ answer.1,
        Lawful definition tick.1 tick.2 ∧
          ((∀ inst, pledge.Of inst → inst.machineId = definition.structureHash) →
            tick.1 ≠ .skipped) := by
  cases happening with
  | queued event priority =>
    have queueing : Returns (inst.enqueue event priority) fun answer =>
        inst.Waits pledge answer.2 := resting.ready.queueSound.enqueue_returns event priority
    apply queueing.bind
    intro answer waits
    exact .pure ⟨resting.of_waits waits, List.forall_mem_nil _⟩
  | remembered saved =>
    exact .ok ⟨resting.withHistory saved, List.forall_mem_nil _⟩
  | ticked dispatch limits delta user commands =>
    have reliable : Reliable pledge { definition, dispatch, limits : Kernel User } :=
      ⟨sound, harmless⟩
    apply (reliable.tick_rests alone delta resting).bind
    intro answer became
    refine .pure ⟨became.1, fun tick listed => ?_⟩
    obtain rfl := List.mem_singleton.1 listed
    exact became.2

/-- A run returns, and all of its ticks are lawful. -/
theorem watch_returns (sound : definition.Sound)
    (alone : (definition.sections.record Rom.rootIndex).flags.parallel = false)
    (happenings : List (Happening User)) :
    ∀ inst, (∀ happening ∈ happenings, happening.Harmless pledge) →
      Resting pledge definition inst →
      Returns (watch definition happenings inst) fun ticks => ∀ tick ∈ ticks,
        Lawful definition tick.1 tick.2 ∧
          ((∀ inst, pledge.Of inst → inst.machineId = definition.structureHash) →
            tick.1 ≠ .skipped) := by
  induction happenings with
  | nil =>
    intro inst _ _
    exact .ok fun _ listed => absurd listed List.not_mem_nil
  | cons happening rest ih =>
    intro inst harmless resting
    apply (run_returns sound alone (harmless happening (List.mem_cons_self ..)) resting).bind
    intro answer became
    have later := fun other member => harmless other (List.mem_cons_of_mem happening member)
    apply (ih answer.2 later became.1).bind
    intro ticks lawful
    apply Returns.pure
    intro tick listed
    rcases List.mem_append.1 listed with now | after
    · exact became.2 tick now
    · exact lawful tick after

end Happening

/-- In every run of a compiled machine whose root is not parallel, each tick ends idle and
leaves a legal configuration or no active leaf behind, the latter only if it dropped the
configuration or was skipped. No tick is skipped as long as no callback gives the instance
to another machine. -/
theorem watch_lawful {graph : Chart.Graph} {compiled : Chart.Compiled} (drawn : graph.Drawn)
    (compiles : graph.compile = .ok (.ok compiled))
    (alone : (graph.state Chart.rootId).parallel = false) {tier : Tier}
    (room : compiled.definition.tier ≤ tier) (seed : UInt32) (happenings : List (Happening User))
    (harmless : ∀ happening ∈ happenings, happening.Harmless .nothing) :
    ∃ ticks,
      Happening.watch compiled.definition happenings
          (.fresh tier compiled.definition.structureHash seed) = .ok ticks ∧
        (∀ tick ∈ ticks, Lawful compiled.definition tick.1 tick.2) ∧
        ((∀ happening ∈ happenings,
            happening.Harmless (.belongs compiled.definition.structureHash)) →
          ∀ tick ∈ ticks, tick.1 ≠ .skipped) := by
  obtain ⟨sound, flags⟩ := drawn.sound compiles
  have serial := flags.trans alone
  obtain ⟨ticks, watched, lawful⟩ :=
    Happening.watch_returns sound serial happenings _ harmless (.fresh room seed trivial)
  refine ⟨ticks, watched, fun tick listed => (lawful tick listed).1, fun faithful tick listed => ?_⟩
  obtain ⟨others, again, taken⟩ :=
    Happening.watch_returns sound serial happenings _ faithful (.fresh room seed rfl)
  rw [watched] at again
  cases again
  exact (taken tick listed).2 fun _ belongs => belongs

/-- A first tick, an event, and a tick for it. -/
def twoTicks : List (Happening Unit) :=
  [.ticked .empty .default 16 () (.ofPage .blank), .queued (Event.ofId 300) .normal,
    .ticked .empty .default 16 () (.ofPage .blank)]

theorem harmless_twoTicks (pledge : Instance.Pledge) :
    ∀ happening ∈ twoTicks, happening.Harmless pledge := by
  intro happening listed
  rcases List.mem_cons.1 listed with rfl | listed
  · exact .empty pledge
  rcases List.mem_cons.1 listed with rfl | listed
  · trivial
  · obtain rfl := List.mem_singleton.1 listed
    exact .empty pledge

theorem watch_lawful_lone :
    ∃ compiled, Chart.Graph.lone.compile = .ok (.ok compiled) ∧ ∃ ticks,
      Happening.watch compiled.definition twoTicks
          (.fresh .tier256 compiled.definition.structureHash 1) = .ok ticks ∧
        ∀ tick ∈ ticks, Lawful compiled.definition tick.1 tick.2 ∧ tick.1 ≠ .skipped := by
  obtain ⟨compiled, compiles⟩ := Chart.Graph.exists_compiled_lone
  obtain ⟨ticks, watched, lawful, taken⟩ :=
    watch_lawful Chart.Graph.drawn_lone compiles rfl (Tier.le_tier256 _) 1 twoTicks
      (harmless_twoTicks .nothing)
  exact ⟨compiled, compiles, ticks, watched, fun tick listed =>
    ⟨lawful tick listed, taken (harmless_twoTicks _) tick listed⟩⟩

end Kernel

end Statechart
