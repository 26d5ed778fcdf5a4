/-
# Runs across a reload

A soft reload swaps the definition and leaves the bytes of the instances alone. The structure
hash then stands for the topology, and the comparison of tiers for the room; nothing else of
the old definition needs to be known. Whatever timers, history and queue an instance brings
along, the new machine takes it up as it does an instance of its own: `Resting` carries over
(`Resting.of_topology`), and with it all that is known of runs.
-/

import Statechart.Proofs.Chart.Restoring
import Statechart.Proofs.Kernel.Legality
import Statechart.Proofs.Rom.Topology
import Statechart.Proofs.Yields

namespace Statechart

open Rom (noIndex)

namespace Reload.Outcome

open Rom (Definition)

/-- Instances do not have to start over exactly if the structure hash is the same and the tier
has not grown. -/
theorem kept_iff {previous next : Definition} :
    (classify (some previous) next = noChange ∨ classify (some previous) next = softReload) ↔
      previous.structureHash = next.structureHash ∧ next.tier ≤ previous.tier := by
  rw [classify]
  by_cases differ : previous.structureHash ≠ next.structureHash ∨ previous.tier < next.tier
  · rw [if_pos differ]
    constructor
    · rintro (changed | changed) <;> cases changed
    · rintro ⟨same, room⟩
      exact absurd differ (not_or.2 ⟨not_not.2 same, Nat.not_lt.2 room⟩)
  · rw [if_neg differ]
    rw [not_or, not_not] at differ
    refine ⟨fun _ => ⟨differ.1, Nat.le_of_not_lt differ.2⟩, fun _ => ?_⟩
    split
    · exact .inr rfl
    · exact .inl rfl

/-- Unless instances have to start over, they are left alone. -/
theorem apply_eq_of_kept {outcome : Outcome} (kept : outcome = noChange ∨ outcome = softReload)
    (inst : Instance) : outcome.apply inst = (false, inst) := by
  rcases kept with rfl | rfl <;> rfl

end Reload.Outcome

/-- Machines with equal structure streams have the same topology. -/
theorem Chart.Graph.Drawn.topology_eq {first second : Chart.Graph} {before after : Chart.Compiled}
    (drawn : first.Drawn) (drawnToo : second.Drawn)
    (compiles : first.compile = .ok (.ok before)) (compilesToo : second.compile = .ok (.ok after))
    (streams : before.definition.sections.structureStream =
      after.definition.sections.structureStream) :
    before.definition.sections.topology = after.definition.sections.topology := by
  obtain ⟨flat, -, -, -, -, -, sections, encodable, -⟩ := drawn.exists_flat compiles
  obtain ⟨flatToo, -, -, -, -, -, sectionsToo, encodableToo, -⟩ := drawnToo.exists_flat compilesToo
  rw [sections, sectionsToo] at streams ⊢
  exact (Rom.Sections.structureStream_eq_iff encodable.states encodableToo.states).1 streams

namespace Kernel

open Rom (Definition)

variable {User : Type} {definition old new : Definition} {pledge : Instance.Pledge}
  {inst : Instance}

namespace Happening

/-- The instance that a run leaves behind. -/
def leave (definition : Definition) (happenings : List (Happening User)) (inst : Instance) :
    Except Fault Instance :=
  happenings.foldlM (fun inst happening => do
    let (_, after) ← happening.run definition inst
    return after) inst

/-- A run leaves a resting instance behind. -/
theorem leave_returns (sound : definition.Sound)
    (alone : (definition.sections.record Rom.rootIndex).flags.parallel = false)
    {happenings : List (Happening User)}
    (harmless : ∀ happening ∈ happenings, happening.Harmless pledge)
    (resting : Resting pledge definition inst) :
    Returns (leave definition happenings inst) (Resting pledge definition) := by
  refine Returns.foldlM_keeps (fun happening inst listed resting => ?_) resting
  apply (run_returns sound alone (harmless happening listed) resting).bind
  intro answer became
  exact .pure became.1

/-- A tick is told together with the instance that it leaves behind. -/
theorem run_yields (happening : Happening User) :
    Yields (happening.run definition inst) fun answer => ∀ tick ∈ answer.1, tick.2 = answer.2 := by
  cases happening with
  | queued event priority =>
    exact (Yields.self _).bind fun _ _ => .pure (List.forall_mem_nil _)
  | remembered saved => exact .ok (List.forall_mem_nil _)
  | ticked dispatch limits delta user commands =>
    apply (Yields.self _).bind
    intro answer _
    apply Yields.pure
    intro tick listed
    rw [List.mem_singleton.1 listed]

/-- After every tick of a run, what is pledged holds. -/
theorem watch_pledged (sound : definition.Sound)
    (alone : (definition.sections.record Rom.rootIndex).flags.parallel = false)
    {happenings : List (Happening User)}
    (harmless : ∀ happening ∈ happenings, happening.Harmless pledge)
    (resting : Resting pledge definition inst) :
    Returns (watch definition happenings inst) fun ticks => ∀ tick ∈ ticks, pledge.Of tick.2 := by
  induction happenings generalizing inst with
  | nil => exact .ok fun _ listed => absurd listed List.not_mem_nil
  | cons happening rest ih =>
    have ran := run_returns sound alone (harmless happening (List.mem_cons_self ..)) resting
    apply (ran.and happening.run_yields).bind
    rintro answer ⟨⟨rests, -⟩, told⟩
    have later := fun other member => harmless other (List.mem_cons_of_mem happening member)
    apply (ih later rests).bind
    intro ticks kept
    apply Returns.pure
    intro tick listed
    rcases List.mem_append.1 listed with now | after
    · rw [told tick now]
      exact rests.pledged
    · exact kept tick after

end Happening

/-- An instance that rests under one machine rests under another of the same topology that
needs no more room. -/
theorem Resting.of_topology (same : old.sections.topology = new.sections.topology)
    (tier : new.tier ≤ old.tier) (resting : Resting pledge old inst) :
    Resting pledge new inst where
  ready :=
    { room := Tier.le_trans tier resting.ready.room
      queueSound := resting.ready.queueSound
      exists_active := by
        obtain ⟨active, holds, settled⟩ := resting.ready.exists_active
        exact ⟨active, holds, settled.imp_left (·.of_topology same)⟩ }
  idle := resting.idle
  pledged := resting.pledged

/-- Instances outlive a soft reload. If no hash has collided, an instance that has run under
the old machine is not touched by the reload, fits the new machine, and what is active is legal
for it. From there on every run under the new machine is lawful, with the timers, history and
queue that the old one has left or with any others. No tick is skipped, and no leaf overflow
gets marked, unless a callback gives the instance away or sets the mark. -/
theorem reload_lawful {first second : Chart.Graph} {before after : Chart.Compiled}
    (drawn : first.Drawn) (drawnToo : second.Drawn)
    (compiles : first.compile = .ok (.ok before)) (compilesToo : second.compile = .ok (.ok after))
    (alone : (first.state Chart.rootId).parallel = false)
    (aloneToo : (second.state Chart.rootId).parallel = false)
    (kept : Reload.Outcome.classify (some before.definition) after.definition = .noChange ∨
      Reload.Outcome.classify (some before.definition) after.definition = .softReload)
    (streams : before.definition.sections.structureStream =
      after.definition.sections.structureStream)
    {tier : Tier} (room : before.definition.tier ≤ tier) (seed : UInt32)
    (past : List (Happening User)) (harmless : ∀ happening ∈ past, happening.Harmless .nothing) :
    ∃ inst,
      Happening.leave before.definition past
          (.fresh tier before.definition.structureHash seed) = .ok inst ∧
        (Reload.Outcome.classify (some before.definition) after.definition).apply inst =
          (false, inst) ∧
        inst.QueueSound ∧
        ((∀ slot ∈ inst.leaves, slot = noIndex) ∨
          ∃ active, Holds inst.leaves active ∧ after.definition.sections.Legal active) ∧
        ((∀ happening ∈ past, happening.Harmless (.belongs before.definition.structureHash)) →
          inst.machineId = after.definition.structureHash ∧
            ∀ kernel : Kernel User, kernel.definition = after.definition →
              kernel.fits inst = true) ∧
        ((∀ happening ∈ past, happening.Harmless .unmarked) →
          inst.status.leafOverflow = false) ∧
        ∀ given : Instance, given.leaves = inst.leaves → given.phase? = inst.phase? →
          given.QueueSound →
          ∀ future : List (Happening User),
            (∀ happening ∈ future, happening.Harmless .nothing) →
            ∃ ticks, Happening.watch after.definition future given = .ok ticks ∧
              (∀ tick ∈ ticks, Lawful after.definition tick.1 tick.2) ∧
              (given.machineId = after.definition.structureHash →
                (∀ happening ∈ future,
                  happening.Harmless (.belongs after.definition.structureHash)) →
                ∀ tick ∈ ticks, tick.1 ≠ .skipped) ∧
              (given.status.leafOverflow = false →
                (∀ happening ∈ future, happening.Harmless .unmarked) →
                ∀ tick ∈ ticks, tick.2.status.leafOverflow = false) := by
  obtain ⟨sound, flags⟩ := drawn.sound compiles
  obtain ⟨soundToo, flagsToo⟩ := drawnToo.sound compilesToo
  have serial := flags.trans alone
  have serialToo := flagsToo.trans aloneToo
  obtain ⟨hashes, tiers⟩ := Reload.Outcome.kept_iff.1 kept
  have topology := drawn.topology_eq drawnToo compiles compilesToo streams
  obtain ⟨inst, left, rests⟩ :=
    Happening.leave_returns sound serial harmless (.fresh room seed trivial)
  have resting := rests.of_topology topology tiers
  refine ⟨inst, left, Reload.Outcome.apply_eq_of_kept kept inst, resting.ready.queueSound,
    resting.legal soundToo serialToo, ?_, ?_, ?_⟩
  · intro faithful
    have belonging := Happening.leave_returns sound serial faithful (.fresh room seed rfl)
    have belongs : inst.machineId = before.definition.structureHash :=
      (belonging.yields.of_eq inst left).pledged
    refine ⟨belongs.trans hashes, ?_⟩
    rintro kernel runs
    exact Bool.and_eq_true_iff.2 ⟨decide_eq_true (runs ▸ belongs.trans hashes),
      decide_eq_true (runs ▸ resting.ready.room)⟩
  · intro careful
    have clear := Happening.leave_returns sound serial careful (.fresh room seed rfl)
    exact (clear.yields.of_eq inst left).pledged
  · intro given leaves phase queue future harmlessToo
    have goesOn (pledge : Instance.Pledge) (pledged : pledge.Of given) :
        Resting pledge after.definition given :=
      ⟨resting.ready.of_leaves_eq leaves queue, phase.trans resting.idle, pledged⟩
    obtain ⟨ticks, watched, lawful⟩ :=
      Happening.watch_returns soundToo serialToo future given harmlessToo (goesOn _ trivial)
    refine ⟨ticks, watched, fun tick listed => (lawful tick listed).1, ?_, ?_⟩
    · intro belongs faithful tick listed
      have taken :=
        Happening.watch_returns soundToo serialToo future given faithful (goesOn _ belongs)
      exact (taken.yields.of_eq ticks watched tick listed).2 fun _ same => same
    · intro clear careful
      have unmarked := Happening.watch_pledged soundToo serialToo careful (goesOn _ clear)
      exact unmarked.yields.of_eq ticks watched

/-- The lone state gets a timer while an instance is running. -/
theorem reload_lawful_lone :
    ∃ before after, Chart.Graph.lone.compile = .ok (.ok before) ∧
      Chart.Graph.clock.compile = .ok (.ok after) ∧ ∃ inst,
        Happening.leave before.definition twoTicks
            (.fresh .tier256 before.definition.structureHash 1) = .ok inst ∧
          ∃ ticks, Happening.watch after.definition twoTicks inst = .ok ticks ∧
            ∀ tick ∈ ticks, Lawful after.definition tick.1 tick.2 ∧ tick.1 ≠ .skipped := by
  obtain ⟨before, compiles⟩ := Chart.Graph.exists_compiled_lone
  obtain ⟨after, compilesToo⟩ := Chart.Graph.exists_compiled_clock
  have compared : (do
      let old ← Chart.Graph.lone.definition?
      let new ← Chart.Graph.clock.definition?
      return decide (Reload.Outcome.classify (some old) new = .softReload ∧
        old.sections.structureStream = new.sections.structureStream)) = some true := by
    decide +kernel
  rw [Chart.Graph.drawn_lone.definition?_eq compiles,
    Chart.Graph.drawn_clock.definition?_eq compilesToo] at compared
  obtain ⟨soft, streams⟩ := of_decide_eq_true (Option.some.inj compared)
  obtain ⟨inst, left, -, queue, -, belongs, -, future⟩ :=
    reload_lawful Chart.Graph.drawn_lone Chart.Graph.drawn_clock compiles compilesToo rfl rfl
      (.inr soft) streams (Tier.le_tier256 _) 1 twoTicks (harmless_twoTicks .nothing)
  obtain ⟨ticks, watched, lawful, taken, -⟩ :=
    future inst rfl rfl queue twoTicks (harmless_twoTicks .nothing)
  have ran := taken (belongs (harmless_twoTicks _)).1 (harmless_twoTicks _)
  exact ⟨before, after, compiles, compilesToo, inst, left, ticks, watched, fun tick listed =>
    ⟨lawful tick listed, ran tick listed⟩⟩

end Kernel

end Statechart
