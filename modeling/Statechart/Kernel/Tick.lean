/-
# Ticks

A tick takes one instance through its phases. First time passes. An instance without
active states then enters its default configuration, and that is all. Otherwise
events are taken from the queue, one after the other, and each one runs to
completion: the best transition for it is taken, and then completion transitions as
long as one applies. Last the activities go on.

Deferred events are put back once, without the mark. An event that sets off more
transitions than the limits allow ends the tick: all leaves and timers are cleared
and the instance starts over at its next tick.

An instance is skipped and not touched if it belongs to another machine, is too small
for the definition, or stores a phase that does not exist. A stored phase other than
`idle` is taken up where it says.
-/

import Statechart.Kernel.Activity
import Statechart.Kernel.Selection
import Statechart.Kernel.Timer
import Statechart.Kernel.Transition

namespace Statechart.Kernel

open Rom (rootIndex)

variable {User : Type} (kernel : Kernel User)

/-- What became of a tick. -/
inductive Outcome
  | skipped
  /-- The default configuration was entered. -/
  | started
  /-- Events taken from the queue, and transitions taken. -/
  | completed (events transitions : Nat)
  /-- An event set off too many transitions. -/
  | rtcOverflow
  deriving DecidableEq, Repr

/-- The largest number of transitions that is reported. -/
def maxTransitions : Nat := 65535

/-- What became of an event's run to completion. -/
inductive Completion (User : Type)
  /-- No further transition applies, after so many. -/
  | settled (steps : Nat) (progress : Progress User)
  /-- One more transition applies than may be taken. -/
  | overflow (progress : Progress User)

/-- Note how many transitions the current run to completion has taken; no more than
255 can be noted. -/
def withSteps (steps : Nat) (progress : Progress User) : Progress User :=
  progress.withInst { progress.inst with microStep := UInt8.ofNat (min steps 255) }

/-- Take transitions, the first one on `event` and the following on completion, as
long as one applies; `remaining` at most, after `steps` that were taken before. -/
def runFrom : Nat → Nat → Event → Progress User → Except Fault (Completion User)
  | remaining, steps, event, progress => do
      let (chosen, progress) ← kernel.select event progress
      match chosen with
      | none => return .settled steps progress
      | some transition =>
        match remaining with
        | 0 => return .overflow progress
        | remaining + 1 =>
          let progress ← kernel.fire transition event.id progress
          runFrom remaining (steps + 1) .completion (withSteps (steps + 1) progress)

/-- Let an event run to completion. -/
def runToCompletion (event : Event) (progress : Progress User) :
    Except Fault (Completion User) :=
  kernel.runFrom kernel.limits.rtcSteps.toNat 0 event (withSteps 0 progress)

/-- What became of the events of a tick. -/
inductive Service (User : Type)
  /-- The instance had no active states and has entered its default configuration. -/
  | started (progress : Progress User)
  /-- How many events could still have been taken, and how many transitions were. -/
  | served (budget transitions : Nat) (progress : Progress User)
  /-- An event set off too many transitions. -/
  | overflow (progress : Progress User)

/-- Put a deferred event back without the mark. -/
def requeue (event : Event) (progress : Progress User) : Except Fault (Progress User) :=
  let plain := { event with flags := { event.flags with deferred := false } }
  enqueueOrNote plain event.priority progress

/-- Go on in the entry phase: enter the default configuration of an instance without
active states, or else go on with `next`. -/
def enterPhase (next : Progress User → Except Fault (Service User))
    (progress : Progress User) : Except Fault (Service User) := do
  let progress := progress.withPhase .entry
  if progress.inst.isStarted then next progress
  else return .started (← kernel.descend rootIndex progress)

/-- Let an event run to completion, and go on with `next` if there is another event
that may be taken. -/
def serveEvent (budget transitions : Nat)
    (next : Nat → Progress User → Except Fault (Service User)) (event : Event)
    (progress : Progress User) : Except Fault (Service User) := do
  match ← kernel.runToCompletion event (progress.withPhase .rtc) with
  | .overflow progress => return .overflow progress
  | .settled steps progress =>
    let transitions := min (transitions + steps) maxTransitions
    if 0 < budget && !progress.inst.queueIsEmpty then
      kernel.enterPhase (next transitions) progress
    else
      return .served budget transitions progress

/-- Take events from the queue and let them run to completion, `budget` of them at
most. -/
def serve : Nat → Nat → Progress User → Except Fault (Service User)
  | 0, transitions, progress => .ok (.served 0 transitions progress)
  | budget + 1, transitions, progress => do
      match ← progress.inst.dequeue with
      | (none, _) => return .served (budget + 1) transitions progress
      | (some event, inst) =>
        let progress := progress.withInst inst
        if event.flags.deferred then
          let progress ← requeue event progress
          serve budget transitions progress
        else
          kernel.serveEvent budget transitions (serve budget) event
            (progress.note (.event event.id event.priority))

/-- Drop the configuration of an instance that takes too many transitions. -/
def contain (progress : Progress User) : Progress User :=
  let inst := progress.inst.clearLeaves.clearTimers
  let cleared := { inst with status := { inst.status with rtcOverflow := true } }
  ((progress.withInst cleared).withPhase .idle).note (.rtcOverflow kernel.limits.rtcSteps)

/-- Let the activities go on and end the tick. -/
def finish (outcome : Outcome) (progress : Progress User) :
    Except Fault (Outcome × Progress User) := do
  let progress ← kernel.runActivities (progress.withPhase .activity)
  return (outcome, progress.withPhase .idle)

/-- End a tick after its events. -/
def conclude : Service User → Except Fault (Outcome × Progress User)
  | .started progress => kernel.finish .started progress
  | .served budget transitions progress =>
      kernel.finish (.completed (kernel.limits.events.toNat - budget) transitions) progress
  | .overflow progress => .ok (.rtcOverflow, kernel.contain progress)

/-- The phases from a given one to the end of the tick. -/
def runPhases (phase : Phase) (delta : UInt32) (progress : Progress User) :
    Except Fault (Outcome × Progress User) := do
  let budget := kernel.limits.events.toNat
  match phase with
  | .idle =>
    let progress ← kernel.advanceTimers delta (progress.withPhase .idle)
    if progress.inst.isStarted && progress.inst.queueIsEmpty then
      kernel.finish (.completed 0 0) progress
    else
      kernel.conclude (← kernel.enterPhase (kernel.serve budget 0) progress)
  | .entry =>
    kernel.conclude (← kernel.enterPhase (kernel.serve budget 0) progress)
  | .rtc =>
    kernel.conclude (← kernel.serveEvent budget 0 (kernel.serve budget) .completion progress)
  | .activity => kernel.finish (.completed 0 0) progress

/-- Whether an instance can be run at all: it belongs to the definition and is large
enough for it. -/
def fits (inst : Instance) : Bool :=
  inst.machineId = kernel.definition.structureHash && kernel.definition.tier ≤ inst.tier

/-- Let an instance do one tick, in which `delta` milliseconds pass. -/
def tick (delta : UInt32) (scene : Scene User) :
    Except Fault (Outcome × Progress User) :=
  let progress := Progress.ofScene scene
  if kernel.fits scene.inst then
    match scene.inst.phase? with
    | some phase => kernel.runPhases phase delta progress
    | none => .ok (.skipped, progress)
  else .ok (.skipped, progress)

end Statechart.Kernel
