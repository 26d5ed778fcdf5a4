/-
# Batches

A batch lets many instances do a tick, one after the other, with the same host value
and the same page of commands. Its summary counts what became of the ticks.
-/

import Statechart.Kernel.Tick

namespace Statechart.Kernel

variable {User : Type} (kernel : Kernel User)

/-- What became of the ticks of a batch. -/
structure Summary where
  /-- Instances that were not skipped. -/
  ticked : Nat
  skipped : Nat
  started : Nat
  overflowed : Nat
  /-- Events taken from all queues. -/
  events : Nat
  transitions : Nat
  deriving DecidableEq, Repr

namespace Summary

/-- No tick yet. -/
def zero : Summary := ⟨0, 0, 0, 0, 0, 0⟩

instance : Inhabited Summary := ⟨zero⟩

/-- Count one more tick. -/
def record (summary : Summary) : Outcome → Summary
  | .skipped => { summary with skipped := summary.skipped + 1 }
  | .started =>
      { summary with ticked := summary.ticked + 1, started := summary.started + 1 }
  | .completed events transitions =>
      { summary with
        ticked := summary.ticked + 1
        events := summary.events + events
        transitions := summary.transitions + transitions }
  | .rtcOverflow =>
      { summary with ticked := summary.ticked + 1, overflowed := summary.overflowed + 1 }

end Summary

/-- How far a batch has come. -/
structure BatchProgress (User : Type) where
  user : User
  commands : Command.Writer
  /-- The instances that have done their tick, in order. -/
  instances : Array Instance
  /-- What each of them has traced. -/
  traces : Array (Array Trace.Entry)
  summary : Summary

/-- Let the next instance of a batch do its tick. -/
def tickNext (delta : UInt32) (batch : BatchProgress User) (inst : Instance) :
    Except Fault (BatchProgress User) := do
  let (outcome, progress) ← kernel.tick delta ⟨inst, batch.user, batch.commands⟩
  return {
    user := progress.user
    commands := progress.commands
    instances := batch.instances.push progress.inst
    traces := batch.traces.push progress.trace
    summary := batch.summary.record outcome }

/-- Let instances do a tick, one after the other. -/
def tickBatch (delta : UInt32) (instances : List Instance) (user : User)
    (commands : Command.Writer) : Except Fault (BatchProgress User) :=
  instances.foldlM (kernel.tickNext delta) ⟨user, commands, #[], #[], .zero⟩

end Statechart.Kernel
