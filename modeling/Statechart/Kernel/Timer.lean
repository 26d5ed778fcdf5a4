/-
# Timers

Time passes at the start of a tick. Each armed timer is counted down, and one that
runs out is disarmed. If it belongs to an active state, that state's timer action
runs and a timer event is queued, which names the slot and the state.
-/

import Statechart.Kernel.Basic

namespace Statechart.Kernel

open Rom (Definition)

variable {User : Type} (kernel : Kernel User)

/-- The innermost state from `leaf` upwards whose timer uses a slot. -/
def timerOwnerAbove? (definition : Definition) (slot leaf : UInt16) :
    Except Fault (Option UInt16) :=
  climb definition leaf (fun _ owner => .ok owner.isSome)
    (fun state record _ =>
      .ok (if record.hasTimer && record.timerSlot = slot then some state else none))
    none

/-- The active state whose timer uses a slot, looked for leaf by leaf. -/
def timerOwner? (definition : Definition) (slot : UInt16) :
    List UInt16 → Except Fault (Option UInt16)
  | [] => .ok none
  | leaf :: leaves => do
      match ← timerOwnerAbove? definition slot leaf with
      | some owner => return some owner
      | none => timerOwner? definition slot leaves

/-- What follows when the timer in a slot has run out. -/
def expire (slot : UInt16) (progress : Progress User) : Except Fault (Progress User) := do
  match ← timerOwner? kernel.definition slot progress.inst.activeLeaves with
  | none => return progress
  | some owner =>
    let record ← kernel.definition.state owner
    let progress ← kernel.runAction .timer record.timerAction owner
      (progress.note (.timerFired slot owner))
    enqueueOrNote (Event.timer slot owner) .normal progress

/-- Count the timer in a slot down. -/
def advanceTimer (delta : UInt32) (progress : Progress User) (slot : Nat) :
    Except Fault (Progress User) := do
  let remaining ← progress.inst.timer slot
  if remaining = 0 then
    return progress
  else if delta < remaining then
    let inst ← progress.inst.setTimer slot (remaining - delta)
    return progress.withInst inst
  else
    let inst ← progress.inst.setTimer slot 0
    kernel.expire (UInt16.ofNat slot) (progress.withInst inst)

/-- Let time pass for every timer, in slot order. -/
def advanceTimers (delta : UInt32) (progress : Progress User) :
    Except Fault (Progress User) :=
  if delta = 0 then .ok progress
  else (List.range progress.inst.tier.timerCapacity).foldlM (kernel.advanceTimer delta) progress

end Statechart.Kernel
