/-
# Transitions

A transition leaves all active states below some ancestor of its source and target,
runs its action, and enters the states on the way down to its target. The ancestor is
the lowest one that has both ends strictly below it and is not parallel, since a
transition out of one region of a parallel state restarts all of them. It is the root
for a global transition, and wherever no ancestor qualifies.

An internal transition runs its action only.
-/

import Statechart.Kernel.Entry
import Statechart.Kernel.Exit

namespace Statechart.Kernel

open Rom (Definition TransitionRecord noIndex rootIndex)

variable {User : Type} (kernel : Kernel User)

/-- The last state that two chains from the root have in common, `shared` if they
have none. -/
def lastShared (shared : UInt16) : List UInt16 → List UInt16 → UInt16
  | first :: firsts, second :: seconds =>
      if first = second then lastShared first firsts seconds else shared
  | _, _ => shared

/-- The parent of a state, or the root where there is none. -/
def parentOrRoot (definition : Definition) (state : UInt16) : Except Fault UInt16 := do
  let parent ← definition.parent state
  return if parent = noIndex then rootIndex else parent

/-- Climb from `state` until the root or a state that is not parallel is reached,
over `steps` links at most. -/
def aboveParallel (definition : Definition) : Nat → UInt16 → Except Fault UInt16
  | steps, state => do
      if state = rootIndex then return state
      let record ← definition.state state
      if !record.flags.parallel then return state
      match steps with
      | 0 => throw .endless
      | steps + 1 =>
        let parent ← parentOrRoot definition state
        aboveParallel definition steps parent

/-- The state that a transition stays within. -/
def scope (source target : UInt16) : Except Fault UInt16 := do
  let definition := kernel.definition
  let sourceChain ← kernel.chainTo source
  let targetChain ← kernel.chainTo target
  let shared := lastShared rootIndex sourceChain targetChain
  let proper ←
    if shared = source || shared = target then parentOrRoot definition shared
    else pure shared
  aboveParallel definition (definition.stateCount + 1) proper

/-- Take a transition on an event. -/
def fire (transition : TransitionRecord) (event : UInt16) (progress : Progress User) :
    Except Fault (Progress User) := do
  let progress :=
    progress.note (.transition transition.source transition.target event)
  if transition.flags.isInternal then
    kernel.runAction .effect transition.action transition.source progress
  else
    let top ←
      if transition.flags.isGlobal then pure rootIndex
      else kernel.scope transition.source transition.target
    let progress ← kernel.exitBelow top progress
    let progress ← kernel.runAction .effect transition.action transition.source progress
    let chain ← kernel.chainTo transition.target
    let record ← kernel.definition.state top
    kernel.enterPath kernel.descend (chain.drop (record.depth.toNat + 1)) progress

end Statechart.Kernel
