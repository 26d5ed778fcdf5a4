/-
# Entering states

Entering a state arms its timer and runs its entry action. A state that was entered
then settles: a leaf takes a leaf slot, a parallel state enters all of its children,
and any other state enters one child, which its history names or which is the initial
one. `descend` does this down to the leaves.

`enterPath` enters the states of a path from the top down and settles the last one.
Where the path passes through a parallel state, the children beside the path are
entered and settled too, in order.
-/

import Statechart.Kernel.Basic

namespace Statechart.Kernel

open Rom (StateRecord maxDepth noIndex)

variable {User : Type} (kernel : Kernel User)

/-- Arm the timer of a state, if it has one. A duration of zero counts as one. -/
def armTimer (state : UInt16) (record : StateRecord) (progress : Progress User) :
    Except Fault (Progress User) :=
  if record.hasTimer then do
    let duration := max record.timerMs 1
    let inst ← progress.inst.setTimer record.timerSlot.toNat duration.toUInt32
    return (progress.withInst inst).note (.timerArmed record.timerSlot state duration)
  else .ok progress

/-- Enter a state. -/
def enterState (state : UInt16) (progress : Progress User) :
    Except Fault (Progress User) := do
  let record ← kernel.definition.state state
  let progress ← armTimer state record (progress.note (.enter state))
  kernel.runAction .entry record.entryAction state progress

/-- Give a state the first free leaf slot. That there is none is marked in the
instance's status. -/
def addLeaf (state : UInt16) (progress : Progress User) : Except Fault (Progress User) :=
  match progress.inst.leaves.findIdx? (fun leaf => leaf == noIndex) with
  | some slot => (progress.inst.setLeaf slot state).map progress.withInst
  | none =>
      let status := { progress.inst.status with leafOverflow := true }
      .ok ((progress.withInst { progress.inst with status }).note (.leafOverflow state))

/-- What the history of a state names, as long as it is a proper descendant of the
state; for shallow history it has to be a child. -/
def restorable? (state : UInt16) (record : StateRecord) (inst : Instance) :
    Except Fault (Option UInt16) := do
  if !record.flags.history || record.historySlot = noIndex then return none
  let saved ← inst.historyAt record.historySlot.toNat
  if saved = noIndex || saved = state || kernel.definition.stateCount ≤ saved.toNat then
    return none
  if !(← kernel.definition.isAncestorOrSelf state saved) then return none
  if record.flags.deepHistory then return some saved
  let parent ← kernel.definition.parent saved
  return if parent = state then some saved else none

/-- The child that a state enters when its history names none. -/
def defaultChild (record : StateRecord) : UInt16 :=
  if record.initialChild = noIndex then record.firstChild else record.initialChild

/-- The states from the root down to `state`. -/
def chainTo (state : UInt16) : Except Fault (List UInt16) :=
  kernel.definition.ancestorChain state (maxDepth + 1)

/-- The states from below `depth` down to a state that deep history names. A state
that says it lies higher up breaks its promise. -/
def restoredPath (depth : UInt8) (saved : UInt16) : Except Fault (List UInt16) := do
  let chain ← kernel.chainTo saved
  if chain.length ≤ depth.toNat then throw .outOfBounds
  return chain.drop (depth.toNat + 1)

/-- Enter the states of a path, each one the child of the one before, and settle the
last one by `settle`. -/
def enterPath (settle : UInt16 → Progress User → Except Fault (Progress User)) :
    List UInt16 → Progress User → Except Fault (Progress User)
  | [], progress => .ok progress
  | [state], progress => do
      let progress ← kernel.enterState state progress
      settle state progress
  | state :: next :: rest, progress => do
      let onward := enterPath settle (next :: rest)
      let progress ← kernel.enterState state progress
      let record ← kernel.definition.state state
      if record.flags.parallel then
        record.children.words.foldlM
          (fun progress child =>
            if child = next then onward progress
            else do
              let progress ← kernel.enterState child progress
              settle child progress)
          progress
      else onward progress

/-- Settle a state that was entered, through at most `levels` states below each
other. -/
def descendFrom : Nat → UInt16 → Progress User → Except Fault (Progress User)
  | 0, _, _ => .error .endless
  | levels + 1, state, progress => do
      let settle := descendFrom levels
      let record ← kernel.definition.state state
      if record.isLeaf then
        addLeaf state progress
      else if record.flags.parallel then
        record.children.words.foldlM
          (fun progress child => do
            let progress ← kernel.enterState child progress
            settle child progress)
          progress
      else
        match ← kernel.restorable? state record progress.inst with
        | some saved =>
          if record.flags.deepHistory then
            let path ← kernel.restoredPath record.depth saved
            kernel.enterPath settle path progress
          else
            let progress ← kernel.enterState saved progress
            settle saved progress
        | none =>
          let child := defaultChild record
          let progress ← kernel.enterState child progress
          settle child progress

/-- Levels that a descent goes through at most. Entry actions can change what history
names, so a descent can come back to a state and go on elsewhere, and the number of
states is no limit. This limit is one that only a descent without an end gets to. -/
def maxLevels : Nat := 4294967296

/-- Settle a state that was entered. -/
def descend (state : UInt16) (progress : Progress User) : Except Fault (Progress User) :=
  kernel.descendFrom maxLevels state progress

end Statechart.Kernel
