/-
# Leaving states

A transition leaves every active state strictly below some state, deepest first, and
then takes away the leaves that were under it. Leaving a state saves its history,
disarms its timer and runs its exit action.

History remembers the active child of the state, or the active leaf under it if the
history is deep.
-/

import Statechart.Kernel.Basic

namespace Statechart.Kernel

open Rom (Definition noIndex)

variable {User : Type} (kernel : Kernel User)

/-- How many states can be active at once: one leaf in each of eight regions, and
all of their ancestors at the greatest depth. -/
def maxActive : Nat := 128

/-- The ancestor of `state`, or `state` itself, that is a child of `ancestor`; after
`steps` links at most. -/
def childTowards (definition : Definition) (ancestor : UInt16) :
    Nat → UInt16 → Except Fault UInt16
  | steps, state => do
      let parent ← definition.parent state
      if parent = ancestor then return state
      match steps with
      | 0 => throw .endless
      | steps + 1 => childTowards definition ancestor steps parent

/-- The first of `leaves` that lies strictly below `state`. -/
def leafBelow? (definition : Definition) (state : UInt16) :
    List UInt16 → Except Fault (Option UInt16)
  | [] => .ok none
  | leaf :: leaves => do
      if leaf = state then
        leafBelow? definition state leaves
      else if ← definition.isAncestorOrSelf state leaf then
        return some leaf
      else
        leafBelow? definition state leaves

/-- What the history of a state is to remember, if anything below the state is
active. -/
def activeDescendant? (state : UInt16) (deep : Bool) (inst : Instance) :
    Except Fault (Option UInt16) := do
  let definition := kernel.definition
  match ← leafBelow? definition state inst.activeLeaves with
  | none => return none
  | some leaf =>
    if deep then return some leaf
    let child ← childTowards definition state (definition.stateCount + 1) leaf
    return some child

/-- Save the history of a state, disarm its timer and run its exit action. -/
def exitState (state : UInt16) (progress : Progress User) :
    Except Fault (Progress User) := do
  let record ← kernel.definition.state state
  let mut inst := progress.inst
  if record.flags.history && record.historySlot != noIndex then
    if let some saved ← kernel.activeDescendant? state record.flags.deepHistory inst then
      inst ← inst.setHistory record.historySlot.toNat saved
  if record.hasTimer then
    inst ← inst.setTimer record.timerSlot.toNat 0
  kernel.runAction .exit record.exitAction state ((progress.withInst inst).note (.exit state))

/-- Whether a leaf lies strictly below `top`. -/
def isBelow (definition : Definition) (top leaf : UInt16) : Except Fault Bool :=
  if leaf = top then .ok false else definition.isAncestorOrSelf top leaf

/-- The states from `leaf` up to but not including `top`, added to `exiting` unless
they are listed there. More of them than can be active at once break a promise. -/
def gatherExiting (definition : Definition) (top leaf : UInt16) (exiting : List UInt16) :
    Except Fault (List UInt16) :=
  climb definition leaf (fun state _ => .ok (state == top))
    (fun state _ exiting =>
      if exiting.contains state then .ok exiting
      else if exiting.length < maxActive then .ok (exiting ++ [state])
      else .error .outOfBounds)
    exiting

/-- The active states strictly below `top`, in the order in which they are found. -/
def exitingBelow (definition : Definition) (top : UInt16) (leaves : List UInt16) :
    Except Fault (List UInt16) :=
  leaves.foldlM
    (fun exiting leaf => do
      if ← isBelow definition top leaf then gatherExiting definition top leaf exiting
      else return exiting)
    []

/-- Whether the first of two states, each given with its depth, is left no later than
the second: deeper ones first, then by index. -/
def leavesBefore (first second : UInt8 × UInt16) : Bool :=
  second.1 < first.1 || first.1 = second.1 && first.2 ≤ second.2

/-- Put a state, given with its depth, among others that are in the order in which they are left. -/
def insertLeaving (entry : UInt8 × UInt16) : List (UInt8 × UInt16) → List (UInt8 × UInt16)
  | [] => [entry]
  | first :: rest =>
      if leavesBefore entry first then entry :: first :: rest
      else first :: insertLeaving entry rest

/-- States in the order in which they are left. -/
def exitOrder (definition : Definition) (states : List UInt16) :
    Except Fault (List UInt16) := do
  let keyed ← states.mapM fun state => do
    let record ← definition.state state
    return (record.depth, state)
  return (keyed.foldr insertLeaving []).map Prod.snd

/-- The leaves that do not lie strictly below `top`. -/
def leavesBeside (definition : Definition) (top : UInt16) (leaves : List UInt16) :
    Except Fault (List UInt16) :=
  leaves.filterM fun leaf => do
    let below ← isBelow definition top leaf
    return !below

/-- Leave every active state strictly below `top`. -/
def exitBelow (top : UInt16) (progress : Progress User) : Except Fault (Progress User) := do
  let definition := kernel.definition
  let exiting ← exitingBelow definition top progress.inst.activeLeaves
  let ordered ← exitOrder definition exiting
  let progress ← ordered.foldlM (fun progress state => kernel.exitState state progress) progress
  let beside ← leavesBeside definition top progress.inst.activeLeaves
  return progress.withInst (progress.inst.withActiveLeaves beside)

end Statechart.Kernel
