/-
# Kernels

A kernel runs the instances of one definition with one set of callbacks. This module
holds what all parts of a tick share: the progress that a tick has made so far, the
running of an action, the asking of a guard, and the walk from a state up to the
root.

Progress is the scene together with the steps traced so far. Every part of a tick
takes progress to progress, or ends in a fault.
-/

import Statechart.Instance.Queue
import Statechart.Kernel.Callbacks
import Statechart.Kernel.Limits
import Statechart.Rom.Definition
import Statechart.Trace.Record

namespace Statechart

open Rom (Definition StateRecord noIndex)

/-- What runs the instances of one definition. -/
structure Kernel (User : Type) where
  definition : Definition
  dispatch : Kernel.Dispatch User
  limits : Kernel.Limits

namespace Kernel

variable {User : Type}

/-- How far a tick has come. -/
structure Progress (User : Type) extends Scene User where
  /-- The steps so far. -/
  trace : Array Trace.Entry

namespace Progress

/-- No step yet. -/
def ofScene (scene : Scene User) : Progress User :=
  { scene with trace := #[] }

/-- Trace a step. -/
def note (progress : Progress User) (entry : Trace.Entry) : Progress User :=
  { progress with trace := progress.trace.push entry }

/-- Go on with another state of the instance. -/
def withInst (progress : Progress User) (inst : Instance) : Progress User :=
  { progress with inst }

/-- Go on in another phase. -/
def withPhase (progress : Progress User) (phase : Phase) : Progress User :=
  progress.withInst (progress.inst.withPhase phase)

end Progress

variable (kernel : Kernel User)

/-- Run an action without tracing it. -/
def invoke (action : UInt16) (progress : Progress User) : Except Fault (Progress User) := do
  let scene ← kernel.dispatch.invoke action progress.toScene
  return { scene with trace := progress.trace }

/-- Run an action of a state or transition, if there is one. -/
def runAction (cause : Trace.Cause) (action state : UInt16) (progress : Progress User) :
    Except Fault (Progress User) :=
  if action = Name.noId then .ok progress
  else kernel.invoke action (progress.note (.action cause action state))

/-- Ask a guard, if there is one. -/
def checkGuard (guard event : UInt16) (progress : Progress User) :
    Except Fault (Bool × Progress User) :=
  if guard = Name.noId then .ok (true, progress)
  else do
    let (passed, inst, user) ←
      kernel.dispatch.check guard event progress.inst progress.user
    return (passed, { progress with inst, user }.note (.guard guard event passed))

/-- Queue an event of the kernel's own making, and trace it if there is no room. -/
def enqueueOrNote (event : Event) (priority : Priority) (progress : Progress User) :
    Except Fault (Progress User) := do
  let (accepted, inst) ← progress.inst.enqueue event priority
  let progress := progress.withInst inst
  return if accepted then progress else progress.note (.eventDropped event.id)

/-- Visit `state` and its ancestors, innermost first, until the root is passed or
`done` holds, for `steps` states at most. -/
def climbFrom {Found : Type} (definition : Definition)
    (done : UInt16 → Found → Except Fault Bool)
    (visit : UInt16 → StateRecord → Found → Except Fault Found) :
    Nat → UInt16 → Found → Except Fault Found
  | steps, state, found => do
      if state = noIndex then return found
      if ← done state found then return found
      match steps with
      | 0 => throw .endless
      | steps + 1 =>
        let record ← definition.state state
        let found ← visit state record found
        climbFrom definition done visit steps record.parent found

/-- Visit `state` and its ancestors, innermost first, until the root is passed or
`done` holds. -/
def climb {Found : Type} (definition : Definition) (state : UInt16)
    (done : UInt16 → Found → Except Fault Bool)
    (visit : UInt16 → StateRecord → Found → Except Fault Found) (found : Found) :
    Except Fault Found :=
  climbFrom definition done visit (definition.stateCount + 1) state found

/-- Whether `state` is active on account of a leaf in one of `slots`. -/
def isReached (definition : Definition) (inst : Instance) (state : UInt16) :
    List Nat → Except Fault Bool
  | [] => .ok false
  | slot :: slots => do
      let leaf ← inst.leaf slot
      if ← definition.isAncestorOrSelf state leaf then return true
      isReached definition inst state slots

end Kernel

end Statechart
