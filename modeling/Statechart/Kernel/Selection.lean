/-
# Choosing a transition

Global transitions are asked first, in table order. If none applies, the transitions
of all active states are looked through: leaf by leaf, from the leaf upwards, a state
under several leaves only once. The applicable transition of highest priority is
chosen, and of several the one found first. A state's own transitions lie in
descending order of priority, so the walk through them ends at the first one that can
no longer win.

A transition applies if it waits for the event and its guard passes. One that waits
for the timer applies only in the state whose timer has run out.
-/

import Statechart.Kernel.Basic

namespace Statechart.Kernel

open Rom (TransitionRecord noIndex)

variable {User : Type} (kernel : Kernel User)

/-- The first of some global transitions that applies. -/
def selectGlobal (event : Event) :
    List TransitionRecord → Progress User →
      Except Fault (Option TransitionRecord × Progress User)
  | [], progress => .ok (none, progress)
  | transition :: rest, progress => do
      if transition.event = event.id then
        let (passed, progress) ← kernel.checkGuard transition.guard event.id progress
        if passed then return (some transition, progress)
        selectGlobal event rest progress
      else
        selectGlobal event rest progress

/-- Whether a transition of `state` waits for an event. -/
def awaits (state : UInt16) (transition : TransitionRecord) (event : Event) : Bool :=
  transition.event = event.id &&
    (transition.event != Event.timerId || event.timerSource?.map Prod.snd = some state)

/-- Whether the best transition so far is at least as urgent as another one. -/
def outranks (best : Option TransitionRecord) (transition : TransitionRecord) : Bool :=
  match best with
  | some found => transition.priority ≤ found.priority
  | none => false

/-- The best transition so far, or a better one among those of `state` at the given
indices. -/
def selectOwn (event : Event) (state : UInt16) :
    List Nat → Option TransitionRecord × Progress User →
      Except Fault (Option TransitionRecord × Progress User)
  | [], found => .ok found
  | index :: rest, (best, progress) => do
      let transition ← kernel.definition.transition index
      if !awaits state transition event then
        selectOwn event state rest (best, progress)
      else if outranks best transition then
        return (best, progress)
      else
        let (passed, progress) ← kernel.checkGuard transition.guard event.id progress
        if passed then return (some transition, progress)
        selectOwn event state rest (best, progress)

/-- The best transition so far, or a better one of the states above the leaves in
`slots`. -/
def selectLocal (event : Event) :
    List Nat → Option TransitionRecord × Progress User →
      Except Fault (Option TransitionRecord × Progress User)
  | [], found => .ok found
  | slot :: slots, (best, progress) => do
      let leaf ← progress.inst.leaf slot
      if leaf = noIndex then return (best, progress)
      let found ← climb kernel.definition leaf
        (fun state found =>
          isReached kernel.definition found.2.inst state (List.range slot))
        (fun state record found =>
          kernel.selectOwn event state record.transitions.toList found)
        (best, progress)
      selectLocal event slots found

/-- The transition to take on an event, if one applies. -/
def select (event : Event) (progress : Progress User) :
    Except Fault (Option TransitionRecord × Progress User) := do
  let (global, progress) ←
    kernel.selectGlobal event kernel.definition.sections.globals.toList progress
  match global with
  | some transition => return (some transition, progress)
  | none =>
    kernel.selectLocal event (List.range progress.inst.tier.leafCapacity) (none, progress)

end Statechart.Kernel
