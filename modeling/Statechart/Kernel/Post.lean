/-
# Posting events

The host posts an event by its id. Priority and flags are those that the definition
declares for it; an event that is not declared has normal priority and no flags.
-/

import Statechart.Instance.Queue
import Statechart.Rom.Definition

namespace Statechart.Kernel

open Rom (Definition)

/-- The event of an id as its definition declares it. -/
def eventFor (definition : Definition) (id : UInt16) : Event :=
  match definition.declaration? id with
  | some declared =>
      { Event.ofId id with priority := declared.priority, flags := declared.flags }
  | none => Event.ofId id

/-- Queue the event of an id as its definition declares it. The answer says whether
there was room. -/
def post (definition : Definition) (id : UInt16) (inst : Instance) :
    Except Fault (Bool × Instance) :=
  let event := eventFor definition id
  inst.enqueue event event.priority

end Statechart.Kernel
