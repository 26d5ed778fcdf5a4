/-
# Names in listings

Dumps and traces write states, events, actions and guards by name where metadata
gives one, and by number where it does not: an event as `E7`, an action or guard as
`#00ff`. The two events of the kernel have fixed names.
-/

import Statechart.Event.Basic
import Statechart.Metadata
import Statechart.Text.Numeral

namespace Statechart.Text

/-- An event's name, or its number. -/
def eventName (metadata : Option Metadata) (id : UInt16) : String :=
  if id = Event.completionId then "ε"
  else if id = Event.timerId then "timer"
  else ((metadata.bind (fun names => names.eventName? id))).getD s!"E{id}"

/-- An action's name, or its number. -/
def actionName (metadata : Option Metadata) (id : UInt16) : String :=
  (metadata.bind (fun names => names.actionName? id)).getD (Numeral.anonymous id)

/-- A guard's name, or its number. -/
def guardName (metadata : Option Metadata) (id : UInt16) : String :=
  (metadata.bind (fun names => names.guardName? id)).getD (Numeral.anonymous id)

/-- Each line followed by the end of the line. -/
def lines (contents : List String) : String :=
  String.join (contents.map fun line => line ++ "\n")

end Statechart.Text
