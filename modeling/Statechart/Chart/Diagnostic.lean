/-
# Diagnostics

A diagnostic is one finding about a graph: its kind, its severity, a message and the
state it is about. Each kind has a message of its own; with a detail, four kinds name
it in the sentence and the others put it behind a colon.

`Diagnostics.render` writes findings one below the other, an empty line between them,
each followed by its location if one is known.
-/

import Statechart.Text.Names
import Statechart.Text.Palette

namespace Statechart.Chart

open Statechart.Text

/-- What can be found wrong with a graph. -/
inductive DiagnosticKind
  | missingRoot
  | orphanState
  | parentCycle
  | multipleInitialStates
  | historyNotComposite
  | historyOnParallel
  | unregisteredAction
  | unregisteredGuard
  | unregisteredEvent
  | missingTransitionTarget
  | transitionToRoot
  | timerTriggerWithoutTimer
  | tooManyStates
  | tooManyTransitions
  | depthExceeded
  | priorityOutOfRange
  | zeroTimerDuration
  | leafCapacityExceeded
  | timerCapacityExceeded
  | historyCapacityExceeded
  | oversizedInlinePayload
  | byReferenceDeferred
  | regionSlotConflict
  | duplicateStableId
  deriving DecidableEq, Repr

/-- Whether a finding stops compilation. -/
inductive Severity
  | error
  | warning
  deriving DecidableEq, Repr

namespace Severity

/-- How the severity is written. -/
def name : Severity → String
  | error => "error"
  | warning => "warning"

end Severity

namespace DiagnosticKind

/-- Every kind, in order of declaration. -/
def all : List DiagnosticKind :=
  [missingRoot, orphanState, parentCycle, multipleInitialStates, historyNotComposite,
    historyOnParallel, unregisteredAction, unregisteredGuard, unregisteredEvent,
    missingTransitionTarget, transitionToRoot, timerTriggerWithoutTimer, tooManyStates,
    tooManyTransitions, depthExceeded, priorityOutOfRange, zeroTimerDuration,
    leafCapacityExceeded, timerCapacityExceeded, historyCapacityExceeded,
    oversizedInlinePayload, byReferenceDeferred, regionSlotConflict, duplicateStableId]

/-- The kind's name. -/
def name : DiagnosticKind → String
  | missingRoot => "MissingRoot"
  | orphanState => "OrphanState"
  | parentCycle => "ParentCycle"
  | multipleInitialStates => "MultipleInitialStates"
  | historyNotComposite => "HistoryNotComposite"
  | historyOnParallel => "HistoryOnParallel"
  | unregisteredAction => "UnregisteredAction"
  | unregisteredGuard => "UnregisteredGuard"
  | unregisteredEvent => "UnregisteredEvent"
  | missingTransitionTarget => "MissingTransitionTarget"
  | transitionToRoot => "TransitionToRoot"
  | timerTriggerWithoutTimer => "TimerTriggerWithoutTimer"
  | tooManyStates => "TooManyStates"
  | tooManyTransitions => "TooManyTransitions"
  | depthExceeded => "DepthExceeded"
  | priorityOutOfRange => "PriorityOutOfRange"
  | zeroTimerDuration => "ZeroTimerDuration"
  | leafCapacityExceeded => "LeafCapacityExceeded"
  | timerCapacityExceeded => "TimerCapacityExceeded"
  | historyCapacityExceeded => "HistoryCapacityExceeded"
  | oversizedInlinePayload => "OversizedInlinePayload"
  | byReferenceDeferred => "ByReferenceDeferred"
  | regionSlotConflict => "RegionSlotConflict"
  | duplicateStableId => "DuplicateStableId"

/-- The kind with a name. -/
def ofName? (wanted : String) : Option DiagnosticKind :=
  all.find? fun kind => kind.name == wanted

/-- Two kinds only warn; all others are errors. -/
def severity : DiagnosticKind → Severity
  | byReferenceDeferred => .warning
  | timerTriggerWithoutTimer => .warning
  | _ => .error

/-- The message of a finding without detail. -/
def plainMessage : DiagnosticKind → String
  | missingRoot => "machine has no top-level state"
  | orphanState => "state is not reachable from the root"
  | parentCycle => "parent chain forms a cycle"
  | multipleInitialStates => "more than one initial child"
  | historyNotComposite => "history state has no children to remember"
  | historyOnParallel => "parallel states cannot keep history"
  | unregisteredAction => "action is not registered"
  | unregisteredGuard => "guard is not registered"
  | unregisteredEvent => "event is not declared"
  | missingTransitionTarget => "transition has no target"
  | transitionToRoot => "transition targets the root"
  | timerTriggerWithoutTimer => "timer transition on a state without a timer"
  | tooManyStates => "too many states"
  | tooManyTransitions => "too many transitions"
  | depthExceeded => "hierarchy too deep"
  | priorityOutOfRange => "priority out of range"
  | zeroTimerDuration => "timer duration must be positive"
  | leafCapacityExceeded => "too many simultaneously active leaves"
  | timerCapacityExceeded => "too many timer slots"
  | historyCapacityExceeded => "too many history slots"
  | oversizedInlinePayload => "payload does not fit inline"
  | byReferenceDeferred => "by-reference payload is lost when deferred"
  | regionSlotConflict => "slot claimed by co-active states"
  | duplicateStableId => "stable id used more than once"

/-- The message of a finding with a detail. -/
def detailedMessage (kind : DiagnosticKind) (detail : String) : String :=
  match kind with
  | unregisteredAction => s!"action `{detail}` is not registered"
  | unregisteredGuard => s!"guard `{detail}` is not registered"
  | unregisteredEvent => s!"event `{detail}` is not declared"
  | oversizedInlinePayload =>
      s!"payload of event `{detail}` does not fit inline; mark it by-reference"
  | _ => s!"{kind.plainMessage}: {detail}"

/-- The message of a finding. -/
def message (kind : DiagnosticKind) : Option String → String
  | none => kind.plainMessage
  | some detail => kind.detailedMessage detail

end DiagnosticKind

/-- One finding. -/
structure Diagnostic where
  kind : DiagnosticKind
  message : String
  /-- The state that the finding is about. -/
  state : Option String
  deriving DecidableEq, Repr

namespace Diagnostic

/-- A finding of a kind. -/
def report (kind : DiagnosticKind) (detail state : Option String) : Diagnostic where
  kind := kind
  message := kind.message detail
  state := state

/-- The finding's severity is that of its kind. -/
def severity (diagnostic : Diagnostic) : Severity :=
  diagnostic.kind.severity

/-- Whether the finding stops compilation. -/
def isError (diagnostic : Diagnostic) : Bool :=
  diagnostic.severity == .error

/-- The finding on one line. -/
def display (diagnostic : Diagnostic) : String :=
  let location :=
    match diagnostic.state with
    | some state => s!" (in `{state}`)"
    | none => ""
  diagnostic.severity.name ++ ": " ++ diagnostic.message ++ location

/-- Where the finding is, as far as machine and state are known. -/
def location? (diagnostic : Diagnostic) (machine : Option String) : Option String :=
  match machine, diagnostic.state with
  | some machine, some state => some (machine ++ "::" ++ state)
  | some machine, none => some machine
  | none, state => state

/-- The finding and, on a second line, its location. -/
def render (diagnostic : Diagnostic) (machine : Option String) (palette : Palette) :
    String :=
  let color :=
    match diagnostic.severity with
    | .error => palette.red
    | .warning => palette.yellow
  let finding := palette.paint color diagnostic.severity.name ++ ": " ++ diagnostic.message
  let location :=
    (diagnostic.location? machine).map fun place =>
      "  " ++ palette.paint palette.blue "-->" ++ " " ++ place
  Text.lines (finding :: location.toList)

end Diagnostic

/-- Findings in the order in which they were made. -/
abbrev Diagnostics := List Diagnostic

namespace Diagnostics

/-- Whether compilation has to stop. -/
def hasErrors (diagnostics : Diagnostics) : Bool :=
  diagnostics.any Diagnostic.isError

/-- The findings that stop compilation. -/
def errors (diagnostics : Diagnostics) : Diagnostics :=
  diagnostics.filter Diagnostic.isError

/-- The findings that do not stop compilation. -/
def warnings (diagnostics : Diagnostics) : Diagnostics :=
  diagnostics.filter fun diagnostic => !diagnostic.isError

/-- The findings one below the other. -/
def render (diagnostics : Diagnostics) (machine : Option String) (palette : Palette) :
    String :=
  "\n".intercalate (diagnostics.map fun diagnostic => diagnostic.render machine palette)

end Diagnostics

end Statechart.Chart
