/-
# Limits

A tick is bounded twice: by the number of events it takes from the queue, and by the
number of transitions that one event may set off. Both bounds are at least one.
-/

namespace Statechart.Kernel

/-- How much work a tick may do. -/
structure Limits where
  /-- Transitions per event. -/
  rtcSteps : UInt16
  /-- Events taken from the queue, deferred ones included. -/
  events : UInt8
  rtcSteps_pos : 0 < rtcSteps
  events_pos : 0 < events
  deriving DecidableEq

namespace Limits

/-- The limits of a host that does not set any. -/
def default : Limits where
  rtcSteps := 100
  events := 10
  rtcSteps_pos := by decide
  events_pos := by decide

instance : Inhabited Limits := ⟨default⟩

/-- The same limits with another number of transitions per event. Zero counts as
one. -/
def withRtcSteps (limits : Limits) (steps : UInt16) : Limits :=
  if zero : steps = 0 then
    { limits with rtcSteps := 1, rtcSteps_pos := by decide }
  else
    { limits with rtcSteps := steps, rtcSteps_pos := UInt16.pos_iff_ne_zero.2 zero }

/-- The same limits with another number of events per tick. Zero counts as one. -/
def withEvents (limits : Limits) (events : UInt8) : Limits :=
  if zero : events = 0 then
    { limits with events := 1, events_pos := by decide }
  else
    { limits with events := events, events_pos := UInt8.pos_iff_ne_zero.2 zero }

end Limits

end Statechart.Kernel
