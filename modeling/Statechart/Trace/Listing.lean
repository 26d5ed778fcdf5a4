/-
# Trace listings

A trace as text, one line per record: tick and instance, then what happened. States,
events, actions and guards are written by name where metadata gives one; a state
without a name is written `S7`, and no state at all as `*`.
-/

import Statechart.Rom.Index
import Statechart.Text.Names
import Statechart.Text.Palette
import Statechart.Trace.Record

namespace Statechart.Trace

open Statechart.Text

/-- How the ids of one machine are written. -/
structure Listing where
  metadata : Option Metadata
  palette : Palette

namespace Listing

variable (listing : Listing)

/-- A state. -/
def state (index : UInt16) : String :=
  if index = Rom.noIndex then "*"
  else
    match listing.metadata.bind (fun names => names.stateName? index) with
    | some name => listing.palette.paint listing.palette.blue name
    | none => s!"S{index}"

/-- An event. -/
def event (id : UInt16) : String :=
  eventName listing.metadata id

/-- The mark behind an event whose priority is not the normal one. -/
def priorityMark : Priority → String
  | .normal => ""
  | .low => " (low)"
  | .interrupt => " (interrupt)"

/-- Text in the colour of warnings. -/
def warning (text : String) : String :=
  listing.palette.paint listing.palette.yellow text

/-- Text in the colour of errors. -/
def failure (text : String) : String :=
  listing.palette.paint listing.palette.red text

/-- What a record says, without tick and instance. -/
def body (record : Record) : String :=
  let first := record.first
  let second := record.second
  match record.opcode with
  | .event =>
      "event " ++ listing.event first ++ priorityMark (Priority.ofByte second.toUInt8)
  | .eventDropped => listing.warning ("dropped " ++ listing.event first)
  | .transition =>
      "transition " ++ listing.state first ++ " -> " ++ listing.state second ++ " on " ++
        listing.event record.third
  | .enter => "enter " ++ listing.state first
  | .exit => "exit " ++ listing.state first
  | .rtcOverflow => listing.failure s!"error: run-to-completion exceeded {first} steps"
  | .leafOverflow => listing.failure ("error: no leaf slot for " ++ listing.state first)
  | .action =>
      let cause := ((Cause.ofByte? record.aux).map Cause.name).getD "?"
      "action " ++ actionName listing.metadata first ++ s!" ({cause} " ++
        listing.state second ++ ")"
  | .timerArmed =>
      s!"timer {first} armed {record.third}ms (" ++ listing.state second ++ ")"
  | .timerFired => s!"timer {first} fired (" ++ listing.state second ++ ")"
  | .guard =>
      let verdict := if record.aux = 0 then "fail" else "pass"
      "guard " ++ guardName listing.metadata first ++ s!" {verdict} on " ++
        listing.event second
  | .activity =>
      "activity " ++ actionName listing.metadata first ++ " (" ++ listing.state second ++ ")"
  | .conflict =>
      listing.warning ("conflict lanes " ++ Numeral.bits8 record.aux ++ ": " ++
        listing.state first ++ " over " ++ listing.state second)

/-- The line of a record. -/
def line (record : Record) : String :=
  listing.palette.dim ++ s!"t{record.tick} #{record.position}" ++ listing.palette.reset ++
    " " ++ listing.body record

/-- The lines of some records. -/
def render (records : List Record) : String :=
  Text.lines (records.map listing.line)

end Listing

end Statechart.Trace
