/-
# Dumps

A definition as text: a header, then one section per table, each under its title in
brackets and followed by an empty line. Regions and global transitions are left out
when there are none. A record takes one line, on which fields that hold their default
are not written.

State and transition indices are padded to the width of the largest one.
-/

import Statechart.Name.Hash
import Statechart.Rom.Definition
import Statechart.Text.Names
import Statechart.Text.Palette

namespace Statechart.Rom

open Statechart.Text

/-- How the ids of one definition are written. -/
structure Listing where
  metadata : Option Metadata
  palette : Palette
  /-- Digits of a state index. -/
  stateWidth : Nat
  /-- Digits of a transition index. -/
  transitionWidth : Nat

namespace Listing

/-- The listing of a definition. -/
def ofDefinition (definition : Definition) (metadata : Option Metadata)
    (palette : Palette) : Listing where
  metadata := metadata
  palette := palette
  stateWidth := Numeral.indexWidth definition.sections.states.size
  transitionWidth := Numeral.indexWidth definition.sections.transitions.size

variable (listing : Listing)

/-- A state: its index, and its name if there is one. -/
def state (index : UInt16) : String :=
  let label := "S" ++ Numeral.decimal listing.stateWidth index.toNat
  match listing.metadata.bind (fun names => names.stateName? index) with
  | some name => label ++ "(" ++ listing.palette.paint listing.palette.blue name ++ ")"
  | none => label

/-- A transition's index. -/
def transitionLabel (index : Nat) : String :=
  "T" ++ Numeral.decimal listing.transitionWidth index

/-- A section: its title, its lines and an empty line. -/
def titled (title : String) (contents : List String) : String :=
  Text.lines (listing.palette.paint listing.palette.blue ("[" ++ title ++ "]") ::
    contents ++ [""])

/-- A section that is left out when it has no lines. -/
def titledUnlessEmpty (title : String) (contents : List String) : String :=
  if contents.isEmpty then "" else listing.titled title contents

/-- What kind of state it is, if that is worth a word. -/
def kind? (record : StateRecord) : Option String :=
  if record.flags.parallel then some "parallel"
  else if record.flags.deepHistory then some "deep-history"
  else if record.flags.history then some "history"
  else if record.flags.composite then some "composite"
  else none

/-- An action field, unless there is no action. -/
def actionField (label : String) (action : UInt16) : String :=
  if action = Name.noId then ""
  else s!" {label}=" ++ actionName listing.metadata action

/-- The fields of a state behind its label. -/
def stateFields (record : StateRecord) : String :=
  let palette := listing.palette
  let parent :=
    if record.parent = noIndex then ""
    else " " ++ palette.paint palette.dim ("^" ++ listing.state record.parent)
  let kind :=
    match kind? record with
    | some word => " " ++ word
    | none => ""
  let initial :=
    if record.initialChild = noIndex then ""
    else " init=" ++ listing.state record.initialChild
  let history :=
    if record.historySlot = noIndex then "" else s!" h{record.historySlot}"
  let timer :=
    if record.hasTimer then
      s!" timer{record.timerSlot}={record.timerMs}ms" ++
        listing.actionField "on-timer" record.timerAction
    else ""
  let lanes :=
    if record.outputLanes = 0 then "" else " lanes=" ++ Numeral.bits8 record.outputLanes
  let regions :=
    if record.regionCount > 0 then s!" regions={record.regionStart}+{record.regionCount}"
    else ""
  let transitions :=
    if record.transitionCount > 0 then
      " " ++ listing.transitionLabel record.transitionStart.toNat ++
        s!"+{record.transitionCount}"
    else ""
  parent ++ s!" d{record.depth}" ++ kind ++ initial ++
    listing.actionField "entry" record.entryAction ++
    listing.actionField "exit" record.exitAction ++
    listing.actionField "do" record.activityAction ++
    history ++ timer ++ lanes ++ regions ++ transitions

/-- The fields of a transition behind its label and source. -/
def transitionFields (record : TransitionRecord) : String :=
  let guard :=
    if record.guard = Name.noId then "" else " if " ++ guardName listing.metadata record.guard
  let action :=
    if record.action = Name.noId then ""
    else " do " ++ actionName listing.metadata record.action
  let kind := if record.flags.isInternal then " internal" else ""
  let sync := if record.syncGroup = 0 then "" else s!" sync={record.syncGroup}"
  " -> " ++ listing.state record.target ++ " on " ++
    eventName listing.metadata record.event ++ guard ++ action ++
    s!" p{record.priority} cost={record.cost}" ++ kind ++ sync

/-- The lines of the header section. -/
def headerLines (definition : Definition) : List String :=
  let palette := listing.palette
  let hash (word : UInt32) := palette.paint palette.green (Numeral.word32 word)
  (listing.metadata.map (fun names => "machine   = " ++ names.name)).toList ++
    [s!"version   = {definition.header.version}",
      "structure = " ++ hash definition.structureHash,
      "parameter = " ++ hash definition.parameterHash,
      "tier      = " ++ definition.tier.name]

/-- The line of a state. -/
def stateLine (record : StateRecord) (index : Nat) : String :=
  listing.state (UInt16.ofNat index) ++ listing.stateFields record

/-- The line of a local transition. -/
def transitionLine (record : TransitionRecord) (index : Nat) : String :=
  listing.transitionLabel index ++ " " ++ listing.state record.source ++
    listing.transitionFields record

/-- The line of a region. -/
def regionLine (record : RegionRecord) (index : Nat) : String :=
  s!"R{index} " ++ listing.state record.owner ++ s!"[{record.index}] root=" ++
    listing.state record.root ++ s!" states={record.stateCount}"

/-- The line of a global transition. -/
def globalLine (record : TransitionRecord) (index : Nat) : String :=
  s!"G{index} *" ++ listing.transitionFields record

/-- The line of an event declaration. -/
def eventLine (record : EventRecord) : String :=
  let name :=
    match listing.metadata.bind (fun names => names.eventName? record.id) with
    | some name => " " ++ name
    | none => ""
  s!"E{record.id}" ++ name ++ " " ++ record.priority.name ++
    (if record.flags.deferred then " deferred" else "") ++
    (if record.flags.byReference then " by-ref" else "")

/-- The line of an action or guard id. -/
def idLine (letter : String) (name? : Metadata → UInt16 → Option String) (id : UInt16)
    (index : Nat) : String :=
  let name :=
    match listing.metadata.bind (fun names => name? names id) with
    | some name => " " ++ name
    | none => ""
  s!"{letter}{index} " ++ Numeral.anonymous id ++ name

/-- One line per entry of a table. -/
def tableLines {Entry : Type} (entries : Array Entry) (line : Entry → Nat → String) :
    List String :=
  (entries.mapIdx fun index entry => line entry index).toList

end Listing

/-- The text of a definition. Names come from the metadata where it has them. -/
def dump (definition : Definition) (metadata : Option Metadata) (palette : Palette) :
    String :=
  let listing := Listing.ofDefinition definition metadata palette
  let sections := definition.sections
  listing.titled "header" (listing.headerLines definition) ++
    listing.titled "states" (Listing.tableLines sections.states listing.stateLine) ++
    listing.titled "transitions"
      (Listing.tableLines sections.transitions listing.transitionLine) ++
    listing.titledUnlessEmpty "regions"
      (Listing.tableLines sections.regions listing.regionLine) ++
    listing.titledUnlessEmpty "globals"
      (Listing.tableLines sections.globals listing.globalLine) ++
    listing.titled "events" (sections.events.toList.map listing.eventLine) ++
    listing.titled "actions"
      (Listing.tableLines sections.actions (listing.idLine "A" Metadata.actionName?)) ++
    listing.titled "guards"
      (Listing.tableLines sections.guards (listing.idLine "P" Metadata.guardName?))

end Statechart.Rom
