/-
# Sections

The tables of one machine, and how they are packed into a blob: header, states,
transitions, regions, global transitions, events, action ids, guard ids. `encode`
writes a blob; `read` takes the tables out of one whose header is known.

A table with more entries than its 16-bit count can say is a fault.
-/

import Statechart.Checksum.Crc32
import Statechart.Rom.Header

namespace Statechart.Rom

/-- The tables of one machine, in blob order. -/
structure Sections where
  states : Array StateRecord
  transitions : Array TransitionRecord
  regions : Array RegionRecord
  /-- Transitions that are tried before those of any state. -/
  globals : Array TransitionRecord
  events : Array EventRecord
  /-- The ids of the actions that are used. -/
  actions : Array UInt16
  /-- The ids of the guards that are used. -/
  guards : Array UInt16
  deriving DecidableEq

namespace Sections

/-- Tables without entries. -/
def empty : Sections where
  states := #[]
  transitions := #[]
  regions := #[]
  globals := #[]
  events := #[]
  actions := #[]
  guards := #[]

instance : Inhabited Sections := ⟨empty⟩

/-- A table's length as the word that is stored for it. -/
def count16 (table : Table) (count : Nat) : Except Fault UInt16 :=
  if count < 65536 then .ok (UInt16.ofNat count) else .error (.tooManyEntries table count)

/-- The header of these sections, its checksum still zero. -/
def header (sections : Sections) (structureHash parameterHash : UInt32) :
    Except Fault Header := do
  let guardCount ← count16 .guards sections.guards.size
  let stateCount ← count16 .states sections.states.size
  let transitionCount ← count16 .transitions sections.transitions.size
  let regionCount ← count16 .regions sections.regions.size
  let globalTransitionCount ← count16 .globals sections.globals.size
  let eventCount ← count16 .events sections.events.size
  let actionCount ← count16 .actions sections.actions.size
  return {
    magic := Block.ofBytes 4 magic
    version := formatVersion
    guardCount := guardCount
    structureHash := structureHash
    parameterHash := parameterHash
    stateCount := stateCount
    transitionCount := transitionCount
    regionCount := regionCount
    globalTransitionCount := globalTransitionCount
    eventCount := eventCount
    actionCount := actionCount
    checksum := 0 }

/-- Everything behind the header. -/
def body (sections : Sections) : Bytes :=
  sections.states.toList.flatMap StateRecord.toBytes ++
    sections.transitions.toList.flatMap TransitionRecord.toBytes ++
    sections.regions.toList.flatMap RegionRecord.toBytes ++
    sections.globals.toList.flatMap TransitionRecord.toBytes ++
    sections.events.toList.flatMap EventRecord.toBytes ++
    sections.actions.toList.flatMap Bytes.ofWord16 ++
    sections.guards.toList.flatMap Bytes.ofWord16

/-- The blob: header, with the checksum of the body in it, and body. -/
def encode (sections : Sections) (structureHash parameterHash : UInt32) :
    Except Fault Bytes := do
  let header ← sections.header structureHash parameterHash
  let body := sections.body
  return { header with checksum := Checksum.crc32 body }.toBytes ++ body

/-- The next `count` entries of `size` bytes each, appended to `table`. -/
def readTable {Entry : Type} (size : Nat) (read : Bytes → Entry) :
    Nat → Bytes → Array Entry → Array Entry
  | 0, _, table => table
  | count + 1, bytes, table =>
      readTable size read count (bytes.drop size) (table.push (read bytes))

/-- The tables of a blob with this header. -/
def read (header : Header) (bytes : Bytes) : Sections :=
  let offsets := header.offsets
  let id (bytes : Bytes) : UInt16 := bytes.word16At 0
  { states :=
      readTable StateRecord.size StateRecord.read header.stateCount.toNat
        (bytes.drop offsets.states) #[]
    transitions :=
      readTable TransitionRecord.size TransitionRecord.read header.transitionCount.toNat
        (bytes.drop offsets.transitions) #[]
    regions :=
      readTable RegionRecord.size RegionRecord.read header.regionCount.toNat
        (bytes.drop offsets.regions) #[]
    globals :=
      readTable TransitionRecord.size TransitionRecord.read header.globalTransitionCount.toNat
        (bytes.drop offsets.globals) #[]
    events :=
      readTable EventRecord.size EventRecord.read header.eventCount.toNat
        (bytes.drop offsets.events) #[]
    actions := readTable 2 id header.actionCount.toNat (bytes.drop offsets.actions) #[]
    guards := readTable 2 id header.guardCount.toNat (bytes.drop offsets.guards) #[] }

/-- A table gets as many new entries as were asked for. -/
theorem size_readTable {Entry : Type} (size : Nat) (read : Bytes → Entry) (count : Nat)
    (bytes : Bytes) (table : Array Entry) :
    (readTable size read count bytes table).size = table.size + count := by
  induction count generalizing bytes table with
  | zero => rfl
  | succ count ih =>
    rw [readTable, ih, Array.size_push]
    omega

end Sections

end Statechart.Rom
