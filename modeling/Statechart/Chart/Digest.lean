/-
# Content hashes

A machine has two content hashes. The structure hash covers its topology: parents,
children, depths, and whether states are composite, parallel or keep history. It
names the machine that an instance belongs to. The parameter hash covers the rest:
actions, guards, events, transitions, timers, lanes and slots. Names are part of
neither.

Each hash is the beginning of the SHA-256 digest of a byte stream, which is defined
here on its own.
-/

import Statechart.Digest.Sha256
import Statechart.Rom.Sections

namespace Statechart.Rom.Sections

/-- A table's length in a hashed stream. -/
def streamCount (count : Nat) : Bytes :=
  Bytes.ofWord32 (UInt32.ofNat count)

/-- What the structure hash sees of a state. -/
def structureBytes (state : StateRecord) : Bytes :=
  Bytes.ofWord16 state.parent ++ Bytes.ofWord16 state.firstChild ++
    Bytes.ofWord16 state.childCount ++ [state.depth, state.flags.topology.toByte]

/-- What the structure hash is taken of. -/
def structureStream (sections : Sections) : Bytes :=
  streamCount sections.states.size ++ sections.states.toList.flatMap structureBytes

/-- What the parameter hash sees of a state. -/
def parameterBytes (state : StateRecord) : Bytes :=
  [state.entryAction, state.exitAction, state.activityAction, state.timerAction,
    state.timerMs, state.timerSlot, state.historySlot, state.initialChild,
    state.transitionStart, state.transitionCount].flatMap Bytes.ofWord16 ++
    [state.flags.wiring.toByte, state.outputLanes]

/-- What the parameter hash is taken of. -/
def parameterStream (sections : Sections) : Bytes :=
  sections.states.toList.flatMap parameterBytes ++
    streamCount sections.transitions.size ++
    sections.transitions.toList.flatMap TransitionRecord.toBytes ++
    streamCount sections.globals.size ++
    sections.globals.toList.flatMap TransitionRecord.toBytes ++
    streamCount sections.events.size ++
    sections.events.toList.flatMap EventRecord.toBytes

/-- The digest of a machine's topology. -/
def structureHash (sections : Sections) : UInt32 :=
  Digest.prefix32 sections.structureStream

/-- The digest of everything else. -/
def parameterHash (sections : Sections) : UInt32 :=
  Digest.prefix32 sections.parameterStream

/-- The blob of a machine, content hashes included. -/
def emit (sections : Sections) : Except Fault Bytes :=
  sections.encode sections.structureHash sections.parameterHash

end Statechart.Rom.Sections
