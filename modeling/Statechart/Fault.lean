/-
# Faults

A fault is a broken promise between two parts of the toolchain: a record read
from too few bytes, an index that a definition does not have, a graph flattened
before it was laid out. A fault is not an answer to the caller, who can do nothing
about it, and it ends the computation. Answers that a caller can act on, such as a
rejected blob or a duplicate name, have types of their own.

Faults that carry a wording of their own render it through `Fault.message`; the
others have none.
-/

namespace Statechart

/-- The tables of a definition that are addressed by index. -/
inductive Table
  | states
  | transitions
  | regions
  | globals
  | events
  | actions
  | guards
  deriving DecidableEq, Repr

namespace Table

/-- What one entry of the table is called. -/
def entry : Table → String
  | states => "state"
  | transitions => "transition"
  | regions => "region"
  | globals => "global transition"
  | events => "event"
  | actions => "action id"
  | guards => "guard id"

/-- What the entries of the table are called together. -/
def entries : Table → String
  | states => "states"
  | transitions => "transitions"
  | regions => "regions"
  | globals => "global transitions"
  | events => "events"
  | actions => "action ids"
  | guards => "guard ids"

end Table

/-- The slot arrays of an instance. -/
inductive SlotKind
  | leaf
  | timer
  | history
  deriving DecidableEq, Repr

namespace SlotKind

/-- The slot array's name in messages. -/
def name : SlotKind → String
  | leaf => "leaf"
  | timer => "timer"
  | history => "history"

end SlotKind

/-- The fixed-width records that are decoded from bytes. -/
inductive RecordKind
  | header
  | state
  | transition
  | region
  | event
  deriving DecidableEq, Repr

/-- The ways in which one part of the toolchain can break its promise to another. -/
inductive Fault
  /-- A record was decoded from fewer bytes than it occupies. -/
  | recordTooShort (kind : RecordKind)
  /-- An event was written into fewer bytes than it occupies. -/
  | eventSlotTooShort
  /-- The caller's buffer does not hold a chain of `depth + 1` states. -/
  | ancestorBufferTooSmall (depth : Nat)
  /-- A table of `count` entries was addressed at `index`. -/
  | indexOutOfRange (table : Table) (index count : Nat)
  /-- An instance has no slot of this number. -/
  | slotOutOfRange (kind : SlotKind) (index : Nat)
  /-- A table has more entries than its 16-bit count can say. -/
  | tooManyEntries (table : Table) (count : Nat)
  /-- A state's layout was asked for before the graph was laid out. -/
  | notLaidOut (state : String)
  /-- A buffer was addressed outside its bounds. -/
  | outOfBounds
  /-- A walk along links that lead back to themselves has no end. -/
  | endless
  /-- More memory was asked for than can be addressed. -/
  | unaddressable
  deriving DecidableEq, Repr

namespace RecordKind

/-- The record's name in messages. -/
def name : RecordKind → String
  | header => "header"
  | state => "state record"
  | transition => "transition record"
  | region => "region record"
  | event => "event record"

end RecordKind

namespace Fault

/-- The fault's own wording. Overrunning a plain buffer, walking in a circle and
asking for too much memory have none. -/
def message : Fault → Option String
  | recordTooShort kind => some s!"{kind.name} too short"
  | eventSlotTooShort => some "event slot too short"
  | ancestorBufferTooSmall depth => some s!"ancestor buffer too small for depth {depth}"
  | indexOutOfRange table index count =>
      some s!"{table.entry} index {index} out of range (count {count})"
  | slotOutOfRange kind index => some s!"{kind.name} slot {index} out of range"
  | tooManyEntries table count => some s!"too many {table.entries}: {count}"
  | notLaidOut state => some s!"state `{state}` used before normalization"
  | outOfBounds => none
  | endless => none
  | unaddressable => none

end Fault

end Statechart
