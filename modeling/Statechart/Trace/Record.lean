/-
# Trace records

What a kernel does during a tick is written down step by step: an event taken from
the queue, a state entered or left, a guard asked. An `Entry` is such a step. A
`Record` is its stored form, together with the tick and the position of the instance
in its batch. It occupies sixteen bytes: opcode, auxiliary byte, tick, instance and
four words whose meaning depends on the opcode.

Entries belong to one of three levels of detail. `Level` says which of them a reader
wants to see.

The main statement is that a record read back from its bytes is that record.
-/

import Statechart.Event.Basic

namespace Statechart.Trace

/-- How close a step is to the inner workings of a tick. -/
inductive Detail
  /-- Events, transitions, states entered and left, errors. -/
  | course
  /-- Actions and timers. -/
  | effects
  /-- Guards, activities and lane conflicts. -/
  | decisions
  deriving DecidableEq, Repr

/-- The details that a reader wants to see. -/
structure Level where
  course : Bool
  effects : Bool
  decisions : Bool
  deriving DecidableEq, Repr

namespace Level

/-- The course of events only, unless a reader asks for more. -/
def default : Level where
  course := true
  effects := false
  decisions := false

instance : Inhabited Level := ⟨default⟩

/-- The first `count` levels of detail; at least one, at most all three. -/
def upTo (count : Nat) : Level where
  course := true
  effects := decide (2 ≤ count)
  decisions := decide (3 ≤ count)

/-- One detail and no other. -/
def only (detail : Detail) : Level where
  course := detail = .course
  effects := detail = .effects
  decisions := detail = .decisions

/-- Whether a detail is wanted. -/
def includes (level : Level) : Detail → Bool
  | .course => level.course
  | .effects => level.effects
  | .decisions => level.decisions

/-- The level as three bits, the course of events lowest. -/
def toByte (level : Level) : UInt8 :=
  UInt8.ofNat (level.course.toNat + 2 * level.effects.toNat + 4 * level.decisions.toNat)

/-- The level that three bits stand for. -/
def ofByte (byte : UInt8) : Level where
  course := byte.toNat.testBit 0
  effects := byte.toNat.testBit 1
  decisions := byte.toNat.testBit 2

@[simp]
theorem ofByte_toByte (level : Level) : ofByte level.toByte = level := by
  obtain ⟨course, effects, decisions⟩ := level
  cases course <;> cases effects <;> cases decisions <;> rfl

end Level

/-- What an action was run for. -/
inductive Cause
  | entry
  | exit
  /-- The transition's own action. -/
  | effect
  /-- A state's timer ran out. -/
  | timer
  deriving DecidableEq, Repr

namespace Cause

/-- The stored form. -/
def toByte : Cause → UInt8
  | entry => 0
  | exit => 1
  | effect => 2
  | timer => 3

/-- The cause a byte stands for, if any. -/
def ofByte? (byte : UInt8) : Option Cause :=
  if byte = 0 then some entry
  else if byte = 1 then some exit
  else if byte = 2 then some effect
  else if byte = 3 then some timer
  else none

/-- The cause in listings. -/
def name : Cause → String
  | entry => "entry"
  | exit => "exit"
  | effect => "effect"
  | timer => "timer"

@[simp]
theorem ofByte?_toByte (cause : Cause) : ofByte? cause.toByte = some cause := by
  cases cause <;> rfl

end Cause

/-- The kinds of steps. -/
inductive Opcode
  | event
  | eventDropped
  | transition
  | enter
  | exit
  | rtcOverflow
  | leafOverflow
  | action
  | timerArmed
  | timerFired
  | guard
  | activity
  | conflict
  deriving DecidableEq, Repr

namespace Opcode

/-- The stored form. -/
def toByte : Opcode → UInt8
  | event => 1
  | eventDropped => 2
  | transition => 3
  | enter => 4
  | exit => 5
  | rtcOverflow => 6
  | leafOverflow => 7
  | action => 8
  | timerArmed => 9
  | timerFired => 10
  | guard => 11
  | activity => 12
  | conflict => 13

/-- All kinds, by their stored form. -/
def all : List Opcode :=
  [event, eventDropped, transition, enter, exit, rtcOverflow, leafOverflow, action,
    timerArmed, timerFired, guard, activity, conflict]

/-- The kind a byte stands for, if any. -/
def ofByte? (byte : UInt8) : Option Opcode :=
  all.find? (fun opcode => opcode.toByte == byte)

/-- The level of detail of a kind. -/
def detail : Opcode → Detail
  | event | eventDropped | transition | enter | exit | rtcOverflow | leafOverflow => .course
  | action | timerArmed | timerFired => .effects
  | guard | activity | conflict => .decisions

@[simp]
theorem ofByte?_toByte (opcode : Opcode) : ofByte? opcode.toByte = some opcode := by
  cases opcode <;> rfl

end Opcode

/-- One stored step. -/
structure Record where
  opcode : Opcode
  /-- A small extra: the cause of an action, the answer of a guard, the lanes of a
  conflict. -/
  aux : UInt8
  /-- The low half of the tick's number. -/
  tick : UInt16
  /-- The instance's position in its batch. -/
  position : UInt32
  first : UInt16
  second : UInt16
  third : UInt16
  fourth : UInt16
  deriving DecidableEq, Repr

namespace Record

/-- Bytes of a stored record. -/
def size : Nat := 16

/-- The stored form of a record. -/
def toBytes (record : Record) : Bytes :=
  [record.opcode.toByte, record.aux] ++ Bytes.ofWord16 record.tick ++
    Bytes.ofWord32 record.position ++ Bytes.ofWord16 record.first ++
    Bytes.ofWord16 record.second ++ Bytes.ofWord16 record.third ++
    Bytes.ofWord16 record.fourth

/-- The record stored in the first bytes of `bytes`, unless its opcode is unknown. -/
def ofBytes? (bytes : Bytes) : Option Record := do
  let opcode ← Opcode.ofByte? (bytes.byteAt 0)
  return {
    opcode
    aux := bytes.byteAt 1
    tick := bytes.word16At 2
    position := bytes.word32At 4
    first := bytes.word16At 8
    second := bytes.word16At 10
    third := bytes.word16At 12
    fourth := bytes.word16At 14 }

@[simp]
theorem length_toBytes (record : Record) : record.toBytes.length = 16 := by
  simp [toBytes]

/-- A record read back from its bytes is that record. -/
@[simp]
theorem ofBytes?_toBytes (record : Record) : ofBytes? record.toBytes = some record := by
  simp [ofBytes?, toBytes, Bytes.word16At, Bytes.word32At, Bytes.byteAt, Bytes.ofWord16,
    Bytes.ofWord32]

end Record

/-- One step of a tick. -/
inductive Entry
  /-- An event was taken from the queue to be processed. -/
  | event (id : UInt16) (priority : Priority)
  /-- An event made by the kernel found no room in the queue. -/
  | eventDropped (id : UInt16)
  /-- A transition was chosen. A global transition has no source. -/
  | transition (source target event : UInt16)
  | enter (state : UInt16)
  | exit (state : UInt16)
  /-- A run to completion reached its step limit; the configuration was dropped. -/
  | rtcOverflow (steps : UInt16)
  /-- A state became active for which there is no leaf slot. -/
  | leafOverflow (state : UInt16)
  | action (cause : Cause) (action state : UInt16)
  | timerArmed (slot state duration : UInt16)
  | timerFired (slot state : UInt16)
  | guard (guard event : UInt16) (passed : Bool)
  | activity (action state : UInt16)
  /-- The loser was refused output lanes that the winner occupies. -/
  | conflict (lanes : UInt8) (winner loser : UInt16)
  deriving DecidableEq, Repr

namespace Entry

/-- The kind of a step. -/
def opcode : Entry → Opcode
  | event .. => .event
  | eventDropped .. => .eventDropped
  | transition .. => .transition
  | enter .. => .enter
  | exit .. => .exit
  | rtcOverflow .. => .rtcOverflow
  | leafOverflow .. => .leafOverflow
  | action .. => .action
  | timerArmed .. => .timerArmed
  | timerFired .. => .timerFired
  | guard .. => .guard
  | activity .. => .activity
  | conflict .. => .conflict

/-- The small extra that is stored with a step. -/
def aux : Entry → UInt8
  | action cause .. => cause.toByte
  | guard _ _ passed => passed.toUInt8
  | conflict lanes .. => lanes
  | _ => 0

/-- The words that are stored with a step, as many as it has. -/
def words : Entry → List UInt16
  | event id priority => [id, priority.toByte.toUInt16]
  | eventDropped id => [id]
  | transition source target trigger => [source, target, trigger]
  | enter state => [state]
  | exit state => [state]
  | rtcOverflow steps => [steps]
  | leafOverflow state => [state]
  | action _ callback state => [callback, state]
  | timerArmed slot state duration => [slot, state, duration]
  | timerFired slot state => [slot, state]
  | guard callback trigger _ => [callback, trigger]
  | activity callback state => [callback, state]
  | conflict _ winner loser => [winner, loser]

/-- The record of a step of the instance at `position`, not yet stamped with a tick. -/
def record (entry : Entry) (position : UInt32) : Record where
  opcode := entry.opcode
  aux := entry.aux
  tick := 0
  position := position
  first := entry.words.getD 0 0
  second := entry.words.getD 1 0
  third := entry.words.getD 2 0
  fourth := 0

end Entry

end Statechart.Trace
