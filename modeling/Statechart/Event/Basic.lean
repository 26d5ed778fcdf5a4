/-
# Events

An event is what an instance's queue holds and what its transitions wait for: an
id, a priority, two flags, a timestamp and sixteen bytes of inline payload. It is
stored in 24 bytes: id, priority, flags, timestamp, payload.

Ids 0 and 1 belong to the kernel. Id 0 is the completion event, on which a state
moves on as soon as a run-to-completion step has ended. Id 1 announces that a
state's timer has run out, and its payload names the timer slot and the state.

The main statement is that an event read back from its bytes is that event.
-/

import Statechart.Bytes.Block
import Statechart.Fault

namespace Statechart

/-- How urgently an event wants to be taken from the queue. Interrupts have a place
of their own. -/
inductive Priority
  | low
  | normal
  | interrupt
  deriving DecidableEq, Repr

namespace Priority

/-- The stored form. -/
def toByte : Priority → UInt8
  | low => 0
  | normal => 1
  | interrupt => 2

/-- Bytes that no priority is stored as read as `normal`. -/
def ofByte (byte : UInt8) : Priority :=
  if byte = 0 then low else if byte = 2 then interrupt else normal

/-- The priority's name in dumps. -/
def name : Priority → String
  | low => "Low"
  | normal => "Normal"
  | interrupt => "Interrupt"

instance : Inhabited Priority := ⟨normal⟩

@[simp]
theorem ofByte_toByte (priority : Priority) : ofByte priority.toByte = priority := by
  cases priority <;> rfl

end Priority

/-- The two marks an event can carry. -/
structure EventFlags where
  /-- To be put back once instead of being processed. -/
  deferred : Bool
  /-- The payload holds a handle rather than data. -/
  byReference : Bool
  deriving DecidableEq, Repr

namespace EventFlags

/-- No mark. -/
def none : EventFlags where
  deferred := false
  byReference := false

instance : Inhabited EventFlags := ⟨none⟩

/-- The stored form. -/
def toByte (flags : EventFlags) : UInt8 :=
  UInt8.ofNat (flags.deferred.toNat + 2 * flags.byReference.toNat)

/-- Bits above the two known ones are dropped. -/
def ofByte (byte : UInt8) : EventFlags where
  deferred := byte.toNat.testBit 0
  byReference := byte.toNat.testBit 1

@[simp]
theorem ofByte_toByte (flags : EventFlags) : ofByte flags.toByte = flags := by
  obtain ⟨deferred, byReference⟩ := flags
  cases deferred <;> cases byReference <;> rfl

end EventFlags

/-- One event. -/
structure Event where
  id : UInt16
  priority : Priority
  flags : EventFlags
  timestamp : UInt32
  payload : Block 16
  deriving DecidableEq, Repr

namespace Event

/-- The id of the completion event. -/
def completionId : UInt16 := 0

/-- The id of the timer event. -/
def timerId : UInt16 := 1

/-- The first id an authored event can have. -/
def firstUserId : Nat := 2

/-- Bytes of inline payload. -/
def payloadSize : Nat := 16

/-- Bytes of a stored event. -/
def size : Nat := 24

/-- An event of normal priority without flags, time or payload. -/
def ofId (id : UInt16) : Event where
  id := id
  priority := .normal
  flags := .none
  timestamp := 0
  payload := Block.zeros 16

instance : Inhabited Event := ⟨ofId 0⟩

/-- The event that moves on as soon as nothing else is to be done. -/
def completion : Event :=
  ofId completionId

/-- The same event with `data` as its payload, zeros behind it. Data that does not
fit inline is refused; it has to travel by reference. -/
def withPayload? (event : Event) (data : Bytes) : Option Event :=
  if data.length ≤ payloadSize then some { event with payload := Block.ofBytes 16 data }
  else none

/-- The same event with a handle in place of its payload, marked accordingly. -/
def withReference (event : Event) (handle : UInt32) : Event :=
  { event with
    payload := Block.ofBytes 16 (Bytes.ofWord32 handle)
    flags := { event.flags with byReference := true } }

/-- The handle of an event that travels by reference. -/
def reference? (event : Event) : Option UInt32 :=
  if event.flags.byReference then some (event.payload.bytes.word32At 0) else none

/-- The announcement that timer `slot`, which belongs to `state`, has run out. -/
def timer (slot state : UInt16) : Event :=
  { ofId timerId with
    payload := Block.ofBytes 16 (Bytes.ofWord16 slot ++ Bytes.ofWord16 state) }

/-- The timer slot and the state that a timer event names. -/
def timerSource? (event : Event) : Option (UInt16 × UInt16) :=
  if event.id = timerId then
    some (event.payload.bytes.word16At 0, event.payload.bytes.word16At 2)
  else none

/-- The stored form of an event. -/
def toBytes (event : Event) : Bytes :=
  Bytes.ofWord16 event.id ++ [event.priority.toByte, event.flags.toByte] ++
    Bytes.ofWord32 event.timestamp ++ event.payload.bytes

/-- The event stored in the first bytes of `bytes`. -/
def read (bytes : Bytes) : Event where
  id := bytes.word16At 0
  priority := Priority.ofByte (bytes.byteAt 2)
  flags := EventFlags.ofByte (bytes.byteAt 3)
  timestamp := bytes.word32At 4
  payload := Block.slice bytes 8 16

/-- Read an event, refusing fewer bytes than one occupies. -/
def decode (bytes : Bytes) : Except Fault Event :=
  if bytes.length < size then .error (.recordTooShort .event) else .ok (read bytes)

/-- Write an event over the start of a buffer, refusing one that is too small. -/
def writeTo (event : Event) (buffer : Bytes) : Except Fault Bytes :=
  if buffer.length < size then .error .eventSlotTooShort
  else .ok (buffer.overwrite 0 event.toBytes)

@[simp]
theorem length_toBytes (event : Event) : event.toBytes.length = 24 := by
  simp [toBytes, event.payload.length_bytes]

/-- An event read back from its bytes is that event. -/
@[simp]
theorem read_toBytes (event : Event) : read event.toBytes = event := by
  obtain ⟨id, priority, flags, timestamp, ⟨payload, fits⟩⟩ := event
  simp [read, toBytes, Bytes.word16At, Bytes.word32At, Bytes.byteAt, Bytes.ofWord16,
    Bytes.ofWord32, Block.slice, Block.ofBytes, Bytes.slice, Bytes.resize, ← fits]

/-- The timer event names what it was made from. -/
theorem timerSource?_timer (slot state : UInt16) :
    (timer slot state).timerSource? = some (slot, state) := by
  simp [timer, timerSource?, ofId, Block.ofBytes, Bytes.resize, Bytes.word16At, Bytes.byteAt,
    Bytes.ofWord16]

end Event

end Statechart
