/-
# Records of a definition

A definition stores its states, transitions, regions and events as records of fixed
width: 32, 16, 8 and 4 bytes. `read` decodes a record from its bytes, `toBytes`
encodes it, and `decode` is `read` behind a length check.

A state's flags share a word with its output lanes, and a transition's priority
occupies the low four bits of its flag word. Flag bits without a meaning are kept
as they are, so that reading and writing a record changes nothing.

The main statements say that reading a written record gives that record; for
transitions this needs a priority of at most fifteen.
-/

import Statechart.Event.Basic
import Statechart.Rom.Index

namespace Statechart.Rom

/-- What kind of state a record describes. -/
structure StateFlags where
  composite : Bool
  parallel : Bool
  history : Bool
  deepHistory : Bool
  /-- The state its parent enters by default. -/
  initial : Bool
  hasTimer : Bool
  /-- The two bits without a meaning. -/
  unassigned : Bool × Bool
  deriving DecidableEq, Repr

namespace StateFlags

/-- No flag. -/
def none : StateFlags where
  composite := false
  parallel := false
  history := false
  deepHistory := false
  initial := false
  hasTimer := false
  unassigned := (false, false)

instance : Inhabited StateFlags := ⟨none⟩

/-- The stored form, `composite` in the lowest bit. -/
def toByte (flags : StateFlags) : UInt8 :=
  UInt8.ofNat (flags.composite.toNat + 2 * flags.parallel.toNat + 4 * flags.history.toNat +
    8 * flags.deepHistory.toNat + 16 * flags.initial.toNat + 32 * flags.hasTimer.toNat +
    64 * flags.unassigned.1.toNat + 128 * flags.unassigned.2.toNat)

/-- The flags stored in a byte. -/
def ofByte (byte : UInt8) : StateFlags where
  composite := byte.toNat.testBit 0
  parallel := byte.toNat.testBit 1
  history := byte.toNat.testBit 2
  deepHistory := byte.toNat.testBit 3
  initial := byte.toNat.testBit 4
  hasTimer := byte.toNat.testBit 5
  unassigned := (byte.toNat.testBit 6, byte.toNat.testBit 7)

/-- The flags that belong to a machine's topology. -/
def topology (flags : StateFlags) : StateFlags :=
  { none with
    composite := flags.composite
    parallel := flags.parallel
    history := flags.history
    deepHistory := flags.deepHistory }

/-- The flags that belong to a machine's wiring. -/
def wiring (flags : StateFlags) : StateFlags :=
  { none with initial := flags.initial, hasTimer := flags.hasTimer }

@[simp]
theorem ofByte_toByte (flags : StateFlags) : ofByte flags.toByte = flags := by
  obtain ⟨composite, parallel, history, deepHistory, initial, hasTimer, upper, top⟩ := flags
  cases composite <;> cases parallel <;> cases history <;> cases deepHistory <;>
    cases initial <;> cases hasTimer <;> cases upper <;> cases top <;> rfl

end StateFlags

/-- One state. -/
structure StateRecord where
  parent : UInt16
  /-- The first child's index; children follow each other. -/
  firstChild : UInt16
  childCount : UInt16
  /-- The first of the state's own transitions; they follow each other. -/
  transitionStart : UInt16
  transitionCount : UInt16
  depth : UInt8
  regionCount : UInt8
  entryAction : UInt16
  exitAction : UInt16
  activityAction : UInt16
  flags : StateFlags
  /-- The output lanes that this state's side effects occupy while it is an active
  leaf. -/
  outputLanes : UInt8
  historySlot : UInt16
  timerSlot : UInt16
  regionStart : UInt16
  initialChild : UInt16
  timerAction : UInt16
  timerMs : UInt16

namespace StateRecord

/-- Bytes of a stored state. -/
def size : Nat := 32

/-- A state without parent, children, transitions, actions or slots. -/
def blank : StateRecord where
  parent := noIndex
  firstChild := noIndex
  childCount := 0
  transitionStart := noIndex
  transitionCount := 0
  depth := 0
  regionCount := 0
  entryAction := 0
  exitAction := 0
  activityAction := 0
  flags := .none
  outputLanes := 0
  historySlot := noIndex
  timerSlot := noIndex
  regionStart := noIndex
  initialChild := noIndex
  timerAction := 0
  timerMs := 0

instance : Inhabited StateRecord := ⟨blank⟩

/-- The state stored in the first bytes of `bytes`. -/
def read (bytes : Bytes) : StateRecord where
  parent := bytes.word16At 0
  firstChild := bytes.word16At 2
  childCount := bytes.word16At 4
  transitionStart := bytes.word16At 6
  transitionCount := bytes.word16At 8
  depth := bytes.byteAt 10
  regionCount := bytes.byteAt 11
  entryAction := bytes.word16At 12
  exitAction := bytes.word16At 14
  activityAction := bytes.word16At 16
  flags := StateFlags.ofByte (bytes.byteAt 18)
  outputLanes := bytes.byteAt 19
  historySlot := bytes.word16At 20
  timerSlot := bytes.word16At 22
  regionStart := bytes.word16At 24
  initialChild := bytes.word16At 26
  timerAction := bytes.word16At 28
  timerMs := bytes.word16At 30

/-- Read a state, refusing fewer bytes than one occupies. -/
def decode (bytes : Bytes) : Except Fault StateRecord :=
  if bytes.length < size then .error (.recordTooShort .state) else .ok (read bytes)

/-- The stored form of a state. -/
def toBytes (state : StateRecord) : Bytes :=
  Bytes.ofWord16 state.parent ++ Bytes.ofWord16 state.firstChild ++
    Bytes.ofWord16 state.childCount ++ Bytes.ofWord16 state.transitionStart ++
    Bytes.ofWord16 state.transitionCount ++ [state.depth, state.regionCount] ++
    Bytes.ofWord16 state.entryAction ++ Bytes.ofWord16 state.exitAction ++
    Bytes.ofWord16 state.activityAction ++ [state.flags.toByte, state.outputLanes] ++
    Bytes.ofWord16 state.historySlot ++ Bytes.ofWord16 state.timerSlot ++
    Bytes.ofWord16 state.regionStart ++ Bytes.ofWord16 state.initialChild ++
    Bytes.ofWord16 state.timerAction ++ Bytes.ofWord16 state.timerMs

/-- A state without children. -/
def isLeaf (state : StateRecord) : Bool :=
  state.childCount == 0

/-- A timer counts only when the state has a slot to keep it in. -/
def hasTimer (state : StateRecord) : Bool :=
  state.flags.hasTimer && state.timerSlot != noIndex

/-- The indices of the state's children. -/
def children (state : StateRecord) : IndexRange :=
  IndexRange.ofRun state.firstChild state.childCount

/-- The indices of the state's own transitions. -/
def transitions (state : StateRecord) : IndexRange :=
  IndexRange.ofRun state.transitionStart state.transitionCount

@[simp]
theorem length_toBytes (state : StateRecord) : state.toBytes.length = 32 := by
  simp [toBytes]

/-- Reading a written state gives that state. -/
@[simp]
theorem read_toBytes (state : StateRecord) : read state.toBytes = state := by
  simp [read, toBytes, Bytes.word16At, Bytes.byteAt, Bytes.ofWord16]

/-- Two states are the same if they are stored alike. -/
instance : DecidableEq StateRecord := fun first second =>
  decidable_of_iff (first.toBytes = second.toBytes)
    ⟨fun same => by rw [← read_toBytes first, same, read_toBytes], fun same => same ▸ rfl⟩

end StateRecord

/-- How a transition is taken. -/
structure TransitionFlags where
  /-- No state is exited or entered; only the transition's action runs. -/
  isInternal : Bool
  /-- The record belongs to the table of global transitions. -/
  isGlobal : Bool
  /-- The ten bits without a meaning. -/
  unassigned : Fin 1024
  deriving DecidableEq, Repr

namespace TransitionFlags

/-- No flag. -/
def none : TransitionFlags where
  isInternal := false
  isGlobal := false
  unassigned := 0

instance : Inhabited TransitionFlags := ⟨none⟩

/-- The flags as a word whose low four bits are left to the priority. -/
def toWord (flags : TransitionFlags) : UInt16 :=
  UInt16.ofNat (16 * flags.isInternal.toNat + 32 * flags.isGlobal.toNat +
    64 * flags.unassigned.val)

/-- The flags in a word; its low four bits are not theirs. -/
def ofWord (word : UInt16) : TransitionFlags where
  isInternal := word.toNat.testBit 4
  isGlobal := word.toNat.testBit 5
  unassigned := Fin.ofNat 1024 (word.toNat / 64)

end TransitionFlags

/-- One transition, local to a state or global. A global transition has no source. -/
structure TransitionRecord where
  source : UInt16
  target : UInt16
  event : UInt16
  syncGroup : UInt16
  guard : UInt16
  action : UInt16
  flags : TransitionFlags
  /-- From 0 to 15, higher ones first. -/
  priority : UInt8
  /-- States exited plus states entered. -/
  cost : UInt16
  deriving DecidableEq, Repr

namespace TransitionRecord

/-- Bytes of a stored transition. -/
def size : Nat := 16

/-- A transition from nowhere to nowhere. -/
def blank : TransitionRecord where
  source := noIndex
  target := noIndex
  event := 0
  syncGroup := 0
  guard := 0
  action := 0
  flags := .none
  priority := 0
  cost := 0

instance : Inhabited TransitionRecord := ⟨blank⟩

/-- The transition stored in the first bytes of `bytes`. -/
def read (bytes : Bytes) : TransitionRecord where
  source := bytes.word16At 0
  target := bytes.word16At 2
  event := bytes.word16At 4
  syncGroup := bytes.word16At 6
  guard := bytes.word16At 8
  action := bytes.word16At 10
  flags := TransitionFlags.ofWord (bytes.word16At 12)
  priority := UInt8.ofNat ((bytes.word16At 12).toNat % 16)
  cost := bytes.word16At 14

/-- Read a transition, refusing fewer bytes than one occupies. -/
def decode (bytes : Bytes) : Except Fault TransitionRecord :=
  if bytes.length < size then .error (.recordTooShort .transition) else .ok (read bytes)

/-- The flag word with the priority in its low four bits. -/
def packed (transition : TransitionRecord) : UInt16 :=
  UInt16.ofNat (transition.flags.toWord.toNat + transition.priority.toNat % 16)

/-- The stored form of a transition. -/
def toBytes (transition : TransitionRecord) : Bytes :=
  Bytes.ofWord16 transition.source ++ Bytes.ofWord16 transition.target ++
    Bytes.ofWord16 transition.event ++ Bytes.ofWord16 transition.syncGroup ++
    Bytes.ofWord16 transition.guard ++ Bytes.ofWord16 transition.action ++
    Bytes.ofWord16 transition.packed ++ Bytes.ofWord16 transition.cost

@[simp]
theorem length_toBytes (transition : TransitionRecord) : transition.toBytes.length = 16 := rfl

/-- The flag word as a number. -/
theorem toNat_packed (transition : TransitionRecord) :
    transition.packed.toNat =
      16 * transition.flags.isInternal.toNat + 32 * transition.flags.isGlobal.toNat +
        64 * transition.flags.unassigned.val + transition.priority.toNat % 16 := by
  have unassignedBound := transition.flags.unassigned.isLt
  have internalBound : transition.flags.isInternal.toNat ≤ 1 := Bool.toNat_le _
  have globalBound : transition.flags.isGlobal.toNat ≤ 1 := Bool.toNat_le _
  simp only [packed, TransitionFlags.toWord, UInt16.toNat_ofNat']
  omega

/-- The flags survive being packed together with the priority. -/
theorem ofWord_packed (transition : TransitionRecord) :
    TransitionFlags.ofWord transition.packed = transition.flags := by
  have value := transition.toNat_packed
  have internalBit : transition.packed.toNat.testBit 4 = transition.flags.isInternal := by
    rw [value, Nat.testBit_eq_decide_div_mod_eq]
    cases transition.flags.isInternal <;> cases transition.flags.isGlobal <;> simp <;> omega
  have globalBit : transition.packed.toNat.testBit 5 = transition.flags.isGlobal := by
    rw [value, Nat.testBit_eq_decide_div_mod_eq]
    cases transition.flags.isInternal <;> cases transition.flags.isGlobal <;> simp <;> omega
  have unassignedBits :
      Fin.ofNat 1024 (transition.packed.toNat / 64) = transition.flags.unassigned := by
    have bound := transition.flags.unassigned.isLt
    apply Fin.ext
    rw [Fin.val_ofNat, value]
    cases transition.flags.isInternal <;> cases transition.flags.isGlobal <;> simp <;> omega
  simp only [TransitionFlags.ofWord, internalBit, globalBit, unassignedBits]

/-- Reading a written transition gives that transition. -/
theorem read_toBytes {transition : TransitionRecord}
    (bounded : transition.priority.toNat ≤ maxPriority) :
    read transition.toBytes = transition := by
  have priorityKept : UInt8.ofNat (transition.packed.toNat % 16) = transition.priority := by
    apply UInt8.toNat_inj.1
    simp only [maxPriority] at bounded
    rw [toNat_packed, UInt8.toNat_ofNat']
    omega
  have flagsKept := transition.ofWord_packed
  simp [read, toBytes, Bytes.word16At, Bytes.byteAt, Bytes.ofWord16, priorityKept, flagsKept]

end TransitionRecord

/-- One region of a parallel state. -/
structure RegionRecord where
  /-- The parallel state. -/
  owner : UInt16
  /-- The region's top state, a child of the owner. -/
  root : UInt16
  /-- The region's place among the owner's regions. -/
  index : UInt16
  /-- How many states the region has, its top state included. -/
  stateCount : UInt16
  deriving DecidableEq, Repr

namespace RegionRecord

/-- Bytes of a stored region. -/
def size : Nat := 8

/-- The region of zeros. -/
def blank : RegionRecord where
  owner := 0
  root := 0
  index := 0
  stateCount := 0

instance : Inhabited RegionRecord := ⟨blank⟩

/-- The region stored in the first bytes of `bytes`. -/
def read (bytes : Bytes) : RegionRecord where
  owner := bytes.word16At 0
  root := bytes.word16At 2
  index := bytes.word16At 4
  stateCount := bytes.word16At 6

/-- Read a region, refusing fewer bytes than one occupies. -/
def decode (bytes : Bytes) : Except Fault RegionRecord :=
  if bytes.length < size then .error (.recordTooShort .region) else .ok (read bytes)

/-- The stored form of a region. -/
def toBytes (region : RegionRecord) : Bytes :=
  Bytes.ofWord16 region.owner ++ Bytes.ofWord16 region.root ++
    Bytes.ofWord16 region.index ++ Bytes.ofWord16 region.stateCount

@[simp]
theorem length_toBytes (region : RegionRecord) : region.toBytes.length = 8 := rfl

/-- Reading a written region gives that region. -/
@[simp]
theorem read_toBytes (region : RegionRecord) : read region.toBytes = region := by
  simp [read, toBytes, Bytes.word16At, Bytes.byteAt, Bytes.ofWord16]

end RegionRecord

/-- What a declared event is posted with unless the caller says otherwise. -/
structure EventRecord where
  id : UInt16
  flags : EventFlags
  priority : Priority
  deriving DecidableEq, Repr

namespace EventRecord

/-- Bytes of a stored event declaration. -/
def size : Nat := 4

instance : Inhabited EventRecord := ⟨⟨0, .none, .normal⟩⟩

/-- The declaration stored in the first bytes of `bytes`. -/
def read (bytes : Bytes) : EventRecord where
  id := bytes.word16At 0
  flags := EventFlags.ofByte (bytes.byteAt 2)
  priority := Priority.ofByte (bytes.byteAt 3)

/-- Read a declaration, refusing fewer bytes than one occupies. -/
def decode (bytes : Bytes) : Except Fault EventRecord :=
  if bytes.length < size then .error (.recordTooShort .event) else .ok (read bytes)

/-- The stored form of a declaration. -/
def toBytes (event : EventRecord) : Bytes :=
  Bytes.ofWord16 event.id ++ [event.flags.toByte, event.priority.toByte]

@[simp]
theorem length_toBytes (event : EventRecord) : event.toBytes.length = 4 := rfl

/-- Reading a written declaration gives that declaration. -/
@[simp]
theorem read_toBytes (event : EventRecord) : read event.toBytes = event := by
  simp [read, toBytes, Bytes.word16At, Bytes.byteAt, Bytes.ofWord16]

end EventRecord

end Statechart.Rom
