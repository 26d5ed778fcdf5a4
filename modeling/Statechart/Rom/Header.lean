/-
# Definition header

A definition blob opens with 32 bytes: four magic bytes, the format version, the
number of guard ids, the two content hashes, six further counts in the order of
the sections, and the checksum of everything behind the header. The counts fix
where each section begins (`Header.offsets`), and with it the size of the blob.

The main statement is that a header read back from its bytes is that header.
-/

import Statechart.Rom.Record

namespace Statechart.Rom

/-- What every blob starts with. -/
def magic : Bytes := "FHSM".toUTF8.toList

/-- The format version that is written and read. -/
def formatVersion : UInt16 := 1

/-- The first 32 bytes of a blob. -/
structure Header where
  magic : Block 4
  version : UInt16
  guardCount : UInt16
  /-- Digest of the topology. Instances carry it as their machine id. -/
  structureHash : UInt32
  /-- Digest of actions, guards, events, transitions and timers. -/
  parameterHash : UInt32
  stateCount : UInt16
  transitionCount : UInt16
  regionCount : UInt16
  globalTransitionCount : UInt16
  eventCount : UInt16
  actionCount : UInt16
  checksum : UInt32
  deriving DecidableEq, Repr

/-- Where the sections of a blob begin. -/
structure Offsets where
  states : Nat
  transitions : Nat
  regions : Nat
  globals : Nat
  events : Nat
  actions : Nat
  guards : Nat
  /-- One past the last byte: the size that the blob must have. -/
  stop : Nat
  deriving DecidableEq, Repr

namespace Header

/-- Bytes of a stored header. -/
def size : Nat := 32

/-- The header stored in the first bytes of `bytes`. -/
def read (bytes : Bytes) : Header where
  magic := Block.slice bytes 0 4
  version := bytes.word16At 4
  guardCount := bytes.word16At 6
  structureHash := bytes.word32At 8
  parameterHash := bytes.word32At 12
  stateCount := bytes.word16At 16
  transitionCount := bytes.word16At 18
  regionCount := bytes.word16At 20
  globalTransitionCount := bytes.word16At 22
  eventCount := bytes.word16At 24
  actionCount := bytes.word16At 26
  checksum := bytes.word32At 28

/-- Read a header, refusing fewer bytes than one occupies. -/
def decode (bytes : Bytes) : Except Fault Header :=
  if bytes.length < size then .error (.recordTooShort .header) else .ok (read bytes)

/-- The stored form of a header. -/
def toBytes (header : Header) : Bytes :=
  header.magic.bytes ++ Bytes.ofWord16 header.version ++ Bytes.ofWord16 header.guardCount ++
    Bytes.ofWord32 header.structureHash ++ Bytes.ofWord32 header.parameterHash ++
    Bytes.ofWord16 header.stateCount ++ Bytes.ofWord16 header.transitionCount ++
    Bytes.ofWord16 header.regionCount ++ Bytes.ofWord16 header.globalTransitionCount ++
    Bytes.ofWord16 header.eventCount ++ Bytes.ofWord16 header.actionCount ++
    Bytes.ofWord32 header.checksum

/-- Whether the blob claims to be a definition. -/
def hasMagic (header : Header) : Bool :=
  header.magic.bytes == Rom.magic

/-- Whether the blob is of the version that is read here. -/
def hasVersion (header : Header) : Bool :=
  header.version == formatVersion

/-- The section offsets that the counts imply. Sections are packed back to back. -/
def offsets (header : Header) : Offsets :=
  let transitions := size + header.stateCount.toNat * StateRecord.size
  let regions := transitions + header.transitionCount.toNat * TransitionRecord.size
  let globals := regions + header.regionCount.toNat * RegionRecord.size
  let events := globals + header.globalTransitionCount.toNat * TransitionRecord.size
  let actions := events + header.eventCount.toNat * EventRecord.size
  let guards := actions + header.actionCount.toNat * 2
  { states := size
    transitions := transitions
    regions := regions
    globals := globals
    events := events
    actions := actions
    guards := guards
    stop := guards + header.guardCount.toNat * 2 }

@[simp]
theorem length_toBytes (header : Header) : header.toBytes.length = 32 := by
  simp [toBytes, header.magic.length_bytes]

/-- A header read back from its bytes, whatever follows them, is that header. -/
@[simp]
theorem read_toBytes_append (header : Header) (rest : Bytes) :
    read (header.toBytes ++ rest) = header := by
  obtain ⟨⟨magicBytes, fits⟩, version, guardCount, structureHash, parameterHash, stateCount,
    transitionCount, regionCount, globalTransitionCount, eventCount, actionCount,
    checksum⟩ := header
  match magicBytes, fits with
  | [m0, m1, m2, m3], _ =>
    simp [read, toBytes, Bytes.word16At, Bytes.word32At, Bytes.byteAt, Bytes.ofWord16,
      Bytes.ofWord32, Block.slice, Block.ofBytes, Bytes.slice, Bytes.resize]

end Header

end Statechart.Rom
