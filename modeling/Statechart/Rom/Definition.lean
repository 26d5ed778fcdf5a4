/-
# Definitions

A definition is a compiled machine: a blob that was found to be whole, together
with its tables and shape. `load` checks size, magic bytes, version, the size that
the counts imply, and the checksum, in this order, and refuses a machine without
states.

Tables are addressed through accessors that raise a fault for an index the
definition does not have. Walks along parent links are bounded by the number of
states; a walk that is longer goes in a circle.
-/

import Statechart.Rom.Shape
import Statechart.Text.Numeral

namespace Statechart.Rom

/-- Why a byte string is not a definition. -/
inductive LoadError
  | invalidMagic
  | unsupportedVersion (version : UInt16)
  | fileTooSmall (size : Nat)
  | sizeMismatch (expected actual : Nat)
  | checksumMismatch (expected actual : UInt32)
  | missingRoot
  deriving DecidableEq, Repr

namespace LoadError

/-- The error as it is shown to the user. -/
def message : LoadError → String
  | invalidMagic => "invalid magic: expected FHSM"
  | unsupportedVersion version =>
      s!"unsupported version: {version} (expected {formatVersion})"
  | fileTooSmall size => s!"file too small: {size} bytes (minimum {Header.size})"
  | sizeMismatch expected actual =>
      s!"size mismatch: header implies {expected} bytes, got {actual}"
  | checksumMismatch expected actual =>
      let said := Text.Numeral.word32 expected
      let found := Text.Numeral.word32 actual
      s!"checksum mismatch: header says {said}, body is {found}"
  | missingRoot => "definition has no root state"

end LoadError

/-- A compiled machine. -/
structure Definition where
  /-- The blob it was loaded from. -/
  bytes : Bytes
  header : Header
  sections : Sections
  shape : Shape

namespace Definition

/-- Take a byte string for a definition, or say why it is none. -/
def load (bytes : Bytes) : Except Fault (Except LoadError Definition) := do
  let size := bytes.length
  if size < Header.size then
    return .error (.fileTooSmall size)
  let header := Header.read bytes
  if !header.hasMagic then
    return .error .invalidMagic
  if !header.hasVersion then
    return .error (.unsupportedVersion header.version)
  if header.offsets.stop ≠ size then
    return .error (.sizeMismatch header.offsets.stop size)
  let checksum := Checksum.crc32 (bytes.drop Header.size)
  if checksum ≠ header.checksum then
    return .error (.checksumMismatch header.checksum checksum)
  if header.stateCount = 0 then
    return .error .missingRoot
  let sections := Sections.read header bytes
  let shape ← Shape.ofSections sections
  return .ok { bytes, header, sections, shape }

/-- Digest of the topology, and the machine id of this definition's instances. -/
def structureHash (definition : Definition) : UInt32 :=
  definition.header.structureHash

/-- Digest of everything that is not topology. -/
def parameterHash (definition : Definition) : UInt32 :=
  definition.header.parameterHash

/-- The tier that the definition's instances need at least. -/
def tier (definition : Definition) : Tier :=
  definition.shape.tier

/-- How many states there are, the root included. -/
def stateCount (definition : Definition) : Nat :=
  definition.sections.states.size

/-- The entry of a table at an index that the definition is promised to have. -/
def entry {Entry : Type} (table : Table) (entries : Array Entry) (index : Nat) :
    Except Fault Entry :=
  match entries[index]? with
  | some found => .ok found
  | none => .error (.indexOutOfRange table index entries.size)

/-- The state at an index. -/
def state (definition : Definition) (index : UInt16) : Except Fault StateRecord :=
  entry .states definition.sections.states index.toNat

/-- The local transition at an index. -/
def transition (definition : Definition) (index : Nat) : Except Fault TransitionRecord :=
  entry .transitions definition.sections.transitions index

/-- The region at an index. -/
def region (definition : Definition) (index : Nat) : Except Fault RegionRecord :=
  entry .regions definition.sections.regions index

/-- The global transition at an index. -/
def globalTransition (definition : Definition) (index : Nat) :
    Except Fault TransitionRecord :=
  entry .globals definition.sections.globals index

/-- The event declaration at an index. -/
def event (definition : Definition) (index : Nat) : Except Fault EventRecord :=
  entry .events definition.sections.events index

/-- The action id at an index. -/
def actionId (definition : Definition) (index : Nat) : Except Fault UInt16 :=
  entry .actions definition.sections.actions index

/-- The guard id at an index. -/
def guardId (definition : Definition) (index : Nat) : Except Fault UInt16 :=
  entry .guards definition.sections.guards index

/-- The declaration of an event, if it has one. -/
def declaration? (definition : Definition) (id : UInt16) : Option EventRecord :=
  definition.sections.events.find? (fun declared => declared.id == id)

/-- The parent's index, `noIndex` at the root. -/
def parent (definition : Definition) (index : UInt16) : Except Fault UInt16 := do
  let state ← definition.state index
  return state.parent

/-- Whether `ancestor` is met on the way from `state` up, in at most `steps` links. -/
def climbsTo (definition : Definition) (ancestor : UInt16) :
    Nat → UInt16 → Except Fault Bool
  | steps, state =>
      if state = noIndex then .ok false
      else if state = ancestor then .ok true
      else
        match steps with
        | 0 => .error .endless
        | steps + 1 => do
            let parent ← definition.parent state
            climbsTo definition ancestor steps parent

/-- Whether `ancestor` is `state` or lies on its parent chain. -/
def isAncestorOrSelf (definition : Definition) (ancestor state : UInt16) :
    Except Fault Bool :=
  definition.climbsTo ancestor (definition.stateCount + 1) state

/-- Prepend `state` and its parents, `count` states in all, to `chain`. Every state
on the way is asked for its parent, the topmost one too. -/
def prependChain (definition : Definition) :
    Nat → UInt16 → List UInt16 → Except Fault (List UInt16)
  | 0, _, chain => .ok chain
  | count + 1, state, chain => do
      let parent ← definition.parent state
      prependChain definition count parent (state :: chain)

/-- The states from the root down to `state`, as many as its depth says, for a
caller with room for `capacity` of them. -/
def ancestorChain (definition : Definition) (state : UInt16) (capacity : Nat) :
    Except Fault (List UInt16) := do
  let record ← definition.state state
  let depth := record.depth.toNat
  if capacity ≤ depth then
    throw (.ancestorBufferTooSmall depth)
  definition.prependChain (depth + 1) state []

end Definition

end Statechart.Rom
