/-
# Blobs of encodable tables

Tables are encodable when every length fits its 16-bit count and every priority its
four bits. A blob written from encodable tables is read back as these tables, and
loading it can only fail where the shape of the machine is worked out (`Encodable.load_eq`).

Each table is read where the ones before it end: a record depends on its own bytes only,
so a table can be read with anything behind it (`readTable_flatMap`), and the offsets of
the header are where the tables were written (`Encodable.placed`).
-/

import Mathlib.Data.List.Basic
import Statechart.Rom.Definition

namespace Statechart

theorem Bytes.byteAt_append {bytes : Bytes} (rest : Bytes) {offset : Nat}
    (inside : offset < bytes.length) : (bytes ++ rest).byteAt offset = bytes.byteAt offset := by
  simp only [byteAt, List.getD_eq_getElem?_getD, List.getElem?_append_left inside]

theorem Bytes.word16At_append {bytes : Bytes} (rest : Bytes) {offset : Nat}
    (inside : offset + 1 < bytes.length) :
    (bytes ++ rest).word16At offset = bytes.word16At offset := by
  rw [word16At, word16At, byteAt_append rest (Nat.lt_of_succ_lt inside),
    byteAt_append rest inside]

namespace Rom

/-! ### Records in front of other bytes -/

theorem StateRecord.read_append {bytes : Bytes} (whole : bytes.length = size) (rest : Bytes) :
    read (bytes ++ rest) = read bytes := by
  have word {offset : Nat} (inside : offset + 1 < 32) :
      (bytes ++ rest).word16At offset = bytes.word16At offset :=
    Bytes.word16At_append rest (whole ▸ inside)
  have byte {offset : Nat} (inside : offset < 32) :
      (bytes ++ rest).byteAt offset = bytes.byteAt offset :=
    Bytes.byteAt_append rest (whole ▸ inside)
  simp (disch := decide) only [read, word, byte]

theorem TransitionRecord.read_append {bytes : Bytes} (whole : bytes.length = size)
    (rest : Bytes) : read (bytes ++ rest) = read bytes := by
  have word {offset : Nat} (inside : offset + 1 < 16) :
      (bytes ++ rest).word16At offset = bytes.word16At offset :=
    Bytes.word16At_append rest (whole ▸ inside)
  simp (disch := decide) only [read, word]

theorem RegionRecord.read_append {bytes : Bytes} (whole : bytes.length = size) (rest : Bytes) :
    read (bytes ++ rest) = read bytes := by
  have word {offset : Nat} (inside : offset + 1 < 8) :
      (bytes ++ rest).word16At offset = bytes.word16At offset :=
    Bytes.word16At_append rest (whole ▸ inside)
  simp (disch := decide) only [read, word]

theorem EventRecord.read_append {bytes : Bytes} (whole : bytes.length = size) (rest : Bytes) :
    read (bytes ++ rest) = read bytes := by
  have word {offset : Nat} (inside : offset + 1 < 4) :
      (bytes ++ rest).word16At offset = bytes.word16At offset :=
    Bytes.word16At_append rest (whole ▸ inside)
  have byte {offset : Nat} (inside : offset < 4) :
      (bytes ++ rest).byteAt offset = bytes.byteAt offset :=
    Bytes.byteAt_append rest (whole ▸ inside)
  simp (disch := decide) only [read, word, byte]

namespace Sections

/-! ### Tables in front of other bytes -/

/-- The entries of a table occupy `size` bytes each and are read back, whatever follows
them. -/
structure Stored {Entry : Type} (size : Nat) (read : Bytes → Entry) (toBytes : Entry → Bytes)
    (table : List Entry) : Prop where
  width : ∀ entry ∈ table, (toBytes entry).length = size
  exact : ∀ entry ∈ table, ∀ rest, read (toBytes entry ++ rest) = entry

section Stored

variable {Entry : Type} {size : Nat} {read : Bytes → Entry} {toBytes : Entry → Bytes}

theorem Stored.of_subset {some table : List Entry} (stored : Stored size read toBytes table)
    (subset : some ⊆ table) : Stored size read toBytes some where
  width entry listed := stored.width entry (subset listed)
  exact entry listed := stored.exact entry (subset listed)

theorem Stored.length_flatMap {table : List Entry} (stored : Stored size read toBytes table) :
    (table.flatMap toBytes).length = table.length * size := by
  induction table with
  | nil => simp
  | cons entry table ih =>
    rw [List.flatMap_cons, List.length_append, stored.width entry (List.mem_cons_self ..),
      ih (stored.of_subset (List.subset_cons_self ..)), List.length_cons, Nat.succ_mul,
      Nat.add_comm]

/-- A table that was written is read back, whatever follows it. -/
theorem Stored.readTable_eq {table : List Entry} (stored : Stored size read toBytes table)
    (rest : Bytes) (earlier : Array Entry) :
    readTable size read table.length (table.flatMap toBytes ++ rest) earlier =
      earlier ++ table.toArray := by
  induction table generalizing earlier with
  | nil => simp [readTable]
  | cons entry table ih =>
    have first := List.mem_cons_self (a := entry) (l := table)
    have others := stored.of_subset (List.subset_cons_self entry table)
    rw [List.length_cons, readTable, List.flatMap_cons, List.append_assoc,
      stored.exact entry first, List.drop_left' (stored.width entry first), ih others]
    simp

end Stored

theorem stored_states (states : Array StateRecord) :
    Stored StateRecord.size StateRecord.read StateRecord.toBytes states.toList where
  width state _ := state.length_toBytes
  exact state _ rest := by
    rw [StateRecord.read_append state.length_toBytes, state.read_toBytes]

theorem stored_transitions {transitions : Array TransitionRecord}
    (bounded : ∀ transition ∈ transitions, transition.priority.toNat ≤ maxPriority) :
    Stored TransitionRecord.size TransitionRecord.read TransitionRecord.toBytes
      transitions.toList where
  width transition _ := transition.length_toBytes
  exact transition listed rest := by
    rw [TransitionRecord.read_append transition.length_toBytes,
      TransitionRecord.read_toBytes (bounded transition (Array.mem_toList_iff.1 listed))]

theorem stored_regions (regions : Array RegionRecord) :
    Stored RegionRecord.size RegionRecord.read RegionRecord.toBytes regions.toList where
  width region _ := region.length_toBytes
  exact region _ rest := by
    rw [RegionRecord.read_append region.length_toBytes, region.read_toBytes]

theorem stored_events (events : Array EventRecord) :
    Stored EventRecord.size EventRecord.read EventRecord.toBytes events.toList where
  width event _ := event.length_toBytes
  exact event _ rest := by
    rw [EventRecord.read_append event.length_toBytes, event.read_toBytes]

theorem stored_ids (ids : Array UInt16) :
    Stored 2 (fun bytes => bytes.word16At 0) Bytes.ofWord16 ids.toList where
  width id _ := Bytes.length_ofWord16 id
  exact id _ rest := by simp [Bytes.word16At, Bytes.byteAt, Bytes.ofWord16]

/-! ### Tables behind a header -/

/-- Every table fits its count, and every priority its bits. -/
structure Encodable (sections : Sections) : Prop where
  states : sections.states.size < 65536
  transitions : sections.transitions.size < 65536
  regions : sections.regions.size < 65536
  globals : sections.globals.size < 65536
  events : sections.events.size < 65536
  actions : sections.actions.size < 65536
  guards : sections.guards.size < 65536
  priority_transitions : ∀ transition ∈ sections.transitions,
    transition.priority.toNat ≤ maxPriority
  priority_globals : ∀ transition ∈ sections.globals, transition.priority.toNat ≤ maxPriority

/-- The counts of a header are the lengths of these tables. -/
structure CountedBy (sections : Sections) (header : Header) : Prop where
  states : header.stateCount.toNat = sections.states.toList.length
  transitions : header.transitionCount.toNat = sections.transitions.toList.length
  regions : header.regionCount.toNat = sections.regions.toList.length
  globals : header.globalTransitionCount.toNat = sections.globals.toList.length
  events : header.eventCount.toNat = sections.events.toList.length
  actions : header.actionCount.toNat = sections.actions.toList.length
  guards : header.guardCount.toNat = sections.guards.toList.length

variable {sections : Sections}

theorem count16_eq_ok {table : Table} {count : Nat} (fits : count < 65536) :
    count16 table count = .ok (UInt16.ofNat count) :=
  if_pos fits

/-- The header of these tables, if every length fits its count. -/
def headerOf (sections : Sections) (structureHash parameterHash : UInt32) : Header where
  magic := Block.ofBytes 4 magic
  version := formatVersion
  guardCount := UInt16.ofNat sections.guards.size
  structureHash := structureHash
  parameterHash := parameterHash
  stateCount := UInt16.ofNat sections.states.size
  transitionCount := UInt16.ofNat sections.transitions.size
  regionCount := UInt16.ofNat sections.regions.size
  globalTransitionCount := UInt16.ofNat sections.globals.size
  eventCount := UInt16.ofNat sections.events.size
  actionCount := UInt16.ofNat sections.actions.size
  checksum := Checksum.crc32 sections.body

theorem Encodable.encode_eq_ok (encodable : sections.Encodable)
    (structureHash parameterHash : UInt32) :
    sections.encode structureHash parameterHash =
      .ok ((sections.headerOf structureHash parameterHash).toBytes ++ sections.body) := by
  simp only [encode, header, count16_eq_ok encodable.states,
    count16_eq_ok encodable.transitions, count16_eq_ok encodable.regions,
    count16_eq_ok encodable.globals, count16_eq_ok encodable.events,
    count16_eq_ok encodable.actions, count16_eq_ok encodable.guards]
  rfl

theorem Encodable.countedBy (encodable : sections.Encodable)
    (structureHash parameterHash : UInt32) :
    sections.CountedBy (sections.headerOf structureHash parameterHash) where
  states := UInt16.toNat_ofNat_of_lt' encodable.states
  transitions := UInt16.toNat_ofNat_of_lt' encodable.transitions
  regions := UInt16.toNat_ofNat_of_lt' encodable.regions
  globals := UInt16.toNat_ofNat_of_lt' encodable.globals
  events := UInt16.toNat_ofNat_of_lt' encodable.events
  actions := UInt16.toNat_ofNat_of_lt' encodable.actions
  guards := UInt16.toNat_ofNat_of_lt' encodable.guards

/-- Behind a table the next one starts. -/
theorem Stored.drop_next {Entry : Type} {size count offset : Nat} {read : Bytes → Entry}
    {toBytes : Entry → Bytes} {table : Array Entry} {bytes rest : Bytes}
    (stored : Stored size read toBytes table.toList) (counted : count = table.toList.length)
    (here : bytes.drop offset = table.toList.flatMap toBytes ++ rest) :
    bytes.drop (offset + count * size) = rest := by
  have width : (table.toList.flatMap toBytes).length = count * size := by
    rw [stored.length_flatMap, counted]
  rw [← List.drop_drop, here, List.drop_left' width]

/-- A table is read from where it starts. -/
theorem Stored.readTable_drop {Entry : Type} {size count offset : Nat} {read : Bytes → Entry}
    {toBytes : Entry → Bytes} {table : Array Entry} {bytes rest : Bytes}
    (stored : Stored size read toBytes table.toList) (counted : count = table.toList.length)
    (here : bytes.drop offset = table.toList.flatMap toBytes ++ rest) :
    readTable size read count (bytes.drop offset) #[] = table := by
  rw [here, counted, stored.readTable_eq]
  simp

/-- Each table of a blob begins at its offset. -/
structure Placed (sections : Sections) (offsets : Offsets) (bytes : Bytes) : Prop where
  states : ∃ rest, bytes.drop offsets.states =
    sections.states.toList.flatMap StateRecord.toBytes ++ rest
  transitions : ∃ rest, bytes.drop offsets.transitions =
    sections.transitions.toList.flatMap TransitionRecord.toBytes ++ rest
  regions : ∃ rest, bytes.drop offsets.regions =
    sections.regions.toList.flatMap RegionRecord.toBytes ++ rest
  globals : ∃ rest, bytes.drop offsets.globals =
    sections.globals.toList.flatMap TransitionRecord.toBytes ++ rest
  events : ∃ rest, bytes.drop offsets.events =
    sections.events.toList.flatMap EventRecord.toBytes ++ rest
  actions : ∃ rest, bytes.drop offsets.actions =
    sections.actions.toList.flatMap Bytes.ofWord16 ++ rest
  guards : ∃ rest, bytes.drop offsets.guards =
    sections.guards.toList.flatMap Bytes.ofWord16 ++ rest

/-- The offsets that the counts imply are those the tables were written at. -/
theorem Encodable.placed (encodable : sections.Encodable) {header : Header}
    (counted : sections.CountedBy header) :
    sections.Placed header.offsets (header.toBytes ++ sections.body) := by
  have tables : sections.body =
      sections.states.toList.flatMap StateRecord.toBytes ++
        (sections.transitions.toList.flatMap TransitionRecord.toBytes ++
          (sections.regions.toList.flatMap RegionRecord.toBytes ++
            (sections.globals.toList.flatMap TransitionRecord.toBytes ++
              (sections.events.toList.flatMap EventRecord.toBytes ++
                (sections.actions.toList.flatMap Bytes.ofWord16 ++
                  (sections.guards.toList.flatMap Bytes.ofWord16 ++ [])))))) := by
    simp only [body, List.append_assoc, List.append_nil]
  have atStates : (header.toBytes ++ sections.body).drop Header.size = _ :=
    (List.drop_left' header.length_toBytes).trans tables
  have atTransitions := (stored_states _).drop_next counted.states atStates
  have atRegions := (stored_transitions encodable.priority_transitions).drop_next
    counted.transitions atTransitions
  have atGlobals := (stored_regions _).drop_next counted.regions atRegions
  have atEvents := (stored_transitions encodable.priority_globals).drop_next
    counted.globals atGlobals
  have atActions := (stored_events _).drop_next counted.events atEvents
  have atGuards := (stored_ids _).drop_next counted.actions atActions
  exact ⟨⟨_, atStates⟩, ⟨_, atTransitions⟩, ⟨_, atRegions⟩, ⟨_, atGlobals⟩, ⟨_, atEvents⟩,
    ⟨_, atActions⟩, ⟨_, atGuards⟩⟩

/-- The tables of a blob are those it was written from, and it ends where its header
says. -/
theorem Encodable.read_eq (encodable : sections.Encodable) {header : Header}
    (counted : sections.CountedBy header) :
    Sections.read header (header.toBytes ++ sections.body) = sections ∧
      header.offsets.stop = (header.toBytes ++ sections.body).length := by
  have states := stored_states sections.states
  have transitions := stored_transitions encodable.priority_transitions
  have regions := stored_regions sections.regions
  have globals := stored_transitions encodable.priority_globals
  have events := stored_events sections.events
  have actions := stored_ids sections.actions
  have guards := stored_ids sections.guards
  constructor
  · obtain ⟨⟨_, atStates⟩, ⟨_, atTransitions⟩, ⟨_, atRegions⟩, ⟨_, atGlobals⟩, ⟨_, atEvents⟩,
      ⟨_, atActions⟩, ⟨_, atGuards⟩⟩ := encodable.placed counted
    simp only [Sections.read, states.readTable_drop counted.states atStates,
      transitions.readTable_drop counted.transitions atTransitions,
      regions.readTable_drop counted.regions atRegions,
      globals.readTable_drop counted.globals atGlobals,
      events.readTable_drop counted.events atEvents,
      actions.readTable_drop counted.actions atActions,
      guards.readTable_drop counted.guards atGuards]
  · simp only [Header.offsets, body, List.length_append, Header.length_toBytes,
      states.length_flatMap, transitions.length_flatMap, regions.length_flatMap,
      globals.length_flatMap, events.length_flatMap, actions.length_flatMap,
      guards.length_flatMap, counted.states, counted.transitions, counted.regions,
      counted.globals, counted.events, counted.actions, counted.guards, Header.size]
    omega

/-- A blob written from encodable tables is a definition of these tables, if they have a
shape. -/
theorem Encodable.load_eq (encodable : sections.Encodable)
    (inhabited : 0 < sections.states.size) {shape : Shape}
    (shaped : Shape.ofSections sections = .ok shape) (structureHash parameterHash : UInt32) :
    let header := sections.headerOf structureHash parameterHash
    Definition.load (header.toBytes ++ sections.body) =
      .ok (.ok { bytes := header.toBytes ++ sections.body, header, sections, shape }) := by
  intro header
  have counted : sections.CountedBy header := encodable.countedBy structureHash parameterHash
  obtain ⟨tables, stop⟩ := encodable.read_eq counted
  have opened : Header.read (header.toBytes ++ sections.body) = header :=
    header.read_toBytes_append sections.body
  have long : ¬(header.toBytes ++ sections.body).length < Header.size := by
    rw [List.length_append, Header.length_toBytes]
    exact Nat.not_lt.2 (Nat.le_add_right _ _)
  have marked : header.hasMagic = true := by
    show (Block.ofBytes 4 magic).bytes == magic
    decide +kernel
  have checksum : Checksum.crc32 ((header.toBytes ++ sections.body).drop Header.size) =
      header.checksum := by
    have behind : (header.toBytes ++ sections.body).drop Header.size = sections.body :=
      List.drop_left' header.length_toBytes
    rw [behind]
    rfl
  have some : header.stateCount ≠ 0 := by
    intro none
    have count := counted.states
    rw [none, Array.length_toList] at count
    exact Nat.ne_of_lt inhabited count
  have version : header.hasVersion = true := rfl
  simp only [Definition.load, if_neg long, opened, marked, version, Bool.not_true,
    Bool.false_eq_true, if_false, if_neg (not_not_intro stop), checksum, ne_eq,
    not_true_eq_false, if_neg some, tables, shaped]
  rfl

end Sections

end Rom

end Statechart
