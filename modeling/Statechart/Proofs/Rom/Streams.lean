/-
# What the hashed streams tell

The two content hashes are taken of byte streams that hold some of the tables: topology of
the states in one, their wiring, transitions and events in the other. Entries have a fixed
width and tables are counted, so the streams can be taken apart again: equal structure
streams mean equal topology (`structureStream_eq_iff`), and together with equal parameter
streams they mean that the tables agree in everything that is hashed
(`Encodable.hashed_eq`).

Regions and the ids of actions and guards are hashed nowhere, and neither is a state's place
among the regions.
-/

import Statechart.Chart.Digest
import Statechart.Proofs.Rom.Encoding
import Statechart.Proofs.Rom.WellFormed

namespace Statechart.Rom

namespace StateRecord

/-- What the structure hash sees of a state, everything else blank. -/
def topology (state : StateRecord) : StateRecord :=
  { blank with
    parent := state.parent
    firstChild := state.firstChild
    childCount := state.childCount
    depth := state.depth
    flags := state.flags.topology }

/-- What the parameter hash sees of a state, everything else blank. -/
def wiring (state : StateRecord) : StateRecord :=
  { blank with
    entryAction := state.entryAction
    exitAction := state.exitAction
    activityAction := state.activityAction
    timerAction := state.timerAction
    timerMs := state.timerMs
    timerSlot := state.timerSlot
    historySlot := state.historySlot
    initialChild := state.initialChild
    transitionStart := state.transitionStart
    transitionCount := state.transitionCount
    flags := state.flags.wiring
    outputLanes := state.outputLanes }

/-- What one of the hashes sees of a state, everything else blank. -/
def hashed (state : StateRecord) : StateRecord :=
  { state with
    regionCount := 0
    regionStart := noIndex
    flags := { state.flags with unassigned := (false, false) } }

/-- Topology and wiring are all that is hashed. -/
theorem hashed_eq {first second : StateRecord} (topology : first.topology = second.topology)
    (wiring : first.wiring = second.wiring) : first.hashed = second.hashed := by
  obtain ⟨⟩ := first
  obtain ⟨⟩ := second
  simp_all [StateRecord.topology, StateRecord.wiring, hashed, StateFlags.topology,
    StateFlags.wiring]

/-- The topology of a state, read from what the structure hash sees of it. -/
def readTopology (bytes : Bytes) : StateRecord :=
  { blank with
    parent := bytes.word16At 0
    firstChild := bytes.word16At 2
    childCount := bytes.word16At 4
    depth := bytes.byteAt 6
    flags := .ofByte (bytes.byteAt 7) }

theorem readTopology_structureBytes (state : StateRecord) :
    readTopology (Sections.structureBytes state) = state.topology := by
  simp [readTopology, Sections.structureBytes, topology, Bytes.word16At, Bytes.byteAt,
    Bytes.ofWord16]

theorem topology_eq_of_structureBytes {state other : StateRecord}
    (same : Sections.structureBytes state = Sections.structureBytes other) :
    state.topology = other.topology := by
  rw [← readTopology_structureBytes, same, readTopology_structureBytes]

/-- The wiring of a state, read from what the parameter hash sees of it. -/
def readWiring (bytes : Bytes) : StateRecord :=
  { blank with
    entryAction := bytes.word16At 0
    exitAction := bytes.word16At 2
    activityAction := bytes.word16At 4
    timerAction := bytes.word16At 6
    timerMs := bytes.word16At 8
    timerSlot := bytes.word16At 10
    historySlot := bytes.word16At 12
    initialChild := bytes.word16At 14
    transitionStart := bytes.word16At 16
    transitionCount := bytes.word16At 18
    flags := .ofByte (bytes.byteAt 20)
    outputLanes := bytes.byteAt 21 }

theorem readWiring_parameterBytes (state : StateRecord) :
    readWiring (Sections.parameterBytes state) = state.wiring := by
  simp [readWiring, Sections.parameterBytes, wiring, Bytes.word16At, Bytes.byteAt, Bytes.ofWord16]

theorem wiring_eq_of_parameterBytes {state other : StateRecord}
    (same : Sections.parameterBytes state = Sections.parameterBytes other) :
    state.wiring = other.wiring := by
  rw [← readWiring_parameterBytes, same, readWiring_parameterBytes]

end StateRecord

namespace Sections

variable {first second : Sections}

/-- The topology of a machine, state by state. -/
def topology (sections : Sections) : List StateRecord :=
  sections.states.toList.map StateRecord.topology

/-- The tables that are hashed, with what is hashed of the states. -/
def hashed (sections : Sections) : Sections :=
  { empty with
    states := sections.states.map StateRecord.hashed
    transitions := sections.transitions
    globals := sections.globals
    events := sections.events }

/-! ### Taking streams apart -/

/-- Tables of the same length in front of other bytes agree in all that their entries' bytes
tell, and so do the other bytes. -/
theorem map_eq_of_flatMap_append {Entry View : Type} {width : Nat} {toBytes : Entry → Bytes}
    (view : Entry → View) (wide : ∀ entry, (toBytes entry).length = width)
    {table others : List Entry} (length : table.length = others.length)
    (told : ∀ entry ∈ table, ∀ other ∈ others,
      toBytes entry = toBytes other → view entry = view other)
    {rest later : Bytes} (same : table.flatMap toBytes ++ rest = others.flatMap toBytes ++ later) :
    table.map view = others.map view ∧ rest = later := by
  induction table generalizing others with
  | nil =>
    obtain rfl := List.eq_nil_of_length_eq_zero length.symm
    exact ⟨rfl, same⟩
  | cons entry table ih =>
    obtain ⟨other, others, rfl⟩ := List.exists_cons_of_length_eq_add_one length.symm
    rw [List.flatMap_cons, List.flatMap_cons, List.append_assoc, List.append_assoc] at same
    obtain ⟨here, behind⟩ := List.append_inj same (by rw [wide, wide])
    obtain ⟨views, rests⟩ := ih (Nat.succ.inj length)
      (fun entry listed other found => told entry (List.mem_cons_of_mem _ listed) other
        (List.mem_cons_of_mem _ found)) behind
    refine ⟨?_, rests⟩
    rw [List.map_cons, List.map_cons, views,
      told entry (List.mem_cons_self ..) other (List.mem_cons_self ..) here]

/-- A count in front of other bytes. -/
theorem streamCount_append_inj {count other : Nat} (small : count < 65536)
    (otherSmall : other < 65536) {rest later : Bytes}
    (same : streamCount count ++ rest = streamCount other ++ later) :
    count = other ∧ rest = later := by
  obtain ⟨counts, rests⟩ := List.append_inj same rfl
  refine ⟨?_, rests⟩
  have read (number : Nat) : (streamCount number).word32At 0 = UInt32.ofNat number :=
    Bytes.word32_digit _
  have words : UInt32.ofNat count = UInt32.ofNat other := by rw [← read, counts, read]
  have numbers := congrArg UInt32.toNat words
  rwa [UInt32.toNat_ofNat_of_lt' (Nat.lt_trans small (by decide)),
    UInt32.toNat_ofNat_of_lt' (Nat.lt_trans otherSmall (by decide))] at numbers

/-! ### Topology -/

/-- The structure stream is taken of the topology. -/
theorem structureStream_eq (sections : Sections) :
    sections.structureStream =
      streamCount sections.topology.length ++ sections.topology.flatMap structureBytes := by
  rw [structureStream, topology, List.length_map, Array.length_toList, List.flatMap_map]
  rfl

/-- Two machines have the same structure stream exactly when they have the same topology. -/
theorem structureStream_eq_iff (small : first.states.size < 65536)
    (otherSmall : second.states.size < 65536) :
    first.structureStream = second.structureStream ↔ first.topology = second.topology := by
  constructor
  · intro same
    obtain ⟨sizes, entries⟩ := streamCount_append_inj small otherSmall same
    rw [← List.append_nil (first.states.toList.flatMap _),
      ← List.append_nil (second.states.toList.flatMap _)] at entries
    have wide (state : StateRecord) : (structureBytes state).length = 8 := rfl
    exact (map_eq_of_flatMap_append StateRecord.topology wide (by simpa using sizes)
      (fun _ _ _ _ => StateRecord.topology_eq_of_structureBytes) entries).1
  · intro same
    rw [structureStream_eq, structureStream_eq, same]

theorem size_eq_of_topology (same : first.topology = second.topology) :
    first.states.size = second.states.size := by
  have lengths := congrArg List.length same
  rwa [topology, topology, List.length_map, List.length_map, Array.length_toList,
    Array.length_toList] at lengths

/-- Machines of the same topology have the same states, and each has the same topology. -/
theorem record_topology_eq (same : first.topology = second.topology) (state : UInt16) :
    (first.record state).topology = (second.record state).topology := by
  have entries := congrArg (fun states => states[state.toNat]?) same
  simp only [topology, List.getElem?_map, Array.getElem?_toList] at entries
  rw [record, record, Array.getD_eq_getD_getElem?, Array.getD_eq_getD_getElem?]
  cases here : first.states[state.toNat]? <;> cases there : second.states[state.toNat]? <;>
    simp_all

/-! ### All that is hashed -/

/-- A transition is what the parameter hash sees of it, as long as its priority fits. -/
theorem Encodable.transition_eq (encodable : first.Encodable) (other : second.Encodable)
    {transition another : TransitionRecord}
    (listed : transition ∈ first.transitions ∨ transition ∈ first.globals)
    (found : another ∈ second.transitions ∨ another ∈ second.globals)
    (same : transition.toBytes = another.toBytes) : transition = another := by
  have fits := listed.elim (encodable.priority_transitions _) (encodable.priority_globals _)
  have fitsToo := found.elim (other.priority_transitions _) (other.priority_globals _)
  rw [← TransitionRecord.read_toBytes fits, same, TransitionRecord.read_toBytes fitsToo]

/-- Tables of the same topology and with the same parameter stream agree in all that is
hashed. -/
theorem Encodable.hashed_eq (encodable : first.Encodable) (other : second.Encodable)
    (topology : first.topology = second.topology)
    (parameters : first.parameterStream = second.parameterStream) :
    first.hashed = second.hashed := by
  have sizes : first.states.toList.length = second.states.toList.length := by
    simpa using size_eq_of_topology topology
  simp only [parameterStream, List.append_assoc] at parameters
  have wide (state : StateRecord) : (parameterBytes state).length = 22 := rfl
  obtain ⟨wirings, parameters⟩ := map_eq_of_flatMap_append StateRecord.wiring wide sizes
    (fun _ _ _ _ => StateRecord.wiring_eq_of_parameterBytes) parameters
  obtain ⟨counts, parameters⟩ :=
    streamCount_append_inj encodable.transitions other.transitions parameters
  obtain ⟨transitions, parameters⟩ :=
    map_eq_of_flatMap_append id TransitionRecord.length_toBytes (by simpa using counts)
      (fun _ listed _ found => encodable.transition_eq other
        (.inl (Array.mem_toList_iff.1 listed)) (.inl (Array.mem_toList_iff.1 found)))
      parameters
  obtain ⟨counts, parameters⟩ := streamCount_append_inj encodable.globals other.globals parameters
  obtain ⟨globals, parameters⟩ :=
    map_eq_of_flatMap_append id TransitionRecord.length_toBytes (by simpa using counts)
      (fun _ listed _ found => encodable.transition_eq other
        (.inr (Array.mem_toList_iff.1 listed)) (.inr (Array.mem_toList_iff.1 found)))
      parameters
  obtain ⟨counts, parameters⟩ := streamCount_append_inj encodable.events other.events parameters
  rw [← List.append_nil (first.events.toList.flatMap _),
    ← List.append_nil (second.events.toList.flatMap _)] at parameters
  obtain ⟨events, -⟩ := map_eq_of_flatMap_append id EventRecord.length_toBytes
    (by simpa using counts) (fun event _ another _ same => by
      rw [id, ← EventRecord.read_toBytes event, same, EventRecord.read_toBytes, id]) parameters
  have states : first.states.map StateRecord.hashed = second.states.map StateRecord.hashed := by
    apply Array.ext_getElem?
    intro place
    have topologies := congrArg (fun states => states[place]?) topology
    have wired := congrArg (fun states => states[place]?) wirings
    simp only [Sections.topology, List.getElem?_map, Array.getElem?_toList] at topologies wired
    rw [Array.getElem?_map, Array.getElem?_map]
    cases here : first.states[place]? <;> cases there : second.states[place]? <;> simp_all
    exact StateRecord.hashed_eq topologies wired
  rw [List.map_id, List.map_id] at transitions globals events
  rw [hashed, hashed, states, Array.toList_inj.1 transitions, Array.toList_inj.1 globals,
    Array.toList_inj.1 events]

end Sections

end Statechart.Rom
