/-
# Blobs and back

Tables that are encodable, with at least one state and with no child that two states claim,
survive the way into a blob and back (`encode_roundTrip`). The blob loads. Its header says
how long each table is, and its offsets say where each one stands, one behind the other from
the end of the header to the last byte. The accessors of the definition give back the entries
that were written, and whoever writes what they give gets the same blob once more.

That the blob loads rests on the shape of the machine. Leaves are counted from the last state
to the first and a parallel state adds its children up, so a child that many states claim
could be counted many times. As long as each child has one place only, the states that no
counted state claims have no more leaves between them than there are states (`Tally`), and no
count is larger than the table.
-/

import Mathlib.Algebra.BigOperators.Group.Finset.Basic
import Mathlib.Algebra.GroupWithZero.Nat
import Mathlib.Algebra.Order.BigOperators.Group.Finset
import Mathlib.Order.Interval.Finset.Nat
import Statechart.Proofs.Folds
import Statechart.Proofs.Returns
import Statechart.Proofs.Rom.Encoding
import Statechart.Proofs.Rom.Widths

namespace Statechart.Rom

namespace Sections

variable {sections : Sections}

/-! ### Counting leaves -/

/-- The children that the state at an index claims; none if there is no such state. -/
def family (sections : Sections) (index : Nat) : List Nat :=
  (sections.states.getD index .blank).children.toList

/-- Children are states of the table, and no two states claim the same one. -/
structure OwnChildren (sections : Sections) : Prop where
  inside : ∀ index < sections.states.size, ∀ child ∈ sections.family index,
    child < sections.states.size
  apart : ∀ first < sections.states.size, ∀ second < sections.states.size,
    ∀ child ∈ sections.family first, child ∈ sections.family second → first = second

theorem nodup_family (sections : Sections) (index : Nat) : (sections.family index).Nodup :=
  List.nodup_range'

/-- The states from `left` on that none of them claims. -/
def unclaimed (sections : Sections) (left : Nat) : Finset Nat :=
  {index ∈ Finset.Ico left sections.states.size |
    ∀ other ∈ Finset.Ico left sections.states.size, index ∉ sections.family other}

/-- A running maximum of numbers is at most their sum. -/
theorem foldl_max_le_sum (numbers : List Nat) : numbers.foldl max 0 ≤ numbers.sum := by
  suffices bound : ∀ start, numbers.foldl max start ≤ start + numbers.sum by
    simpa using bound 0
  induction numbers with
  | nil => simp
  | cons number rest ih =>
    intro start
    have next := ih (max start number)
    simp only [List.foldl_cons, List.sum_cons]
    omega

/-- A state has one leaf, or no more than its children have together. -/
theorem weigh_le (sections : Sections) (index : Nat) (counts : Array Nat) :
    (sections.states.getD index .blank).weigh counts ≤ 1 ∨
      (sections.states.getD index .blank).weigh counts ≤
        ∑ child ∈ (sections.family index).toFinset, counts.getD child 0 := by
  rw [List.sum_toFinset _ (sections.nodup_family index)]
  simp only [StateRecord.weigh, family]
  split
  · exact .inl (Nat.le_refl 1)
  · right
    split
    · rw [← List.sum_eq_foldl]
    · exact foldl_max_le_sum _

/-- What holds of the counts once the states from `left` on have been counted: the unclaimed
ones among them have no more leaves together than there are states from `left` on. -/
structure Tally (sections : Sections) (left : Nat) (counts : Array Nat) : Prop where
  size_eq : counts.size = sections.states.size
  ahead : ∀ index < left, counts.getD index 0 = 0
  within : left ≤ sections.states.size
  unclaimed_le : ∑ index ∈ sections.unclaimed left, counts.getD index 0 + left ≤
    sections.states.size
  count_le : ∀ index, counts.getD index 0 ≤ sections.states.size

theorem Tally.start (sections : Sections) :
    sections.Tally sections.states.size (Array.replicate sections.states.size 0) where
  size_eq := by simp
  ahead index inside := by simp [Array.getD_eq_getD_getElem?, inside]
  within := Nat.le_refl _
  unclaimed_le := by simp [unclaimed]
  count_le index := by
    by_cases inside : index < sections.states.size <;>
      simp [Array.getD_eq_getD_getElem?, inside]

/-- The children of the next state that have been counted were unclaimed so far, so they are
traded for that state. -/
theorem Tally.next (own : sections.OwnChildren) {left : Nat} {counts : Array Nat}
    (tally : sections.Tally (left + 1) counts) :
    sections.Tally left
      (counts.set! left ((sections.states.getD left .blank).weigh counts)) := by
  have inside : left < sections.states.size := tally.within
  generalize weight : (sections.states.getD left .blank).weigh counts = count
  have reads (index : Nat) : (counts.set! left count).getD index 0 =
      if left = index then count else counts.getD index 0 := by
    rw [getD_set, tally.size_eq]
    simp [inside]
  have others : ∀ index ∈ (sections.unclaimed left).erase left,
      (counts.set! left count).getD index 0 = counts.getD index 0 := fun index listed => by
    rw [reads, if_neg (Finset.ne_of_mem_erase listed).symm]
  -- The state's counted children.
  let children := (sections.family left).toFinset.filter (left < ·)
  have gathered : ∑ child ∈ (sections.family left).toFinset, counts.getD child 0 =
      ∑ child ∈ children, counts.getD child 0 := by
    rw [Finset.sum_filter]
    apply Finset.sum_congr rfl
    intro child _
    split
    · rfl
    · exact tally.ahead child (by omega)
  have disjoint : Disjoint ((sections.unclaimed left).erase left) children := by
    rw [Finset.disjoint_left]
    intro index free claimed
    have unclaimedHere := (Finset.mem_filter.1 (Finset.mem_of_mem_erase free)).2 left
    simp only [Finset.mem_Ico, Nat.le_refl, inside, and_self, true_implies] at unclaimedHere
    exact unclaimedHere (List.mem_toFinset.1 (Finset.mem_filter.1 claimed).1)
  have subset : (sections.unclaimed left).erase left ∪ children ⊆
      sections.unclaimed (left + 1) := by
    intro index listed
    rcases Finset.mem_union.1 listed with free | claimed
    · simp only [unclaimed, Finset.mem_erase, Finset.mem_filter, Finset.mem_Ico] at free ⊢
      obtain ⟨other, ⟨late, early⟩, alone⟩ := free
      exact ⟨by omega, fun parent bounds => alone parent (by omega)⟩
    · obtain ⟨member, late⟩ := Finset.mem_filter.1 claimed
      have member := List.mem_toFinset.1 member
      simp only [unclaimed, Finset.mem_filter, Finset.mem_Ico]
      refine ⟨⟨late, own.inside left inside index member⟩, fun parent bounds shared => ?_⟩
      have same := own.apart left inside parent bounds.2 index member shared
      omega
  have traded : ∑ index ∈ (sections.unclaimed left).erase left, counts.getD index 0 +
      ∑ child ∈ children, counts.getD child 0 + (left + 1) ≤ sections.states.size := by
    have fewer := Finset.sum_le_sum_of_subset (f := fun index => counts.getD index 0) subset
    rw [Finset.sum_union disjoint] at fewer
    exact Nat.le_trans (Nat.add_le_add_right fewer _) tally.unclaimed_le
  have light : count + ∑ index ∈ (sections.unclaimed left).erase left, counts.getD index 0 +
      left ≤ sections.states.size := by
    have weighed := sections.weigh_le left counts
    rw [weight, gathered] at weighed
    omega
  have total : ∑ index ∈ sections.unclaimed left, (counts.set! left count).getD index 0 ≤
      count + ∑ index ∈ (sections.unclaimed left).erase left, counts.getD index 0 := by
    rw [← Finset.sum_congr rfl others]
    by_cases listed : left ∈ sections.unclaimed left
    · rw [← Finset.add_sum_erase _ _ listed, reads, if_pos rfl]
    · rw [Finset.erase_eq_of_notMem listed]
      exact Nat.le_add_left _ _
  exact {
    size_eq := by simpa using tally.size_eq
    ahead := fun index early => by
      rw [reads, if_neg (by omega), tally.ahead index (by omega)]
    within := Nat.le_of_lt inside
    unclaimed_le := by omega
    count_le := fun index => by
      rw [reads]
      split
      · omega
      · exact tally.count_le index }

/-- Where each child has its own place, leaves are counted without fault, and no state has
more of them than there are states. -/
theorem OwnChildren.leafCounts_returns (own : sections.OwnChildren) :
    Returns (Shape.leafCounts sections.states) fun counts =>
      ∀ index, counts.getD index 0 ≤ sections.states.size := by
  suffices counted : ∀ left counts, sections.Tally left counts →
      Returns ((List.range left).reverse.foldlM
        (fun counts index => do
          let count ← Shape.leafCount (sections.states.getD index .blank) counts
          return counts.set! index count) counts) (sections.Tally 0) from
    (counted _ _ (Tally.start sections)).mono fun _ tally => tally.count_le
  intro left
  induction left with
  | zero => exact fun counts tally => .ok tally
  | succ left ih =>
    intro counts tally
    have known : ∀ child ∈ (sections.states.getD left .blank).children.toList,
        child < counts.size := fun child listed =>
      tally.size_eq ▸ own.inside left tally.within child listed
    rw [List.range_succ, List.reverse_append, List.reverse_singleton, List.singleton_append,
      List.foldlM_cons, leafCount_eq known]
    exact ih _ (tally.next own)

/-- Such tables have a shape. -/
theorem OwnChildren.ofSections_returns (own : sections.OwnChildren)
    (inhabited : 0 < sections.states.size) :
    Returns (Shape.ofSections sections) fun shape => shape.maxLeaves ≤ sections.states.size :=
  own.leafCounts_returns.bind fun _ bounded => .pure (max_le (bounded 0) inhabited)

/-! ### Where the tables stand -/

/-- A table stands in a blob from `offset` to `stop`, `size` bytes an entry: the entry at an
index is what is read that many entries behind `offset`. -/
structure Stands {Entry : Type} (size : Nat) (read : Bytes → Entry) (table : Array Entry)
    (bytes : Bytes) (offset stop : Nat) : Prop where
  stop_eq : offset + table.size * size = stop
  read_eq : ∀ (index : Nat) (inside : index < table.size),
    read (bytes.drop (offset + index * size)) = table[index]

/-- The tables stand in a blob one behind the other, from the end of the header to the end of
the blob. -/
structure Packed (sections : Sections) (offsets : Offsets) (bytes : Bytes) : Prop where
  start : offsets.states = Header.size
  states : Stands StateRecord.size StateRecord.read sections.states bytes
    offsets.states offsets.transitions
  transitions : Stands TransitionRecord.size TransitionRecord.read sections.transitions bytes
    offsets.transitions offsets.regions
  regions : Stands RegionRecord.size RegionRecord.read sections.regions bytes
    offsets.regions offsets.globals
  globals : Stands TransitionRecord.size TransitionRecord.read sections.globals bytes
    offsets.globals offsets.events
  events : Stands EventRecord.size EventRecord.read sections.events bytes
    offsets.events offsets.actions
  actions : Stands 2 (fun bytes => bytes.word16At 0) sections.actions bytes
    offsets.actions offsets.guards
  guards : Stands 2 (fun bytes => bytes.word16At 0) sections.guards bytes
    offsets.guards offsets.stop
  stop : offsets.stop = bytes.length

theorem Stored.stands {Entry : Type} {size count offset : Nat} {read : Bytes → Entry}
    {toBytes : Entry → Bytes} {table : Array Entry} {bytes : Bytes}
    (stored : Stored size read toBytes table.toList) (counted : count = table.toList.length)
    (here : ∃ rest, bytes.drop offset = table.toList.flatMap toBytes ++ rest) :
    Stands size read table bytes offset (offset + count * size) where
  stop_eq := by rw [counted, Array.length_toList]
  read_eq index inside := by
    obtain ⟨rest, here⟩ := here
    -- The table is cut in front of the entry.
    have cut : table.toList =
        table.toList.take index ++ table[index] :: table.toList.drop (index + 1) := by
      rw [← Array.getElem_toList, List.getElem_cons_drop, List.take_append_drop]
    have before := stored.of_subset (List.take_subset index table.toList)
    have width : ((table.toList.take index).flatMap toBytes).length = index * size := by
      rw [before.length_flatMap, List.length_take, Array.length_toList,
        Nat.min_eq_left (Nat.le_of_lt inside)]
    rw [← List.drop_drop, here, cut, List.flatMap_append, List.append_assoc,
      List.drop_left' width, List.flatMap_cons, List.append_assoc,
      stored.exact _ (Array.getElem_mem_toList inside)]

/-- The offsets of the header are right about where the tables stand. -/
theorem Encodable.packed (encodable : sections.Encodable) {header : Header}
    (counted : sections.CountedBy header) :
    sections.Packed header.offsets (header.toBytes ++ sections.body) := by
  have placed := encodable.placed counted
  exact {
    start := rfl
    states := (stored_states _).stands counted.states placed.states
    transitions := (stored_transitions encodable.priority_transitions).stands
      counted.transitions placed.transitions
    regions := (stored_regions _).stands counted.regions placed.regions
    globals := (stored_transitions encodable.priority_globals).stands
      counted.globals placed.globals
    events := (stored_events _).stands counted.events placed.events
    actions := (stored_ids _).stands counted.actions placed.actions
    guards := (stored_ids _).stands counted.guards placed.guards
    stop := (encodable.read_eq counted).2 }

end Sections

/-! ### What the accessors give -/

namespace Definition

/-- The definition has as many entries as these tables, and its accessors give them at every
index. -/
structure Lists (definition : Definition) (sections : Sections) : Prop where
  counted : sections.CountedBy definition.header
  state : ∀ (index : UInt16) (inside : index.toNat < sections.states.size),
    definition.state index = .ok sections.states[index.toNat]
  transition : ∀ (index : Nat) (inside : index < sections.transitions.size),
    definition.transition index = .ok sections.transitions[index]
  region : ∀ (index : Nat) (inside : index < sections.regions.size),
    definition.region index = .ok sections.regions[index]
  globalTransition : ∀ (index : Nat) (inside : index < sections.globals.size),
    definition.globalTransition index = .ok sections.globals[index]
  event : ∀ (index : Nat) (inside : index < sections.events.size),
    definition.event index = .ok sections.events[index]
  actionId : ∀ (index : Nat) (inside : index < sections.actions.size),
    definition.actionId index = .ok sections.actions[index]
  guardId : ∀ (index : Nat) (inside : index < sections.guards.size),
    definition.guardId index = .ok sections.guards[index]

/-- The declaration of each event id is its first row, if it has one. -/
def DeclaresFirst (definition : Definition) (rows : List EventRecord) : Prop :=
  ∀ id, (definition.declaration? id = none ∧ ∀ row ∈ rows, row.id ≠ id) ∨
    ∃ before row after, definition.declaration? id = some row ∧
      rows = before ++ row :: after ∧ row.id = id ∧ ∀ other ∈ before, other.id ≠ id

theorem entry_eq {Entry : Type} (table : Table) (entries : Array Entry) {index : Nat}
    (inside : index < entries.size) : entry table entries index = .ok entries[index] := by
  simp [entry, inside]

variable {definition : Definition} {sections : Sections}

/-- A definition lists its own tables. -/
theorem lists_self (counted : definition.sections.CountedBy definition.header) :
    definition.Lists definition.sections where
  counted := counted
  state _ inside := entry_eq .states _ inside
  transition _ inside := entry_eq .transitions _ inside
  region _ inside := entry_eq .regions _ inside
  globalTransition _ inside := entry_eq .globals _ inside
  event _ inside := entry_eq .events _ inside
  actionId _ inside := entry_eq .actions _ inside
  guardId _ inside := entry_eq .guards _ inside

/-- Two tables of one length that are read alike at every index are the same. -/
theorem table_eq {Entry : Type} {size : Nat} {first second : Array Entry}
    {read : Nat → Except Fault Entry} (firstSize : size = first.toList.length)
    (secondSize : size = second.toList.length)
    (atFirst : ∀ (index : Nat) (inside : index < first.size), read index = .ok first[index])
    (atSecond : ∀ (index : Nat) (inside : index < second.size), read index = .ok second[index]) :
    first = second := by
  apply Array.ext (firstSize.symm.trans secondSize)
  intro index inFirst inSecond
  have same := (atFirst index inFirst).symm.trans (atSecond index inSecond)
  exact Except.ok.inj same

/-- The accessors leave nothing open: only one choice of tables is listed. -/
theorem Lists.unique {others : Sections} (lists : definition.Lists sections)
    (again : definition.Lists others) (small : sections.states.size < 65536) :
    others = sections := by
  have states : others.states = sections.states := by
    have sizes : others.states.size = sections.states.size :=
      again.counted.states.symm.trans lists.counted.states
    apply Array.ext sizes
    intro index inOthers inside
    have index16 : (UInt16.ofNat index).toNat = index :=
      UInt16.toNat_ofNat_of_lt' (Nat.lt_trans inside small)
    have first := lists.state (UInt16.ofNat index) (index16.symm ▸ inside)
    have second := again.state (UInt16.ofNat index) (index16.symm ▸ inOthers)
    have same := Except.ok.inj (second.symm.trans first)
    simpa only [index16] using same
  have transitions := table_eq again.counted.transitions lists.counted.transitions
    again.transition lists.transition
  have regions := table_eq again.counted.regions lists.counted.regions again.region lists.region
  have globals := table_eq again.counted.globals lists.counted.globals
    again.globalTransition lists.globalTransition
  have events := table_eq again.counted.events lists.counted.events again.event lists.event
  have actions := table_eq again.counted.actions lists.counted.actions
    again.actionId lists.actionId
  have guards := table_eq again.counted.guards lists.counted.guards again.guardId lists.guardId
  cases others
  cases sections
  simp_all

theorem declaresFirst (definition : Definition) :
    definition.DeclaresFirst definition.sections.events.toList := by
  intro id
  rw [declaration?, ← Array.find?_toList]
  cases found : definition.sections.events.toList.find? (fun declared => declared.id == id) with
  | none => exact .inl ⟨rfl, by simpa using found⟩
  | some row =>
    obtain ⟨is, before, after, cut, differ⟩ := List.find?_eq_some_iff_append.1 found
    exact .inr ⟨before, row, after, rfl, cut, by simpa using is, by simpa using differ⟩

end Definition

namespace Sections

variable {sections : Sections}

/-- What it means that a blob was written from these tables and loads as this definition. -/
structure Survives (sections : Sections) (structureHash parameterHash : UInt32) (bytes : Bytes)
    (definition : Definition) : Prop where
  encode_eq : sections.encode structureHash parameterHash = .ok bytes
  load_eq : Definition.load bytes = .ok (.ok definition)
  bytes_eq : definition.bytes = bytes
  header_eq : definition.header = Header.read bytes
  structureHash_eq : definition.structureHash = structureHash
  parameterHash_eq : definition.parameterHash = parameterHash
  packed : sections.Packed definition.header.offsets bytes
  lists : definition.Lists sections
  declares : definition.DeclaresFirst sections.events.toList

theorem Encodable.survives (encodable : sections.Encodable)
    (inhabited : 0 < sections.states.size) {shape : Shape}
    (shaped : Shape.ofSections sections = .ok shape) (structureHash parameterHash : UInt32) :
    let header := sections.headerOf structureHash parameterHash
    let bytes := header.toBytes ++ sections.body
    sections.Survives structureHash parameterHash bytes { bytes, header, sections, shape } where
  encode_eq := encodable.encode_eq_ok structureHash parameterHash
  load_eq := encodable.load_eq inhabited shaped structureHash parameterHash
  bytes_eq := rfl
  header_eq := (Header.read_toBytes_append ..).symm
  structureHash_eq := rfl
  parameterHash_eq := rfl
  packed := encodable.packed (encodable.countedBy structureHash parameterHash)
  lists := Definition.lists_self (encodable.countedBy structureHash parameterHash)
  declares := Definition.declaresFirst _

/-- Tables that are encodable, have a state and do not share children survive the way into a
blob and back, with any hashes. The loaded definition has as many leaves as there are states
at most, and tables that it lists are written to the same blob. -/
theorem encode_roundTrip (encodable : sections.Encodable)
    (inhabited : 0 < sections.states.size) (own : sections.OwnChildren)
    (structureHash parameterHash : UInt32) :
    ∃ bytes definition, sections.Survives structureHash parameterHash bytes definition ∧
      definition.shape.maxLeaves ≤ sections.states.size ∧
      ∀ again : Sections, definition.Lists again →
        again.encode definition.structureHash definition.parameterHash = .ok bytes := by
  obtain ⟨shape, shaped, light⟩ := own.ofSections_returns inhabited
  have survives := encodable.survives inhabited shaped structureHash parameterHash
  refine ⟨_, _, survives, light, fun again listed => ?_⟩
  rw [survives.lists.unique listed encodable.states]
  exact survives.encode_eq

/-- A parallel root with two leaves, a transition with the highest priority and an event that
is declared twice. -/
def fork : Sections where
  states := #[
    { StateRecord.blank with
      firstChild := 1, childCount := 2, regionStart := 0, regionCount := 2
      flags := { StateFlags.none with composite := true, parallel := true } },
    { StateRecord.blank with
      parent := 0, depth := 1, transitionStart := 0, transitionCount := 1, outputLanes := 3 },
    { StateRecord.blank with parent := 0, depth := 1 }]
  transitions := #[
    { TransitionRecord.blank with
      source := 1, target := 1, event := 2, priority := 15
      flags := { TransitionFlags.none with isInternal := true } }]
  regions := #[
    { owner := 0, root := 1, index := 0, stateCount := 1 },
    { owner := 0, root := 2, index := 1, stateCount := 1 }]
  globals := #[
    { TransitionRecord.blank with
      target := 2, event := 2, flags := { TransitionFlags.none with isGlobal := true } }]
  events := #[
    { id := 2, flags := .none, priority := .normal },
    { id := 2, flags := .none, priority := .low }]
  actions := #[4660]
  guards := #[]

/-- The hypotheses of `encode_roundTrip` can be met. -/
theorem encode_roundTrip_fork :
    fork.Encodable ∧ 0 < fork.states.size ∧ fork.OwnChildren ∧
      ∃ bytes definition, fork.Survives 7 9 bytes definition ∧
        definition.shape.maxLeaves ≤ fork.states.size ∧
        ∀ again : Sections, definition.Lists again →
          again.encode definition.structureHash definition.parameterHash = .ok bytes := by
  have encodable : fork.Encodable := by constructor <;> decide
  have inhabited : 0 < fork.states.size := by decide
  have own : fork.OwnChildren := by constructor <;> decide
  exact ⟨encodable, inhabited, own, encode_roundTrip encodable inhabited own 7 9⟩

end Sections

end Statechart.Rom
