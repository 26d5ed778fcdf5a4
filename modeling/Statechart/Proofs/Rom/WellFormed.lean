/-
# Well-formed tables

What every reader of compiled tables may rely on. States are numbered so that a parent
comes before its children and the children of a state follow each other; depths, flags,
default children and slots say what they should; each state's run of transitions is its
own, and no transition leads nowhere.

An index is a 16-bit word, and `Has` says that there is a state at it. The record of an
index without state is blank, so that `record` needs no proof.
-/

import Statechart.Rom.Definition

namespace Statechart.Rom

namespace Sections

/-- There is a state at an index. -/
def Has (sections : Sections) (state : UInt16) : Prop :=
  state.toNat < sections.states.size

/-- The record at an index, blank where there is no state. -/
def record (sections : Sections) (state : UInt16) : StateRecord :=
  sections.states.getD state.toNat .blank

instance (sections : Sections) (state : UInt16) : Decidable (sections.Has state) :=
  inferInstanceAs (Decidable (_ < _))

/-- Tables whose states form a tree below the root, numbered from the root down, and
whose flags, slots and transitions keep their promises. -/
structure WellFormed (sections : Sections) : Prop where
  inhabited : 0 < sections.states.size
  size_le : sections.states.size ≤ maxStates
  parent_root : (sections.record rootIndex).parent = noIndex
  parent_lt {state : UInt16} : sections.Has state → state ≠ rootIndex →
    (sections.record state).parent < state
  depth_root : (sections.record rootIndex).depth = 0
  depth_succ {state : UInt16} : sections.Has state → state ≠ rootIndex →
    (sections.record state).depth.toNat =
      (sections.record (sections.record state).parent).depth.toNat + 1
  depth_le {state : UInt16} : sections.Has state →
    (sections.record state).depth.toNat ≤ maxDepth
  mem_children {state : UInt16} {index : Nat} : sections.Has state →
    (index ∈ (sections.record state).children.toList ↔
      index < sections.states.size ∧ (sections.record (UInt16.ofNat index)).parent = state)
  composite_iff {state : UInt16} : sections.Has state →
    ((sections.record state).flags.composite = true ↔
      (sections.record state).children.toList ≠ [])
  initialChild_eq_iff {state : UInt16} : sections.Has state →
    ((sections.record state).initialChild = noIndex ↔
      (sections.record state).children.toList = [] ∨ (sections.record state).flags.parallel = true)
  initialChild_mem {state : UInt16} : sections.Has state →
    (sections.record state).initialChild ≠ noIndex →
    (sections.record state).initialChild.toNat ∈ (sections.record state).children.toList
  history {state : UInt16} : sections.Has state → (sections.record state).flags.history = true →
    (sections.record state).flags.composite = true ∧
      (sections.record state).flags.parallel = false ∧
      (sections.record state).historySlot.toNat < Tier.tier256.historyCapacity
  timer {state : UInt16} : sections.Has state → (sections.record state).flags.hasTimer = true →
    (sections.record state).timerSlot.toNat < Tier.tier256.timerCapacity
  own {state : UInt16} {index : Nat} : sections.Has state →
    index ∈ (sections.record state).transitions.toList →
    ∃ transition, sections.transitions[index]? = some transition ∧ transition.source = state ∧
      transition.flags.isGlobal = false
  isGlobal {transition : TransitionRecord} : transition ∈ sections.globals →
    transition.flags.isGlobal = true
  target {transition : TransitionRecord} :
    transition ∈ sections.transitions ∨ transition ∈ sections.globals →
    transition.flags.isInternal = false →
    sections.Has transition.target ∧ transition.target ≠ rootIndex

end Sections

end Statechart.Rom
