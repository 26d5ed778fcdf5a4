/-
# Indices of a definition

States, transitions, regions and slots are named by 16-bit indices. The largest
one, `noIndex`, names nothing: it stands for an absent parent, child or slot.
Runs of consecutive entries, such as the children of a state, are half-open
ranges.
-/

namespace Statechart.Rom

/-- The index that names nothing. -/
def noIndex : UInt16 := 0xFFFF

/-- The root state's index. -/
def rootIndex : UInt16 := 0

/-- How many states a definition can have. -/
def maxStates : Nat := 65535

/-- How many transitions a definition can have. -/
def maxTransitions : Nat := 65535

/-- How deep states can be nested, the root being at depth zero. -/
def maxDepth : Nat := 15

/-- The highest transition priority. -/
def maxPriority : Nat := 15

/-- The indices from `start` up to but not including `stop`. -/
structure IndexRange where
  start : Nat
  stop : Nat
  deriving DecidableEq, Repr

namespace IndexRange

/-- The run of `count` indices from `first` on. An empty run starts at zero,
whatever `first` says. -/
def ofRun (first count : UInt16) : IndexRange :=
  if count = 0 then ⟨0, 0⟩ else ⟨first.toNat, first.toNat + count.toNat⟩

/-- The indices in the range, in order. -/
def toList (range : IndexRange) : List Nat :=
  List.range' range.start (range.stop - range.start)

/-- The indices in the range as 16-bit words. -/
def words (range : IndexRange) : List UInt16 :=
  range.toList.map UInt16.ofNat

theorem mem_toList {range : IndexRange} {index : Nat} :
    index ∈ range.toList ↔ range.start ≤ index ∧ index < range.stop := by
  simp only [toList, List.mem_range'_1]
  omega

end IndexRange

end Statechart.Rom
