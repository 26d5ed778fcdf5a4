/-
# Shape of a machine

A few numbers decide which tier a definition's instances need: its states without
the root, nesting depth, history and timer slots, regions, and how many leaves can
be active together in the worst case. A leaf counts one; a parallel state counts
all its children together; any other composite counts its largest child.

The leaf counts are worked out from the last state to the first, since children
have larger indices than their parents. A definition that breaks this rule reads
counts that are not there yet as zero, and a child that the definition does not
have is a fault.
-/

import Statechart.Rom.Sections
import Statechart.Tier

namespace Statechart.Rom

/-- The numbers that decide a definition's tier. -/
structure Shape where
  /-- States without the root. -/
  userStates : Nat
  maxDepth : Nat
  historySlots : Nat
  timerSlots : Nat
  regions : Nat
  /-- The most leaves that can be active together. -/
  maxLeaves : Nat
  deriving DecidableEq, Repr

namespace Shape

/-- The smallest tier that the complexity asks for and that has the slots. The
largest tier has to do for whatever fits in none. -/
def tier (shape : Shape) : Tier :=
  let base :=
    Tier.ofComplexity shape.userStates shape.maxDepth shape.historySlots shape.regions
  let leaves := (Tier.forLeaves? shape.maxLeaves).getD .tier256
  let timers := (Tier.forTimers? shape.timerSlots).getD .tier256
  let history := (Tier.forHistory? shape.historySlots).getD .tier256
  ((base.max leaves).max timers).max history

/-- How many leaves can be active below one state, given the counts of its children. -/
def leafCount (state : StateRecord) (counts : Array Nat) : Except Fault Nat := do
  if state.isLeaf then
    return 1
  let children ← state.children.toList.mapM fun child =>
    match counts[child]? with
    | some count => Except.ok count
    | none => Except.error Fault.outOfBounds
  return if state.flags.parallel then children.foldl (· + ·) 0 else children.foldl max 0

/-- The leaf counts of all states, worked out from the last state to the first. -/
def leafCounts (states : Array StateRecord) : Except Fault (Array Nat) :=
  (List.range states.size).reverse.foldlM
    (fun counts index => do
      let count ← leafCount (states.getD index .blank) counts
      return counts.set! index count)
    (Array.replicate states.size 0)

/-- One more than the largest slot in `slots`. -/
def slotCount (slots : List UInt16) : Nat :=
  slots.foldl (fun count slot => max count (slot.toNat + 1)) 0

/-- The shape of a machine with these tables. -/
def ofSections (sections : Sections) : Except Fault Shape := do
  let counts ← leafCounts sections.states
  let states := sections.states.toList
  return {
    userStates := states.length - 1
    maxDepth := states.foldl (fun deepest state => max deepest state.depth.toNat) 0
    historySlots :=
      slotCount ((states.map StateRecord.historySlot).filter (fun slot => slot != noIndex))
    timerSlots := slotCount ((states.filter StateRecord.hasTimer).map StateRecord.timerSlot)
    regions := sections.regions.size
    maxLeaves := max (counts.getD 0 0) 1 }

end Shape

end Statechart.Rom
