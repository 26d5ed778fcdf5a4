/-
# Room in memory

A ring or a pool can be asked for in any size, but it is held in memory, which has an
end. `Room.reserve` refuses what no memory can hold, before any of it is used.
-/

import Statechart.Fault

namespace Statechart.Room

/-- The number of bytes that one piece of memory has at most. -/
def addressable : Nat := 9223372036854775807

/-- Room for `count` things of `size` bytes each. -/
def reserve (count size : Nat) : Except Fault Nat :=
  if count * size ≤ addressable then .ok count else .error .unaddressable

/-- What is granted is what was asked for, and it can be addressed. -/
theorem reserve_eq_ok_iff {count size granted : Nat} :
    reserve count size = .ok granted ↔ granted = count ∧ count * size ≤ addressable := by
  unfold reserve
  split
  · next fits => simp [fits, eq_comm]
  · next exceeds => simp [exceeds]

end Statechart.Room
