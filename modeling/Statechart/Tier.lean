/-
# Instance tiers

An instance occupies 64, 128 or 256 bytes. Its tier fixes how many leaf, timer and
history slots it has, whether interrupts have a queue cell of their own, and how
many events its ring holds. The offsets of the slot arrays follow from these
numbers: they are packed behind a header of sixteen bytes in the order leaves,
timers, history, interrupt cell, ring.

A definition runs in the smallest tier that has room for it (`Tier.ofComplexity`
and the three `forX?` functions).
-/

namespace Statechart

/-- The three instance sizes. -/
inductive Tier
  | tier64
  | tier128
  | tier256
  deriving DecidableEq, Repr

namespace Tier

/-- The tiers, smallest first. -/
def all : List Tier := [tier64, tier128, tier256]

/-- Bytes of an instance. -/
def size : Tier → Nat
  | tier64 => 64
  | tier128 => 128
  | tier256 => 256

/-- How many leaves can be active at once. -/
def leafCapacity : Tier → Nat
  | tier64 => 2
  | tier128 => 4
  | tier256 => 8

/-- How many timer slots there are. -/
def timerCapacity : Tier → Nat
  | tier64 => 2
  | tier128 => 4
  | tier256 => 8

/-- How many history slots there are. -/
def historyCapacity : Tier → Nat
  | tier64 => 2
  | tier128 => 8
  | tier256 => 16

/-- Whether interrupts have a queue cell of their own. In the smallest tier all
events compete for one cell. -/
def hasInterruptCell : Tier → Bool
  | tier64 => false
  | tier128 => true
  | tier256 => true

/-- How many events the ring holds. -/
def ringCapacity : Tier → Nat
  | tier64 => 1
  | tier128 => 1
  | tier256 => 5

/-- Bytes of the header. -/
def headerSize : Nat := 16

/-- Where the leaf slots begin, two bytes each. -/
def leafOffset (_ : Tier) : Nat := headerSize

/-- Where the timer slots begin, four bytes each. -/
def timerOffset (tier : Tier) : Nat :=
  tier.leafOffset + 2 * tier.leafCapacity

/-- Where the history slots begin, two bytes each. -/
def historyOffset (tier : Tier) : Nat :=
  tier.timerOffset + 4 * tier.timerCapacity

/-- Where the queue begins: the interrupt cell if there is one, else the ring. -/
def queueOffset (tier : Tier) : Nat :=
  tier.historyOffset + 2 * tier.historyCapacity

/-- Where the interrupt cell lies. -/
def interruptOffset? (tier : Tier) : Option Nat :=
  if tier.hasInterruptCell then some tier.queueOffset else none

/-- Where the ring begins, one event of 24 bytes after the other. -/
def ringOffset (tier : Tier) : Nat :=
  tier.queueOffset + 24 * tier.hasInterruptCell.toNat

/-- One past the last byte that is in use. -/
def used (tier : Tier) : Nat :=
  tier.ringOffset + 24 * tier.ringCapacity

/-- How many whole event cells the memory from the ring on has room for. In the
middle tier this is one more than the ring uses. -/
def cellCount (tier : Tier) : Nat :=
  (tier.size - tier.ringOffset) / 24

/-- The bytes behind the last whole cell. -/
def spareSize (tier : Tier) : Nat :=
  (tier.size - tier.ringOffset) % 24

/-- The tier whose instances have exactly `size` bytes. -/
def ofSize? (size : Nat) : Option Tier :=
  all.find? (fun tier => tier.size == size)

/-- How a tier is written. -/
def name (tier : Tier) : String :=
  s!"{tier.size}B"

instance : LE Tier := ⟨fun small large => small.size ≤ large.size⟩

instance : LT Tier := ⟨fun small large => small.size < large.size⟩

instance (small large : Tier) : Decidable (small ≤ large) :=
  inferInstanceAs (Decidable (small.size ≤ large.size))

instance (small large : Tier) : Decidable (small < large) :=
  inferInstanceAs (Decidable (small.size < large.size))

/-- The larger of two tiers. -/
def max (first second : Tier) : Tier :=
  if first ≤ second then second else first

/-- The smallest tier with room for `leaves` leaves that are active together. -/
def forLeaves? (leaves : Nat) : Option Tier :=
  all.find? (fun tier => leaves ≤ tier.leafCapacity)

/-- The smallest tier with `timers` timer slots. -/
def forTimers? (timers : Nat) : Option Tier :=
  all.find? (fun tier => timers ≤ tier.timerCapacity)

/-- The smallest tier with `slots` history slots. -/
def forHistory? (slots : Nat) : Option Tier :=
  all.find? (fun tier => slots ≤ tier.historyCapacity)

/-- The tier that a machine's complexity asks for: its states, nesting depth,
history slots and regions. A machine exactly at a limit still fits. -/
def ofComplexity (states depth history regions : Nat) : Tier :=
  if states ≤ 8 ∧ depth ≤ 3 ∧ history ≤ 2 ∧ regions ≤ 1 then tier64
  else if states ≤ 32 ∧ depth ≤ 6 ∧ history ≤ 4 ∧ regions ≤ 2 then tier128
  else tier256

/-- Header, slots, cells and spare bytes fill an instance exactly. -/
theorem ringOffset_add_cells (tier : Tier) :
    tier.ringOffset + 24 * tier.cellCount + tier.spareSize = tier.size := by
  cases tier <;> rfl

/-- The ring lies within the whole cells. -/
theorem ringCapacity_le_cellCount (tier : Tier) : tier.ringCapacity ≤ tier.cellCount := by
  cases tier <;> decide

end Tier

end Statechart
