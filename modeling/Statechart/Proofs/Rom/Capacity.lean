/-
# Room in a tier

A shape that the largest tier has room for gets a tier that has room for it, and so does
every larger tier (`Shape.Modest.fits`). Of the tiers that its complexity allows, it gets
the smallest one (`Shape.Modest.isLeast_tier`). Which slots the states of a machine use is
counted by its shape, so an instance of a sufficient tier has every slot that a state
names.
-/

import Mathlib.Order.Bounds.Defs
import Statechart.Proofs.Folds
import Statechart.Proofs.Rom.Widths

namespace Statechart

namespace Tier

theorem le_trans {first second third : Tier} (lower : first ≤ second) (upper : second ≤ third) :
    first ≤ third :=
  Nat.le_trans (show first.size ≤ second.size from lower) upper

theorem le_tier256 (tier : Tier) : tier ≤ .tier256 := by
  cases tier <;> decide

theorem le_max (first second : Tier) : first ≤ first.max second ∧ second ≤ first.max second := by
  cases first <;> cases second <;> decide

theorem capacity_mono {small large : Tier} (le : small ≤ large) :
    small.leafCapacity ≤ large.leafCapacity ∧ small.timerCapacity ≤ large.timerCapacity ∧
      small.historyCapacity ≤ large.historyCapacity := by
  revert le
  cases small <;> cases large <;> decide

/-- The smallest tier with enough of something has enough of it, if any tier has. -/
theorem le_capacity {capacity : Tier → Nat} {needed : Nat}
    (enough : needed ≤ capacity .tier256) :
    needed ≤ capacity ((all.find? fun tier => needed ≤ capacity tier).getD .tier256) := by
  cases found : all.find? fun tier => decide (needed ≤ capacity tier) with
  | none => exact enough
  | some tier =>
    have small := List.find?_some found
    exact of_decide_eq_true small

theorem max_le {first second bound : Tier} (one : first ≤ bound) (other : second ≤ bound) :
    first.max second ≤ bound := by
  unfold Tier.max
  split
  · exact other
  · exact one

theorem mem_all (tier : Tier) : tier ∈ all := by
  cases tier <;> decide

theorem pairwise_all : all.Pairwise (· ≤ ·) := by
  decide

/-- No smaller tier has enough of something than the first one that does. -/
theorem find_capacity_le {capacity : Tier → Nat} {needed : Nat} {tier : Tier}
    (enough : needed ≤ capacity tier) :
    (all.find? fun tier => needed ≤ capacity tier).getD .tier256 ≤ tier := by
  cases found : all.find? fun tier => decide (needed ≤ capacity tier) with
  | none =>
    have less := List.find?_eq_none.1 found tier (mem_all tier)
    exact absurd (decide_eq_true enough) less
  | some first =>
    obtain ⟨-, smaller, larger, split, none⟩ := List.find?_eq_some_iff_append.1 found
    have ordered := (List.pairwise_append.1 (split ▸ pairwise_all)).2.1
    have listed := split ▸ mem_all tier
    rcases List.mem_append.1 listed with early | late
    · have less := none tier early
      rw [decide_eq_true enough] at less
      cases less
    · rcases List.mem_cons.1 late with rfl | later
      · exact Nat.le_refl _
      · exact (List.pairwise_cons.1 ordered).1 tier later

end Tier

namespace Rom

namespace Shape

/-- The largest tier has room for a machine of this shape. -/
structure Modest (shape : Shape) : Prop where
  leaves : shape.maxLeaves ≤ Tier.tier256.leafCapacity
  timers : shape.timerSlots ≤ Tier.tier256.timerCapacity
  histories : shape.historySlots ≤ Tier.tier256.historyCapacity

/-- A tier has room for a machine of this shape. -/
structure Fits (shape : Shape) (tier : Tier) : Prop where
  leaves : shape.maxLeaves ≤ tier.leafCapacity
  timers : shape.timerSlots ≤ tier.timerCapacity
  histories : shape.historySlots ≤ tier.historyCapacity

/-- Every tier from the shape's own on has room for it. -/
theorem Modest.fits {shape : Shape} (modest : shape.Modest) {tier : Tier}
    (enough : shape.tier ≤ tier) : shape.Fits tier := by
  unfold Shape.tier at enough
  simp only at enough
  generalize Tier.ofComplexity shape.userStates shape.maxDepth shape.historySlots shape.regions =
    base at enough
  -- Each of the four tiers is below the given one.
  have histories := Tier.le_trans (Tier.le_max _ _).2 enough
  have others := Tier.le_trans (Tier.le_max _ _).1 enough
  have timers := Tier.le_trans (Tier.le_max _ _).2 others
  have leaves := Tier.le_trans (Tier.le_max _ _).2 (Tier.le_trans (Tier.le_max _ _).1 others)
  exact {
    leaves := Nat.le_trans (Tier.le_capacity modest.leaves) (Tier.capacity_mono leaves).1
    timers := Nat.le_trans (Tier.le_capacity modest.timers) (Tier.capacity_mono timers).2.1
    histories :=
      Nat.le_trans (Tier.le_capacity modest.histories) (Tier.capacity_mono histories).2.2 }

/-- A shape gets the smallest tier that its complexity allows and that has room for it. -/
theorem Modest.isLeast_tier {shape : Shape} (modest : shape.Modest) :
    IsLeast {tier | Tier.ofComplexity shape.userStates shape.maxDepth shape.historySlots
      shape.regions ≤ tier ∧ shape.Fits tier} shape.tier := by
  constructor
  · refine ⟨?_, modest.fits (Nat.le_refl _)⟩
    exact Tier.le_trans (Tier.le_max _ _).1
      (Tier.le_trans (Tier.le_max _ _).1 (Tier.le_max _ _).1)
  · rintro tier ⟨allowed, fits⟩
    have leaves := Tier.max_le allowed (Tier.find_capacity_le fits.leaves)
    have timers := Tier.max_le leaves (Tier.find_capacity_le fits.timers)
    exact Tier.max_le timers (Tier.find_capacity_le fits.histories)

/-! ### Slots -/

/-- Every slot is counted. -/
theorem lt_slotCount_of_mem {slots : List UInt16} {slot : UInt16} (listed : slot ∈ slots) :
    slot.toNat < slotCount slots := by
  apply foldl_of_mem (slot.toNat < ·) listed
  · intro count
    exact Nat.lt_of_succ_le (Nat.le_max_right ..)
  · intro count other already
    exact Nat.lt_of_lt_of_le already (Nat.le_max_left ..)

/-- The count is no larger than a bound on all slots. -/
theorem slotCount_le {slots : List UInt16} {bound : Nat}
    (below : ∀ slot ∈ slots, slot.toNat < bound) : slotCount slots ≤ bound := by
  unfold slotCount
  have start : 0 ≤ bound := Nat.zero_le bound
  generalize 0 = count at start ⊢
  induction slots generalizing count with
  | nil => exact start
  | cons first rest ih =>
    refine ih (fun slot later => below slot (List.mem_cons_of_mem _ later)) _ ?_
    exact Nat.max_le.2 ⟨start, below first (List.mem_cons_self ..)⟩

end Shape

namespace Sections

variable {sections : Sections} {shape : Shape}

theorem mem_states {state : UInt16} (has : sections.Has state) :
    sections.record state ∈ sections.states.toList := by
  rw [record, Array.getD_eq_getD_getElem?, Array.getElem?_eq_getElem has, Option.getD_some]
  exact Array.mem_toList_iff.2 (Array.getElem_mem has)

/-- What a shape says about slots. -/
theorem slots_of_shape (shaped : Shape.ofSections sections = .ok shape) :
    shape.historySlots =
        Shape.slotCount
          ((sections.states.toList.map StateRecord.historySlot).filter fun slot =>
            slot != noIndex) ∧
      shape.timerSlots =
        Shape.slotCount
          ((sections.states.toList.filter StateRecord.hasTimer).map StateRecord.timerSlot) := by
  unfold Shape.ofSections at shaped
  cases leaves : Shape.leafCounts sections.states with
  | error fault =>
    rw [leaves] at shaped
    cases shaped
  | ok counts =>
    rw [leaves] at shaped
    cases shaped
    exact ⟨rfl, rfl⟩

theorem historySlot_lt (shaped : Shape.ofSections sections = .ok shape) {state : UInt16}
    (has : sections.Has state) (some : (sections.record state).historySlot ≠ noIndex) :
    (sections.record state).historySlot.toNat < shape.historySlots := by
  rw [(slots_of_shape shaped).1]
  refine Shape.lt_slotCount_of_mem (List.mem_filter.2 ⟨?_, by simpa using some⟩)
  exact List.mem_map_of_mem (mem_states has)

theorem timerSlot_lt (shaped : Shape.ofSections sections = .ok shape) {state : UInt16}
    (has : sections.Has state) (runs : (sections.record state).hasTimer = true) :
    (sections.record state).timerSlot.toNat < shape.timerSlots := by
  rw [(slots_of_shape shaped).2]
  exact Shape.lt_slotCount_of_mem
    (List.mem_map_of_mem (List.mem_filter.2 ⟨mem_states has, runs⟩))

end Sections

/-- A definition whose tables are well-formed and that some tier has room for. -/
structure Definition.Sound (definition : Definition) : Prop where
  wellFormed : definition.sections.WellFormed
  shaped : Shape.ofSections definition.sections = .ok definition.shape
  modest : definition.shape.Modest

end Rom

end Statechart
