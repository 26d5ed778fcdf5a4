/-
# Leaf slots

The leaf slots of an instance are compact: the active leaves come first, and every slot
behind them is empty. `Holds` says so of a list of slots and names the active leaves.
Adding a leaf takes the first empty slot, and writing the active leaves anew, as far as
there is room for them, gives slots that hold exactly these.
-/

import Statechart.Proofs.Instance.Queue

namespace Statechart

open Rom (noIndex)

/-- Slots hold the active leaves in order, and nothing behind them. -/
structure Holds (slots active : List UInt16) : Prop where
  slots_eq : slots = active ++ List.replicate (slots.length - active.length) noIndex
  ne_noIndex : ∀ leaf ∈ active, leaf ≠ noIndex

namespace Holds

variable {slots active : List UInt16}

theorem length_le (holds : Holds slots active) : active.length ≤ slots.length := by
  have same := congrArg List.length holds.slots_eq
  rw [List.length_append] at same
  omega

theorem nil_of_replicate (count : Nat) : Holds (List.replicate count noIndex) [] where
  slots_eq := by rw [List.length_replicate, List.nil_append, List.length_nil, Nat.sub_zero]
  ne_noIndex := nofun

/-- The active leaves can be read off. -/
theorem takeWhile_eq (holds : Holds slots active) :
    slots.takeWhile (fun leaf => leaf != noIndex) = active := by
  have kept : ∀ leaf ∈ active, (leaf != noIndex) = true := fun leaf listed =>
    bne_iff_ne.2 (holds.ne_noIndex leaf listed)
  rw [holds.slots_eq, List.takeWhile_append_of_pos kept, List.takeWhile_replicate,
    if_neg (by decide), List.append_nil]

theorem mem (holds : Holds slots active) {leaf : UInt16} (listed : leaf ∈ slots) :
    leaf = noIndex ∨ leaf ∈ active := by
  rw [holds.slots_eq] at listed
  rcases List.mem_append.1 listed with found | empty
  · exact .inr found
  · exact .inl (List.eq_of_mem_replicate empty)

/-- The first empty slot lies right behind the active leaves. -/
theorem findIdx?_eq (holds : Holds slots active) (room : active.length < slots.length) :
    slots.findIdx? (fun leaf => leaf == noIndex) = some active.length := by
  have none : active.findIdx? (fun leaf => leaf == noIndex) = none :=
    List.findIdx?_eq_none_iff.2 fun leaf listed =>
      beq_eq_false_iff_ne.2 (holds.ne_noIndex leaf listed)
  obtain ⟨count, more⟩ : ∃ count, slots.length - active.length = count + 1 :=
    Nat.exists_eq_add_one.2 (Nat.sub_pos_of_lt room)
  rw [holds.slots_eq, List.findIdx?_append, none, more, List.replicate_succ, List.findIdx?_cons]
  simp

/-- Where a slot is empty there is room behind the active leaves. -/
theorem length_lt (holds : Holds slots active) {slot : Nat}
    (free : slots.findIdx? (fun leaf => leaf == noIndex) = some slot) :
    active.length < slots.length := by
  apply Nat.lt_of_le_of_ne holds.length_le
  intro filled
  have none : slots.findIdx? (fun leaf => leaf == noIndex) = none := by
    apply List.findIdx?_eq_none_iff.2
    intro leaf listed
    rw [holds.slots_eq, filled, Nat.sub_self, List.replicate_zero, List.append_nil] at listed
    exact beq_eq_false_iff_ne.2 (holds.ne_noIndex leaf listed)
  rw [none] at free
  cases free

/-- Filling the first empty slot. -/
theorem set (holds : Holds slots active) (room : active.length < slots.length) {leaf : UInt16}
    (isState : leaf ≠ noIndex) : Holds (slots.set active.length leaf) (active ++ [leaf]) where
  slots_eq := by
    obtain ⟨count, more⟩ : ∃ count, slots.length - active.length = count + 1 :=
      Nat.exists_eq_add_one.2 (Nat.sub_pos_of_lt room)
    have fewer : slots.length - (active.length + 1) = count := by omega
    rw [List.length_set, List.length_append, List.length_singleton, fewer]
    conv => lhs; rw [holds.slots_eq, more]
    rw [List.set_append_right _ _ (Nat.le_refl _), Nat.sub_self, List.replicate_succ,
      List.set_cons_zero, List.append_assoc, List.singleton_append]
  ne_noIndex := fun other listed => by
    rcases List.mem_append.1 listed with before | last
    · exact holds.ne_noIndex other before
    · exact List.mem_singleton.1 last ▸ isState

end Holds

namespace Instance

variable {inst : Instance} {active : List UInt16}

theorem activeLeaves_eq (holds : Holds inst.leaves active) : inst.activeLeaves = active :=
  holds.takeWhile_eq

theorem isStarted_iff (holds : Holds inst.leaves active) :
    inst.isStarted = true ↔ active ≠ [] := by
  rw [isStarted_eq, activeLeaves_eq holds, Bool.not_eq_true', List.isEmpty_eq_false_iff]

theorem eq_nil_of_not_started (holds : Holds inst.leaves active)
    (none : inst.isStarted = false) : active = [] := by
  rw [isStarted_eq, activeLeaves_eq holds, Bool.not_eq_false', List.isEmpty_iff] at none
  exact none

theorem leaf_returns (holds : Holds inst.leaves active) {index : Nat}
    (inside : index < inst.tier.leafCapacity) :
    Returns (inst.leaf index) fun leaf => leaf = noIndex ∨ leaf ∈ active :=
  (slot_returns (inst.length_leaves.symm ▸ inside)).mono fun _ listed => holds.mem listed

/-- Writing the active leaves anew. -/
theorem holds_withActiveLeaves (room : active.length ≤ inst.tier.leafCapacity)
    (states : ∀ leaf ∈ active, leaf ≠ noIndex) :
    Holds (inst.withActiveLeaves active).leaves active where
  slots_eq := by
    rw [(inst.withActiveLeaves active).length_leaves]
    show (active ++ List.replicate inst.tier.leafCapacity noIndex).take _ = _ ++
      List.replicate (inst.tier.leafCapacity - _) _
    rw [List.take_append, List.take_of_length_le room, List.take_replicate,
      Nat.min_eq_left (Nat.sub_le _ _)]
  ne_noIndex := states

end Instance

end Statechart
