/-
# Widest configurations

The width of a state bounds the leaves that can be active below it. The bound is met: a
state with children that is not parallel hands over to a child of its own width, a parallel
state to children each of which is filled as widely as it can be (`exists_widest`). So a
state always has room for a leaf, and the width of the root is the largest number of leaves
in a legal configuration (`isGreatest_leafNumbers`). This is the number in the shape of the
tables (`maxLeaves_eq_width`).
-/

import Mathlib.Order.Bounds.Defs
import Statechart.Proofs.Rom.Legal

namespace Statechart.Rom.Sections

variable {sections : Sections} {state : UInt16}

/-- How many leaves there are in each of the legal configurations. -/
def leafNumbers (sections : Sections) : Set Nat :=
  {count | ∃ leaves, sections.Legal leaves ∧ leaves.length = count}

/-- Leaves that fill a state as widely as it can be. -/
def Widest (sections : Sections) (state : UInt16) (leaves : List UInt16) : Prop :=
  sections.Fills [state] leaves ∧ leaves.length = sections.width state

/-- States that are each filled as widely as they can be are so together. -/
theorem exists_fills_of_widest {agenda : List UInt16}
    (each : ∀ state ∈ agenda, ∃ leaves, sections.Widest state leaves) :
    ∃ leaves, sections.Fills agenda leaves ∧
      leaves.length = (agenda.map sections.width).sum := by
  induction agenda with
  | nil => exact ⟨[], .nil, rfl⟩
  | cons state rest ih =>
    obtain ⟨first, fills, wide⟩ := each state (List.mem_cons_self ..)
    obtain ⟨others, fillsRest, wideRest⟩ :=
      ih fun other later => each other (List.mem_cons_of_mem _ later)
    refine ⟨first ++ others, fills.append fillsRest, ?_⟩
    rw [List.length_append, wide, wideRest, List.map_cons, List.sum_cons]

/-- Whatever is active once a machine was started, the root has room for it. -/
theorem Standing.length_le (wellFormed : sections.WellFormed) {active : List UInt16}
    (standing : sections.Standing active) : active.length ≤ sections.width rootIndex := by
  obtain ⟨start, leaves, starts, same, fills⟩ := standing
  have bound := fills.length_le wellFormed
  rw [List.map_singleton, List.sum_singleton, ← same.length_eq] at bound
  rcases starts with rfl | ⟨-, linked⟩
  · exact bound
  · exact Nat.le_trans bound (wellFormed.width_child_le linked)

namespace WellFormed

variable (wellFormed : sections.WellFormed)

include wellFormed

/-- A composite state that is not parallel has a child of its own width. -/
theorem exists_child_of_width (has : sections.Has state)
    (inner : (sections.record state).isLeaf = false)
    (alone : (sections.record state).flags.parallel = false) :
    ∃ child, sections.Child state child ∧ sections.width child = sections.width state := by
  obtain ⟨some, linked⟩ := wellFormed.exists_child has inner
  have counted := List.mem_map_of_mem (f := sections.width) ((wellFormed.mem_words has).2 linked)
  have nonempty := List.ne_nil_of_mem counted
  have width : sections.width state =
      ((sections.record state).children.words.map sections.width).max nonempty := by
    rw [wellFormed.width_eq has, if_neg (by rw [inner]; decide), if_neg (by rw [alone]; decide),
      List.foldl_max_eq_max nonempty, Nat.zero_max]
  obtain ⟨child, listed, largest⟩ := List.mem_map.1 (List.max_mem nonempty)
  exact ⟨child, (wellFormed.mem_words has).1 listed, largest.trans width.symm⟩

/-- Every state can be filled with as many leaves as it has room for. -/
theorem exists_widest (state : UInt16) (has : sections.Has state) :
    ∃ leaves, sections.Widest state leaves := by
  cases childless : (sections.record state).isLeaf with
  | true => exact ⟨[state], .leaf has childless .nil, (wellFormed.width_leaf has childless).symm⟩
  | false =>
    cases parallel : (sections.record state).flags.parallel with
    | true =>
      have each : ∀ child ∈ (sections.record state).children.words,
          ∃ leaves, sections.Widest child leaves := by
        intro child own
        have linked := (wellFormed.mem_words has).1 own
        exact exists_widest child linked.has
      obtain ⟨leaves, fills, wide⟩ := exists_fills_of_widest each
      refine ⟨leaves, .parallel has childless parallel (by rwa [List.append_nil]), ?_⟩
      rw [wide, wellFormed.width_parallel has childless parallel]
    | false =>
      obtain ⟨child, linked, same⟩ := wellFormed.exists_child_of_width has childless parallel
      obtain ⟨leaves, fills, wide⟩ := exists_widest child linked.has
      exact ⟨leaves, .serial parallel linked fills, wide.trans same⟩
termination_by 65536 - state.toNat
decreasing_by
  all_goals
    have := wellFormed.lt_of_child linked
    have := child.toNat_lt
    omega

/-- There is room for a leaf below every state. -/
theorem width_pos (has : sections.Has state) : 0 < sections.width state := by
  obtain ⟨leaves, fills, wide⟩ := wellFormed.exists_widest state has
  obtain ⟨leaf, listed, -⟩ := fills.exists_mem wellFormed (List.mem_singleton.2 rfl)
  exact wide ▸ List.length_pos_of_mem listed

/-- The shape of the tables tells the width of the root. -/
theorem maxLeaves_eq_width {shape : Shape} (shaped : Shape.ofSections sections = .ok shape) :
    shape.maxLeaves = sections.width rootIndex := by
  have some := wellFormed.width_pos wellFormed.has_root
  obtain ⟨counts, found, -⟩ := wellFormed.exists_leafCounts
  rw [width, found] at some ⊢
  rw [Shape.ofSections, found] at shaped
  cases shaped
  exact Nat.max_eq_left some

/-- No legal configuration has more leaves than the root has room for, and one has as many. -/
theorem isGreatest_leafNumbers : IsGreatest sections.leafNumbers (sections.width rootIndex) := by
  constructor
  · obtain ⟨leaves, fills, wide⟩ := wellFormed.exists_widest rootIndex wellFormed.has_root
    exact ⟨leaves, fills.legal wellFormed, wide⟩
  · rintro _ ⟨leaves, legal, rfl⟩
    exact (legal.standing wellFormed).length_le wellFormed

end WellFormed

end Statechart.Rom.Sections
