/-
# Ways up

Parent links lead from a state to the one above it, and from the topmost state nowhere.
`Ascent` names the states that are met on the way, innermost first; it says that the way
ends, and asks nothing else of the tables. A state determines its way up, so no state is
met twice, and the way is no longer than the table of states. `upward` computes it, and the
bounded walks of a definition follow it to its end.

In well-formed tables every state has a way up, and what is met on it is what the state
lies beneath.
-/

import Mathlib.Data.List.Perm.Subperm
import Statechart.Proofs.Rom.Legal

namespace Statechart.Rom

namespace Sections

variable {sections : Sections} {state other leaf : UInt16} {path : List UInt16}

/-- The states from one up to the topmost one, innermost first. -/
inductive Ascent (sections : Sections) : UInt16 → List UInt16 → Prop
  | past : Ascent sections noIndex []
  | up {state : UInt16} {path : List UInt16} : sections.Has state → state ≠ noIndex →
      Ascent sections (sections.record state).parent path →
      Ascent sections state (state :: path)

/-- A state and what is met above it, `steps` states at most. -/
def upwardWithin (sections : Sections) : Nat → UInt16 → List UInt16
  | 0, _ => []
  | steps + 1, state =>
      if state = noIndex then []
      else state :: upwardWithin sections steps (sections.record state).parent

/-- A state and what is met above it, innermost first. -/
def upward (sections : Sections) (state : UInt16) : List UInt16 :=
  sections.upwardWithin sections.states.size state

namespace Ascent

theorem has_of_mem (ascent : sections.Ascent state path) (met : other ∈ path) :
    sections.Has other := by
  induction ascent with
  | past => cases met
  | up has _ _ ih =>
    rcases List.mem_cons.1 met with rfl | above
    · exact has
    · exact ih above

/-- There is one way up. -/
theorem unique {second : List UInt16} (ascent : sections.Ascent state path)
    (again : sections.Ascent state second) : path = second := by
  induction ascent generalizing second with
  | past =>
    cases again with
    | past => rfl
    | up _ isState _ => exact absurd rfl isState
  | up _ isState _ ih =>
    cases again with
    | past => exact absurd rfl isState
    | up _ _ rest => rw [ih rest]

/-- From a state that is met on the way, the rest of the way is its own. -/
theorem of_mem (ascent : sections.Ascent state path) (met : other ∈ path) :
    ∃ below above, path = below ++ other :: above ∧ sections.Ascent other (other :: above) := by
  induction ascent with
  | past => cases met
  | @up state path has isState rest ih =>
    rcases List.mem_cons.1 met with rfl | later
    · exact ⟨[], path, rfl, .up has isState rest⟩
    · obtain ⟨below, above, rfl, own⟩ := ih later
      exact ⟨state :: below, above, rfl, own⟩

/-- What is met above a state is met on every way that passes it. -/
theorem subset_of_mem {second : List UInt16} (ascent : sections.Ascent state path)
    (met : other ∈ path) (own : sections.Ascent other second) :
    ∀ upper ∈ second, upper ∈ path := by
  obtain ⟨below, above, rfl, rest⟩ := ascent.of_mem met
  obtain rfl := rest.unique own
  exact fun upper listed => List.mem_append_right below listed

theorem nodup (ascent : sections.Ascent state path) : path.Nodup := by
  induction ascent with
  | past => exact List.nodup_nil
  | @up state path has isState rest ih =>
    refine List.nodup_cons.2 ⟨fun again => ?_, ih⟩
    -- A state that is met above itself would have a way up that is longer than itself.
    obtain ⟨below, above, split, own⟩ := rest.of_mem again
    have same : above = path := (List.cons_inj_right state).1 (own.unique (.up has isState rest))
    have lengths := congrArg List.length split
    rw [same, List.length_append, List.length_cons] at lengths
    omega

/-- No way up is longer than the table of states. -/
theorem length_le (ascent : sections.Ascent state path) :
    path.length ≤ sections.states.size := by
  have apart : (path.map UInt16.toNat).Nodup :=
    List.pairwise_map.2 (ascent.nodup.imp fun differ same => differ (UInt16.toNat_inj.1 same))
  have inside : path.map UInt16.toNat ⊆ List.range sections.states.size := by
    intro index listed
    obtain ⟨other, met, rfl⟩ := List.mem_map.1 listed
    exact List.mem_range.2 (ascent.has_of_mem met)
  simpa using (List.subperm_of_subset apart inside).length_le

theorem upwardWithin_eq (ascent : sections.Ascent state path) {steps : Nat}
    (enough : path.length ≤ steps) : sections.upwardWithin steps state = path := by
  induction ascent generalizing steps with
  | past => cases steps <;> rfl
  | up _ isState _ ih =>
    obtain ⟨fewer, rfl⟩ : ∃ fewer, steps = fewer + 1 :=
      Nat.exists_eq_add_one.2 (Nat.lt_of_lt_of_le (Nat.succ_pos _) enough)
    rw [upwardWithin, if_neg isState, ih (Nat.le_of_succ_le_succ enough)]

theorem upward_eq (ascent : sections.Ascent state path) : sections.upward state = path :=
  ascent.upwardWithin_eq ascent.length_le

end Ascent

/-- In well-formed tables every state has a way up, on which what it lies beneath is met. -/
theorem WellFormed.exists_ascent (wellFormed : sections.WellFormed) {state : UInt16}
    (has : sections.Has state) : ∃ path, sections.Ascent state path ∧
      ∀ other, other ∈ path ↔ sections.Beneath other state := by
  have isState := wellFormed.ne_noIndex has
  by_cases isRoot : state = rootIndex
  · subst isRoot
    refine ⟨[rootIndex], .up has isState (wellFormed.parent_root ▸ .past), fun other => ?_⟩
    rw [List.mem_singleton]
    constructor
    · rintro rfl
      exact .self has
    · exact wellFormed.eq_root_of_beneath
  · obtain ⟨hasParent, linked⟩ := wellFormed.child_of_ne_root has isRoot
    obtain ⟨path, ascent, met⟩ := wellFormed.exists_ascent hasParent
    refine ⟨state :: path, .up has isState ascent, fun other => ?_⟩
    rw [List.mem_cons, met]
    constructor
    · rintro (rfl | above)
      · exact .self has
      · exact .under above linked
    · intro beneath
      cases beneath with
      | self _ => exact .inl rfl
      | under above link =>
        rw [link.parent_eq]
        exact .inr above
termination_by state.toNat
decreasing_by exact wellFormed.lt_of_child linked

/-- What is met on the way up from a state of well-formed tables is what it lies beneath. -/
theorem WellFormed.mem_upward (wellFormed : sections.WellFormed) (has : sections.Has state) :
    other ∈ sections.upward state ↔ sections.Beneath other state := by
  obtain ⟨path, ascent, met⟩ := wellFormed.exists_ascent has
  rw [ascent.upward_eq, met]

/-- The leaves of a legal configuration have their ways up. -/
theorem Legal.exists_ascent {leaves : List UInt16} (wellFormed : sections.WellFormed)
    (legal : sections.Legal leaves) (listed : leaf ∈ leaves) :
    ∃ path, sections.Ascent leaf path := by
  obtain ⟨path, ascent, _⟩ := wellFormed.exists_ascent (legal.childless leaf listed).1
  exact ⟨path, ascent⟩

end Sections

/-! ### Walks to the end of a way -/

namespace Definition

variable {definition : Definition} {top state : UInt16} {path : List UInt16}

theorem climbsTo_of_ascent (ascent : definition.sections.Ascent state path)
    {steps : Nat} (enough : path.length ≤ steps) :
    definition.climbsTo top steps state = .ok (decide (top ∈ path)) := by
  induction ascent generalizing steps with
  | past => cases steps <;> rfl
  | @up state path has inside rest ih =>
    obtain ⟨fewer, rfl⟩ : ∃ fewer, steps = fewer + 1 :=
      Nat.exists_eq_add_one.2 (Nat.lt_of_lt_of_le (Nat.succ_pos _) enough)
    rw [climbsTo, if_neg inside]
    by_cases same : state = top
    · rw [if_pos same, decide_eq_true (List.mem_cons.2 (.inl same.symm))]
    · rw [if_neg same, parent_eq has, ok_bind, ih (Nat.le_of_succ_le_succ enough)]
      exact congrArg Except.ok (decide_eq_decide.2
        ⟨List.mem_cons_of_mem _, fun met => (List.mem_cons.1 met).resolve_left (Ne.symm same)⟩)

theorem isAncestorOrSelf_of_ascent (ascent : definition.sections.Ascent state path) :
    definition.isAncestorOrSelf top state =
      .ok (decide (top ∈ definition.sections.upward state)) := by
  rw [ascent.upward_eq]
  exact climbsTo_of_ascent ascent (Nat.le_succ_of_le ascent.length_le)

end Definition

end Statechart.Rom
