/-
# Legal configurations

A list of leaves stands for the set of states that are active: the leaves and everything
above them. The list is legal if this set contains the root, exactly one child of each of
its states that have children and are not parallel, and all children of its parallel
states, and if each leaf stands in the list once and has no children.

Filling the root makes a legal configuration. If the root is not parallel, this is all that
a machine's leaves can be, whatever transitions it has taken (`Standing.legal`). And every
legal configuration comes about in this way (`Legal.standing`).
-/

import Statechart.Proofs.Rom.Configuration

namespace Statechart.Rom.Sections

variable {sections : Sections} {leaves active : List UInt16} {state child : UInt16}

/-- A state is a leaf of the list or lies above one. -/
def Active (sections : Sections) (leaves : List UInt16) (state : UInt16) : Prop :=
  ∃ leaf ∈ leaves, sections.Beneath state leaf

theorem active_append {first second : List UInt16} :
    sections.Active (first ++ second) state ↔
      sections.Active first state ∨ sections.Active second state := by
  simp only [Active, List.mem_append, or_and_right, exists_or]

/-- Leaves whose ancestors form a configuration of the machine. -/
structure Legal (sections : Sections) (leaves : List UInt16) : Prop where
  nodup : leaves.Nodup
  childless : ∀ leaf ∈ leaves, sections.Has leaf ∧ ∀ child, ¬ sections.Child leaf child
  root : sections.Active leaves rootIndex
  /-- A composite state that is not parallel has one active child. -/
  one : ∀ state, sections.Active leaves state →
    (sections.record state).flags.composite = true →
    (sections.record state).flags.parallel = false →
    ∃ child, (sections.Child state child ∧ sections.Active leaves child) ∧
      ∀ other, sections.Child state other → sections.Active leaves other → other = child
  /-- All children of a parallel state are active. -/
  all : ∀ state, sections.Active leaves state →
    (sections.record state).flags.parallel = true →
    ∀ child, sections.Child state child → sections.Active leaves child

namespace Legal

/-- Whether leaves are legal does not depend on their order. -/
theorem of_perm (same : active.Perm leaves) (legal : sections.Legal leaves) :
    sections.Legal active := by
  have iff (state : UInt16) : sections.Active active state ↔ sections.Active leaves state := by
    constructor
    · rintro ⟨leaf, listed, beneath⟩
      exact ⟨leaf, same.mem_iff.1 listed, beneath⟩
    · rintro ⟨leaf, listed, beneath⟩
      exact ⟨leaf, same.mem_iff.2 listed, beneath⟩
  refine ⟨same.nodup_iff.2 legal.nodup, ?_, (iff _).2 legal.root, ?_, ?_⟩
  · intro leaf listed
    exact legal.childless leaf (same.mem_iff.1 listed)
  · intro state isActive composite alone
    obtain ⟨child, ⟨linked, below⟩, only⟩ := legal.one state ((iff _).1 isActive) composite alone
    refine ⟨child, ⟨linked, (iff _).2 below⟩, ?_⟩
    intro other otherLinked otherActive
    exact only other otherLinked ((iff _).1 otherActive)
  · intro state isActive parallel child linked
    exact (iff _).2 (legal.all state ((iff _).1 isActive) parallel child linked)

end Legal

/-- The leaves below an active state fill it, and no leaf elsewhere lies below it. -/
theorem Fills.focus_root (wellFormed : sections.WellFormed)
    (fills : sections.Fills [rootIndex] leaves) (isActive : sections.Active leaves state) :
    ∃ before inside after, sections.Focus [rootIndex] leaves state before inside after := by
  obtain ⟨leaf, listed, beneath⟩ := isActive
  exact fills.focus wellFormed Apart.singleton (List.mem_singleton.2 rfl)
    (wellFormed.beneath_root beneath.has_top) listed beneath

/-- A parallel state that is active has an active leaf under each of its children. -/
theorem Focus.active_child (wellFormed : sections.WellFormed)
    {agenda before inside after : List UInt16}
    (cut : sections.Focus agenda leaves state before inside after)
    (parallel : (sections.record state).flags.parallel = true)
    (linked : sections.Child state child) : sections.Active leaves child := by
  cases cut.fills with
  | leaf _ childless _ => exact absurd linked (wellFormed.not_child childless)
  | serial alone _ _ =>
    rw [alone] at parallel
    cases parallel
  | parallel has _ _ filled =>
    have own := (wellFormed.mem_words has).2 linked
    obtain ⟨leaf, listed, beneath⟩ := filled.exists_mem wellFormed (List.mem_append_left _ own)
    refine ⟨leaf, ?_, beneath⟩
    rw [cut.leaves_eq]
    exact List.mem_append_left _ (List.mem_append_right _ listed)

/-- The leaves that fill the root are legal. -/
theorem Fills.legal (wellFormed : sections.WellFormed)
    (fills : sections.Fills [rootIndex] leaves) : sections.Legal leaves := by
  refine ⟨fills.nodup wellFormed Apart.singleton, ?_, ?_, ?_, ?_⟩
  · intro leaf listed
    obtain ⟨childless, _, _, beneath⟩ := fills.of_mem wellFormed listed
    exact ⟨beneath.has, fun child => wellFormed.not_child childless⟩
  · exact fills.exists_mem wellFormed (List.mem_singleton.2 rfl)
  · intro state isActive composite alone
    obtain ⟨before, inside, after, cut⟩ := fills.focus_root wellFormed isActive
    have within : ∀ leaf ∈ inside, leaf ∈ leaves := by
      intro leaf listed
      rw [cut.leaves_eq]
      exact List.mem_append_left _ (List.mem_append_right _ listed)
    cases cut.fills with
    | leaf has childless _ =>
      have some := (wellFormed.composite_iff has).1 composite
      have none := List.map_eq_nil_iff.1 (wellFormed.isLeaf_iff.1 childless)
      exact absurd none some
    | @serial _ child _ _ _ linked filled =>
      obtain ⟨leaf, listed, beneath⟩ := filled.exists_mem wellFormed (List.mem_singleton.2 rfl)
      refine ⟨child, ⟨linked, leaf, within leaf listed, beneath⟩, ?_⟩
      rintro other otherLinked ⟨otherLeaf, otherListed, otherBeneath⟩
      have upper := wellFormed.beneath_of_child otherLinked
      have met := cut.mem_inside otherListed (upper.trans otherBeneath)
      obtain ⟨_, above, only, beneathChild⟩ := filled.of_mem wellFormed met
      rw [List.mem_singleton.1 only] at beneathChild
      exact wellFormed.child_eq otherLinked linked otherBeneath beneathChild
    | parallel _ _ parallel _ =>
      rw [alone] at parallel
      cases parallel
  · intro state isActive parallel child linked
    obtain ⟨before, inside, after, cut⟩ := fills.focus_root wellFormed isActive
    exact cut.active_child wellFormed parallel linked

/-- Below a root that is not parallel, what is active is always legal. -/
theorem Standing.legal (wellFormed : sections.WellFormed)
    (alone : (sections.record rootIndex).flags.parallel = false)
    (standing : sections.Standing active) : sections.Legal active := by
  obtain ⟨start, leaves, starts, same, fills⟩ := standing
  rcases starts with rfl | ⟨parallel, _⟩
  · exact (fills.legal wellFormed).of_perm same
  · rw [alone] at parallel
    cases parallel

/-! ### Legal leaves fill the root -/

/-- A state that is no leaf has the mark of one with children. -/
theorem WellFormed.composite_of_inner (wellFormed : sections.WellFormed) (has : sections.Has state)
    (inner : (sections.record state).isLeaf = false) :
    (sections.record state).flags.composite = true := by
  refine (wellFormed.composite_iff has).2 fun none => Bool.eq_false_iff.1 inner ?_
  exact wellFormed.isLeaf_iff.2 (by rw [IndexRange.words, none, List.map_nil])

namespace Legal

/-- Leaves that fill some states, if each of these is filled by the active leaves below it. -/
theorem exists_fills_of_forall {states : List UInt16}
    (each : ∀ state ∈ states, ∃ filled, sections.Fills [state] filled ∧
      ∀ leaf ∈ filled, leaf ∈ leaves) :
    ∃ filled, sections.Fills states filled ∧ ∀ leaf ∈ filled, leaf ∈ leaves := by
  induction states with
  | nil => exact ⟨[], .nil, fun _ listed => by cases listed⟩
  | cons state states ih =>
    obtain ⟨first, fills, among⟩ := each state (List.mem_cons_self ..)
    obtain ⟨rest, fillsRest, amongRest⟩ :=
      ih fun other later => each other (List.mem_cons_of_mem _ later)
    refine ⟨first ++ rest, fills.append fillsRest, fun leaf listed => ?_⟩
    exact (List.mem_append.1 listed).elim (among leaf) (amongRest leaf)

/-- An active state is filled by active leaves. -/
theorem exists_fills (wellFormed : sections.WellFormed) (legal : sections.Legal leaves)
    (state : UInt16) (isActive : sections.Active leaves state) :
    ∃ filled, sections.Fills [state] filled ∧ ∀ leaf ∈ filled, leaf ∈ leaves := by
  obtain ⟨leaf, listed, beneath⟩ := isActive
  have has := beneath.has_top
  cases childless : (sections.record state).isLeaf with
  | true =>
    obtain rfl := beneath.eq_of_isLeaf wellFormed childless
    exact ⟨[leaf], .leaf has childless .nil, fun other only => List.mem_singleton.1 only ▸ listed⟩
  | false =>
    cases parallel : (sections.record state).flags.parallel with
    | true =>
      have each : ∀ child ∈ (sections.record state).children.words, ∃ filled,
          sections.Fills [child] filled ∧ ∀ leaf ∈ filled, leaf ∈ leaves := by
        intro child own
        have linked := (wellFormed.mem_words has).1 own
        exact legal.exists_fills wellFormed child
          (legal.all state ⟨leaf, listed, beneath⟩ parallel child linked)
      obtain ⟨filled, fills, among⟩ := exists_fills_of_forall each
      exact ⟨filled, .parallel has childless parallel (by rwa [List.append_nil]), among⟩
    | false =>
      obtain ⟨child, ⟨linked, below⟩, -⟩ := legal.one state ⟨leaf, listed, beneath⟩
        (wellFormed.composite_of_inner has childless) parallel
      obtain ⟨filled, fills, among⟩ := legal.exists_fills wellFormed child below
      exact ⟨filled, .serial parallel linked fills, among⟩
termination_by 65536 - state.toNat
decreasing_by
  all_goals
    have := wellFormed.lt_of_child linked
    have := child.toNat_lt
    omega

/-- Two legal configurations of which one is among the other are the same. -/
theorem active_of_subset (wellFormed : sections.WellFormed) (legal : sections.Legal leaves)
    (other : sections.Legal active) (among : ∀ leaf ∈ active, leaf ∈ leaves)
    (isActive : sections.Active leaves state) : sections.Active active state := by
  have widen {state : UInt16} (inner : sections.Active active state) :
      sections.Active leaves state := by
    obtain ⟨leaf, listed, beneath⟩ := inner
    exact ⟨leaf, among leaf listed, beneath⟩
  have narrow {parent child : UInt16} (linked : sections.Child parent child)
      (below : sections.Active leaves child) : sections.Active leaves parent := by
    obtain ⟨leaf, listed, beneath⟩ := below
    exact ⟨leaf, listed, (wellFormed.beneath_of_child linked).trans beneath⟩
  have has : sections.Has state := by
    obtain ⟨_, _, beneath⟩ := isActive
    exact beneath.has_top
  induction wellFormed.beneath_root has with
  | self _ => exact other.root
  | @under parent child above linked ih =>
    have outer := narrow linked isActive
    have reached := ih outer above.has
    cases parallel : (sections.record parent).flags.parallel with
    | true => exact other.all parent reached parallel child linked
    | false =>
      have composite := wellFormed.composite_of_inner above.has (wellFormed.inner_of_child linked)
      obtain ⟨next, ⟨own, below⟩, -⟩ := other.one parent reached composite parallel
      obtain ⟨only, -, unique⟩ := legal.one parent outer composite parallel
      rwa [unique child linked isActive, ← unique next own (widen below)]

/-- The leaves of a legal configuration are those that fill the root, in some order. -/
theorem standing (wellFormed : sections.WellFormed) (legal : sections.Legal leaves) :
    sections.Standing leaves := by
  obtain ⟨filled, fills, among⟩ := legal.exists_fills wellFormed rootIndex legal.root
  have other := fills.legal wellFormed
  refine ⟨rootIndex, filled, .inl rfl, ?_, fills⟩
  refine (List.perm_ext_iff_of_nodup legal.nodup other.nodup).2 fun leaf => ⟨?_, among leaf⟩
  intro listed
  obtain ⟨has, childless⟩ := legal.childless leaf listed
  obtain ⟨inner, member, beneath⟩ :=
    legal.active_of_subset wellFormed other among ⟨leaf, listed, .self has⟩
  by_cases same : inner = leaf
  · exact same ▸ member
  · obtain ⟨child, linked, -⟩ := beneath.exists_child same
    exact absurd linked (childless child)

end Legal

end Statechart.Rom.Sections
