/-
# Configurations of a hierarchy

A list of leaves stands for the set of states that are active: the leaves and everything
above them. The list is legal if this set contains the root, exactly one child of each of
its states that have children and are not parallel, and all children of its parallel states.

A configuration comes about by picking a child of every state that is not parallel: what
every link above it allows is active (`Picked`), and below each such state there is one
without children, since parents end. Whatever is picked, the result is legal
(`IsHierarchy.legal_pickedLeaves`).

So two states can be active together exactly when no choice is needed between them: where
they part, they lie in different regions (`IsHierarchy.together_iff`). Otherwise the same
child can be picked for both wherever there is a choice.
-/

import Statechart.Proofs.Chart.Lineage

namespace Statechart.Chart

namespace Graph

variable {graph : Graph} {leaves : List StateId} {pick : StateId → StateId}
  {top id parent child first second : StateId}

/-- A state is a leaf of the list or lies above one. -/
def Active (graph : Graph) (leaves : List StateId) (id : StateId) : Prop :=
  ∃ leaf ∈ leaves, graph.Beneath id leaf

/-- Leaves that form a configuration of the machine with everything above them. -/
structure Legal (graph : Graph) (leaves : List StateId) : Prop where
  nodup : leaves.Nodup
  childless : ∀ leaf ∈ leaves, leaf < graph.stateCount ∧ ∀ child, ¬graph.HangsFrom child leaf
  root : graph.Active leaves rootId
  /-- A state with children that is not parallel has one active child. -/
  one : ∀ id, graph.Active leaves id → (graph.state id).parallel = false →
    (∃ child, graph.HangsFrom child id) →
    ∃! child, graph.HangsFrom child id ∧ graph.Active leaves child
  /-- All children of a parallel state are active. -/
  all : ∀ id, graph.Active leaves id → (graph.state id).parallel = true →
    ∀ child, graph.HangsFrom child id → graph.Active leaves child

/-- Two states are active in the same legal configuration. -/
def Together (graph : Graph) (first second : StateId) : Prop :=
  ∃ leaves, graph.Legal leaves ∧ graph.Active leaves first ∧ graph.Active leaves second

theorem Active.of_beneath (active : graph.Active leaves id) (above : graph.Beneath top id) :
    graph.Active leaves top := by
  obtain ⟨leaf, listed, beneath⟩ := active
  exact ⟨leaf, listed, above.trans beneath⟩

/-! ### Picking children -/

/-- A child is picked of every state that has one. -/
def Picks (graph : Graph) (pick : StateId → StateId) : Prop :=
  ∀ parent child, graph.HangsFrom child parent → graph.HangsFrom (pick parent) parent

/-- From the root down to a state, it is always the picked child that follows a state that is
not parallel. -/
def Picked (graph : Graph) (pick : StateId → StateId) (id : StateId) : Prop :=
  ∀ lower upper, graph.Beneath lower id → graph.HangsFrom lower upper →
    (graph.state upper).parallel = false → pick upper = lower

namespace Picked

theorem of_beneath (picked : graph.Picked pick id) (above : graph.Beneath top id) :
    graph.Picked pick top := fun lower upper beneath =>
  picked lower upper (beneath.trans above)

theorem of_hangsFrom (picked : graph.Picked pick parent) (link : graph.HangsFrom child parent)
    (follows : (graph.state parent).parallel = false → pick parent = child) :
    graph.Picked pick child := by
  intro lower upper beneath lowerLink alone
  rcases (Beneath.of_hangsFrom link).1 beneath with rfl | above
  · obtain rfl := lowerLink.unique link
    exact follows alone
  · exact picked lower upper above lowerLink alone

end Picked

open Classical in
/-- The states without children among the picked ones. -/
noncomputable def pickedLeaves (graph : Graph) (pick : StateId → StateId) : List StateId :=
  (List.range graph.stateCount).filter fun id =>
    graph.Picked pick id ∧ ∀ child, ¬graph.HangsFrom child id

theorem mem_pickedLeaves :
    id ∈ graph.pickedLeaves pick ↔
      id < graph.stateCount ∧ graph.Picked pick id ∧ ∀ child, ¬graph.HangsFrom child id := by
  simp only [pickedLeaves, List.mem_filter, List.mem_range, decide_eq_true_eq]

/-- Below a picked state there is one without children. -/
theorem active_of_picked (picks : graph.Picks pick) {id : StateId}
    (inside : id < graph.stateCount) (picked : graph.Picked pick id) {above : List StateId}
    (climbs : graph.Climbs (graph.state id).parent above) :
    graph.Active (graph.pickedLeaves pick) id := by
  by_cases childless : ∀ child, ¬graph.HangsFrom child id
  · exact ⟨id, mem_pickedLeaves.2 ⟨inside, picked, childless⟩, .refl id⟩
  · obtain ⟨some, someLink⟩ : ∃ child, graph.HangsFrom child id := by simpa using childless
    obtain ⟨child, link, follows⟩ : ∃ child, graph.HangsFrom child id ∧
        ((graph.state id).parallel = false → pick id = child) := by
      cases parallel : (graph.state id).parallel with
      | true => exact ⟨some, someLink, nofun⟩
      | false => exact ⟨pick id, picks id some someLink, fun _ => rfl⟩
    have longer : graph.Climbs (graph.state child).parent (id :: above) := link.symm ▸ .next climbs
    have short := longer.length_le
    exact (active_of_picked picks (lt_stateCount_of_parent link)
      (picked.of_hangsFrom link follows) longer).of_beneath link.beneath
termination_by graph.stateCount - above.length
decreasing_by
  rw [List.length_cons] at short ⊢
  omega

namespace IsHierarchy

variable (hierarchy : graph.IsHierarchy)

include hierarchy

theorem picked_root : graph.Picked pick rootId := by
  intro lower upper beneath link
  rcases Relation.ReflTransGen.cases_head_iff.1 beneath with rfl | ⟨parent, above, -⟩
  · rw [HangsFrom, hierarchy.parent_root] at link
    cases link
  · rw [HangsFrom, hierarchy.parent_root] at above
    cases above

/-- The picked states are those that are active. -/
theorem active_pickedLeaves (picks : graph.Picks pick) (inside : id < graph.stateCount) :
    graph.Active (graph.pickedLeaves pick) id ↔ graph.Picked pick id := by
  constructor
  · rintro ⟨leaf, listed, beneath⟩
    exact (mem_pickedLeaves.1 listed).2.1.of_beneath beneath
  · intro picked
    obtain ⟨above, climbs⟩ := hierarchy.rooted id
    exact active_of_picked picks inside picked climbs

/-- Picking a child wherever there is a choice leads to a configuration. -/
theorem legal_pickedLeaves (picks : graph.Picks pick) (inhabited : 0 < graph.stateCount) :
    graph.Legal (graph.pickedLeaves pick) where
  nodup := List.nodup_range.filter _
  childless leaf listed := by
    obtain ⟨inside, -, childless⟩ := mem_pickedLeaves.1 listed
    exact ⟨inside, childless⟩
  root := (hierarchy.active_pickedLeaves picks inhabited).2 hierarchy.picked_root
  one id active alone := by
    rintro ⟨some, someLink⟩
    have link := picks id some someLink
    have inside := lt_stateCount_of_child (hierarchy.mem_children link)
    have picked := (hierarchy.active_pickedLeaves picks inside).1 active
    refine ⟨pick id, ⟨link, ?_⟩, fun other => ?_⟩
    · exact (hierarchy.active_pickedLeaves picks (lt_stateCount_of_parent link)).2
        (picked.of_hangsFrom link fun _ => rfl)
    · rintro ⟨otherLink, otherActive⟩
      have otherPicked := (hierarchy.active_pickedLeaves picks
        (lt_stateCount_of_parent otherLink)).1 otherActive
      exact (otherPicked other id (.refl other) otherLink alone).symm
  all id active parallel child link := by
    have inside := lt_stateCount_of_child (hierarchy.mem_children link)
    refine (hierarchy.active_pickedLeaves picks (lt_stateCount_of_parent link)).2 ?_
    refine ((hierarchy.active_pickedLeaves picks inside).1 active).of_hangsFrom link fun alone => ?_
    rw [parallel] at alone
    cases alone

end IsHierarchy

/-! ### Two states at once -/

/-- A child leads on to one of two states. -/
def LeadsTo (graph : Graph) (first second parent child : StateId) : Prop :=
  graph.HangsFrom child parent ∧ (graph.Beneath child first ∨ graph.Beneath child second)

open Classical in
/-- The child to pick of a state to reach two others: one that leads there if there is one. -/
noncomputable def steer (graph : Graph) (first second parent : StateId) : StateId :=
  if onward : ∃ child, graph.LeadsTo first second parent child then onward.choose
  else if other : ∃ child, graph.HangsFrom child parent then other.choose
  else parent

theorem picks_steer (graph : Graph) (first second : StateId) :
    graph.Picks (graph.steer first second) := by
  intro parent child link
  unfold steer
  split
  · rename_i onward
    exact onward.choose_spec.1
  · rw [dif_pos ⟨child, link⟩]
    exact Exists.choose_spec (⟨child, link⟩ : ∃ child, graph.HangsFrom child parent)

theorem leadsTo_steer (leads : graph.LeadsTo first second parent child) :
    graph.LeadsTo first second parent (graph.steer first second parent) := by
  have onward : ∃ child, graph.LeadsTo first second parent child := ⟨child, leads⟩
  rw [steer, dif_pos onward]
  exact onward.choose_spec

namespace IsHierarchy

variable (hierarchy : graph.IsHierarchy)

include hierarchy

/-- If two states part below parallel states only, picking what leads to one of them reaches
both. -/
theorem picked_steer
    (regions : ∀ meeting left right, graph.Parts first second meeting left right →
      (graph.state meeting).parallel = true) :
    graph.Picked (graph.steer first second) first ∧
      graph.Picked (graph.steer first second) second := by
  have same {lower other upper : StateId} (leads : graph.LeadsTo first second upper lower)
      (also : graph.LeadsTo first second upper other)
      (alone : (graph.state upper).parallel = false) : lower = other := by
    by_contra differ
    obtain ⟨link, above⟩ := leads
    obtain ⟨otherLink, otherAbove⟩ := also
    have apart {left right : StateId} (leftLink : graph.HangsFrom left upper)
        (rightLink : graph.HangsFrom right upper) (distinct : left ≠ right)
        (leftAbove : graph.Beneath left first) (rightAbove : graph.Beneath right second) :
        False := by
      have parallel := regions upper left right
        ⟨leftLink, rightLink, distinct, leftAbove, rightAbove⟩
      rw [alone] at parallel
      cases parallel
    rcases above with toFirst | toSecond <;> rcases otherAbove with otherFirst | otherSecond
    · exact differ ((hierarchy.rooted first).eq_of_siblings link otherLink toFirst otherFirst)
    · exact apart link otherLink differ toFirst otherSecond
    · exact apart otherLink link (Ne.symm differ) otherFirst toSecond
    · exact differ ((hierarchy.rooted second).eq_of_siblings link otherLink toSecond otherSecond)
  constructor
  · intro lower upper beneath link alone
    have leads : graph.LeadsTo first second upper lower := ⟨link, .inl beneath⟩
    exact same (leadsTo_steer leads) leads alone
  · intro lower upper beneath link alone
    have leads : graph.LeadsTo first second upper lower := ⟨link, .inr beneath⟩
    exact same (leadsTo_steer leads) leads alone

/-- Two states can be active together exactly when they part below parallel states only. -/
theorem together_iff (firstInside : first < graph.stateCount)
    (secondInside : second < graph.stateCount) :
    graph.Together first second ↔
      ∀ meeting left right, graph.Parts first second meeting left right →
        (graph.state meeting).parallel = true := by
  constructor
  · rintro ⟨leaves, legal, firstActive, secondActive⟩ meeting left right parts
    apply Bool.of_not_eq_false
    intro alone
    have leftActive := firstActive.of_beneath parts.leftAbove
    have rightActive := secondActive.of_beneath parts.rightAbove
    obtain ⟨only, -, unique⟩ := legal.one meeting (leftActive.of_beneath parts.leftLink.beneath)
      alone ⟨left, parts.leftLink⟩
    have leftOnly := unique left ⟨parts.leftLink, leftActive⟩
    have rightOnly := unique right ⟨parts.rightLink, rightActive⟩
    exact parts.differ (leftOnly.trans rightOnly.symm)
  · intro regions
    have picks := picks_steer graph first second
    obtain ⟨firstPicked, secondPicked⟩ := hierarchy.picked_steer regions
    exact ⟨_, hierarchy.legal_pickedLeaves picks (Nat.zero_lt_of_lt firstInside),
      (hierarchy.active_pickedLeaves picks firstInside).2 firstPicked,
      (hierarchy.active_pickedLeaves picks secondInside).2 secondPicked⟩

end IsHierarchy

end Graph

end Statechart.Chart
