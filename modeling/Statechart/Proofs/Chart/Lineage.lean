/-
# Lineage

What lies above a state. In a graph every state has one parent at most, so the states above
a state form a chain (`Beneath.comparable`), and two children of one state are never both
above a third (`Rooted.eq_of_siblings`). Where parents end, the walks up the parent
links find exactly what lies above (`Rooted.isAncestorOrSelf_iff_beneath`).

Two states neither of which is above the other part somewhere: below one state they hang
from two different children (`Parts`). There is only one such state, and it is the first one
on the way up from either of them that is above both (`Parts.find_meeting`).
-/

import Mathlib.Data.Set.Card
import Statechart.Proofs.Chart.Sharing

namespace Statechart.Chart

namespace Graph

variable {graph : Graph} {top id parent child left right first second upper : StateId}

/-- A state is `top` itself or lies below it. -/
def Beneath (graph : Graph) (top id : StateId) : Prop :=
  Relation.ReflTransGen graph.HangsFrom id top

/-- A state lies at least one level below `top`. -/
def Below (graph : Graph) (top id : StateId) : Prop :=
  Relation.TransGen graph.HangsFrom id top

/-- The states on the way down from `top` to a state, without `top`. -/
def between (graph : Graph) (top id : StateId) : Set StateId :=
  { inner | graph.Below top inner ∧ graph.Beneath inner id }

theorem HangsFrom.unique (one : graph.HangsFrom child left) (other : graph.HangsFrom child right) :
    left = right :=
  Option.some.inj (one.symm.trans other)

theorem HangsFrom.below (link : graph.HangsFrom child parent) : graph.Below parent child :=
  .single link

theorem HangsFrom.beneath (link : graph.HangsFrom child parent) : graph.Beneath parent child :=
  .single link

namespace Beneath

theorem refl (id : StateId) : graph.Beneath id id :=
  Relation.ReflTransGen.refl

theorem trans (above : graph.Beneath top upper) (beneath : graph.Beneath upper id) :
    graph.Beneath top id :=
  Relation.ReflTransGen.trans beneath above

theorem trans_below (above : graph.Beneath top upper) (below : graph.Below upper id) :
    graph.Below top id :=
  Relation.TransGen.trans_left below above

/-- A state above another one is that state or above its parent. -/
theorem of_hangsFrom (link : graph.HangsFrom id parent) :
    graph.Beneath top id ↔ top = id ∨ graph.Beneath top parent := by
  constructor
  · intro beneath
    rcases Relation.ReflTransGen.cases_head_iff.1 beneath with same | ⟨other, otherLink, rest⟩
    · exact .inl same.symm
    · exact .inr (otherLink.unique link ▸ rest)
  · rintro (rfl | beneath)
    · exact refl top
    · exact beneath.trans link.beneath

/-- What lies beneath a state is the state or lies beneath one of its children. -/
theorem eq_or_exists_child (beneath : graph.Beneath top id) :
    id = top ∨ ∃ child, graph.HangsFrom child top ∧ graph.Beneath child id := by
  rcases Relation.ReflTransGen.cases_tail_iff .. |>.1 beneath with same | ⟨child, rest, link⟩
  · exact .inl same.symm
  · exact .inr ⟨child, link, rest⟩

/-- The states above a state form a chain. -/
theorem comparable (one : graph.Beneath first id) (other : graph.Beneath second id) :
    graph.Beneath first second ∨ graph.Beneath second first := by
  have unique : Relator.RightUnique graph.HangsFrom := fun _ _ _ => HangsFrom.unique
  exact (Relation.ReflTransGen.total_of_right_unique unique one other).symm

/-- On the way up from a state that lacks a property to one that has it there is a link where
the property begins. -/
theorem exists_link {holds : StateId → Prop} (beneath : graph.Beneath top id) (lacks : ¬holds id)
    (has : holds top) :
    ∃ child parent, graph.Beneath child id ∧ graph.HangsFrom child parent ∧ ¬holds child ∧
      holds parent := by
  induction beneath with
  | refl => exact absurd has lacks
  | @tail lower upper below link ih =>
    by_cases already : holds lower
    · exact ih already
    · exact ⟨lower, upper, below, link, already, has⟩

end Beneath

theorem Below.beneath (below : graph.Below top id) : graph.Beneath top id :=
  Relation.TransGen.to_reflTransGen below

theorem Below.trans_beneath (below : graph.Below top upper) (beneath : graph.Beneath upper id) :
    graph.Below top id :=
  Relation.TransGen.trans_right beneath below

/-! ### States whose parents end -/

/-- A way up consists of what lies above. -/
theorem Climbs.mem_iff_below {above : List StateId}
    (climbs : graph.Climbs (graph.state id).parent above) :
    top ∈ above ↔ graph.Below top id := by
  constructor
  · intro passed
    generalize start : (graph.state id).parent = next at climbs
    induction climbs generalizing id with
    | ended => cases passed
    | @next parent above _ ih =>
      rcases List.mem_cons.1 passed with rfl | later
      · exact .single start
      · exact .head start (ih later rfl)
  · intro below
    induction below with
    | single link =>
      rw [link] at climbs
      cases climbs with
      | next _ => exact List.mem_cons_self ..
    | tail _ link ih => exact climbs.mem_of_hangsFrom ih link

namespace Rooted

/-- The walk up from a state whose parents end finds what lies above it. -/
theorem isAncestorOrSelf_iff_beneath (rooted : graph.Rooted id) :
    graph.isAncestorOrSelf top id = true ↔ graph.Beneath top id := by
  obtain ⟨above, climbs⟩ := rooted
  rw [isAncestorOrSelf, climbs.climbsTo_iff climbs.length_le, List.mem_cons,
    climbs.mem_iff_below, Beneath, Relation.reflTransGen_iff_eq_or_transGen]
  rfl

theorem of_hangsFrom (rooted : graph.Rooted child) (link : graph.HangsFrom child parent) :
    graph.Rooted parent := by
  obtain ⟨above, climbs⟩ := rooted
  rw [link] at climbs
  cases climbs with
  | next rest => exact ⟨_, rest⟩

theorem of_beneath (rooted : graph.Rooted id) (beneath : graph.Beneath top id) :
    graph.Rooted top := by
  induction beneath with
  | refl => exact rooted
  | tail _ link ih => exact ih.of_hangsFrom link

/-- Two children of a state are not both above a third state. -/
theorem eq_of_siblings (rooted : graph.Rooted id) (one : graph.HangsFrom left parent)
    (other : graph.HangsFrom right parent) (leftAbove : graph.Beneath left id)
    (rightAbove : graph.Beneath right id) : left = right := by
  have apart {lower : StateId} (link : graph.HangsFrom lower parent)
      (above : graph.Beneath lower id) : ¬graph.Beneath lower parent := fun round =>
    (rooted.of_beneath above).acyclic (round.trans_below link.below)
  rcases leftAbove.comparable rightAbove with above | above
  · exact ((Beneath.of_hangsFrom other).1 above).resolve_right (apart one leftAbove)
  · exact (((Beneath.of_hangsFrom one).1 above).resolve_right (apart other rightAbove)).symm

theorem between_self (rooted : graph.Rooted id) : graph.between id id = ∅ := by
  refine Set.eq_empty_of_forall_notMem fun inner => ?_
  rintro ⟨below, beneath⟩
  exact rooted.acyclic (below.trans_beneath beneath)

/-- One more state lies between `top` and a child than between `top` and its parent. -/
theorem encard_between (rooted : graph.Rooted child) (link : graph.HangsFrom child parent)
    (beneath : graph.Beneath top parent) :
    (graph.between top child).encard = (graph.between top parent).encard + 1 := by
  have longer : graph.between top child = insert child (graph.between top parent) := by
    ext inner
    simp only [between, Set.mem_ofPred_eq, Set.mem_insert_iff, Beneath.of_hangsFrom link]
    constructor
    · rintro ⟨below, rfl | above⟩
      · exact .inl rfl
      · exact .inr ⟨below, above⟩
    · rintro (rfl | ⟨below, above⟩)
      · exact ⟨beneath.trans_below link.below, .inl rfl⟩
      · exact ⟨below, .inr above⟩
  have fresh : child ∉ graph.between top parent := fun member =>
    rooted.acyclic (member.2.trans_below link.below)
  rw [longer, Set.encard_insert_of_notMem fresh]

/-- The search through the states above a state ends where what is searched for begins. -/
theorem find?_properAncestors {found : StateId → Bool} (rooted : graph.Rooted id)
    (above : graph.Beneath child id) (link : graph.HangsFrom child parent)
    (passes : found parent = true)
    (fails : ∀ other, graph.Beneath child other → ¬found other = true) :
    (graph.properAncestors id).find? found = some parent := by
  induction above using Relation.ReflTransGen.head_induction_on with
  | refl =>
    rw [(rooted.of_hangsFrom link).properAncestors_eq link, List.find?_cons_of_pos passes]
  | @head lower upper step rest ih =>
    have rootedUpper := rooted.of_hangsFrom step
    rw [rootedUpper.properAncestors_eq step, List.find?_cons_of_neg (fails upper rest)]
    exact ih rootedUpper

end Rooted

/-! ### Where two states part -/

/-- Below `meeting`, the two states lie in different branches. -/
structure Parts (graph : Graph) (first second meeting left right : StateId) : Prop where
  leftLink : graph.HangsFrom left meeting
  rightLink : graph.HangsFrom right meeting
  differ : left ≠ right
  leftAbove : graph.Beneath left first
  rightAbove : graph.Beneath right second

/-- Two states below a common one part somewhere if neither is above the other. -/
theorem exists_parts (firstBelow : graph.Beneath top first)
    (secondBelow : graph.Beneath top second) (notAbove : ¬graph.Beneath first second)
    (notBelow : ¬graph.Beneath second first) :
    ∃ meeting left right, graph.Parts first second meeting left right := by
  obtain ⟨left, meeting, leftAbove, leftLink, leftApart, common⟩ :
      ∃ left meeting, graph.Beneath left first ∧ graph.HangsFrom left meeting ∧
        ¬graph.Beneath left second ∧ graph.Beneath meeting second :=
    firstBelow.exists_link notAbove secondBelow
  rcases common.eq_or_exists_child with rfl | ⟨right, rightLink, rightAbove⟩
  · exact absurd (leftLink.beneath.trans leftAbove) notBelow
  · refine ⟨meeting, left, right, leftLink, rightLink, ?_, leftAbove, rightAbove⟩
    rintro rfl
    exact leftApart rightAbove

namespace Parts

variable {meeting : StateId}

theorem symm (parts : graph.Parts first second meeting left right) :
    graph.Parts second first meeting right left :=
  ⟨parts.rightLink, parts.leftLink, parts.differ.symm, parts.rightAbove, parts.leftAbove⟩

theorem not_beneath (parts : graph.Parts first second meeting left right)
    (rooted : graph.Rooted second) : ¬graph.Beneath left second := fun beneath =>
  parts.differ (rooted.eq_of_siblings parts.leftLink parts.rightLink beneath parts.rightAbove)

/-- The first state on the way up from one that is also above the other is where they part. -/
theorem find_meeting (parts : graph.Parts first second meeting left right)
    (firstRooted : graph.Rooted first) (secondRooted : graph.Rooted second) :
    (graph.properAncestors first).find? (fun upper => graph.isAncestorOrSelf upper second) =
      some meeting := by
  refine firstRooted.find?_properAncestors parts.leftAbove parts.leftLink ?_ ?_
  · rw [secondRooted.isAncestorOrSelf_iff_beneath]
    exact parts.rightLink.beneath.trans parts.rightAbove
  · intro other above
    rw [secondRooted.isAncestorOrSelf_iff_beneath]
    exact fun beneath => parts.not_beneath secondRooted (above.trans beneath)

end Parts

/-! ### Hierarchies -/

namespace IsHierarchy

variable (hierarchy : graph.IsHierarchy)

include hierarchy

/-- In a hierarchy all parents end. -/
theorem rooted (id : StateId) : graph.Rooted id := by
  by_contra endless
  obtain ⟨count, period, positive, round⟩ := exists_periodic endless
  obtain ⟨steps, rfl⟩ := Nat.exists_eq_succ_of_ne_zero (Nat.ne_of_gt positive)
  have climb (further : Nat) :
      graph.Below (graph.above^[further + 1] (graph.above^[count] id))
        (graph.above^[count] id) := by
    induction further with
    | zero => exact .single (parent_of_not_rooted (not_rooted_iterate endless count)).1
    | succ further ih =>
      refine .tail ih ?_
      rw [Function.iterate_succ_apply' graph.above (further + 1)]
      exact (parent_of_not_rooted (not_rooted_iterate (not_rooted_iterate endless count) _)).1
  have same : graph.above^[steps + 1] (graph.above^[count] id) = graph.above^[count] id := round
  exact hierarchy.acyclic _ (same ▸ climb steps)

theorem mem_children (link : graph.HangsFrom child parent) :
    child ∈ (graph.state parent).children := by
  rw [← Array.count_pos_iff, hierarchy.count_children link]
  exact Nat.one_pos

theorem lt_stateCount_of_beneath (beneath : graph.Beneath top id)
    (inside : id < graph.stateCount) : top < graph.stateCount := by
  induction beneath with
  | refl => exact inside
  | tail _ link _ => exact lt_stateCount_of_child (hierarchy.mem_children link)

/-- Every state lies beneath the root. -/
theorem beneath_root (inside : id < graph.stateCount) : graph.Beneath rootId id := by
  obtain ⟨above, climbs⟩ := hierarchy.rooted id
  induction above generalizing id with
  | nil =>
    by_cases isRoot : id = rootId
    · exact isRoot ▸ Beneath.refl id
    · obtain ⟨parent, link⟩ := hierarchy.exists_parent inside isRoot
      rw [link] at climbs
      cases climbs
  | cons parent above ih =>
    generalize start : (graph.state id).parent = next at climbs
    cases climbs with
    | next rest =>
      have link : graph.HangsFrom id parent := start
      have parentInside := lt_stateCount_of_child (hierarchy.mem_children link)
      exact (ih parentInside rest).trans link.beneath

/-- Every state of a hierarchy stands in the breadth-first order. -/
theorem mem_breadthFirst (inside : id < graph.stateCount) : id ∈ graph.breadthFirst := by
  have inhabited := Nat.zero_lt_of_lt inside
  have beneath := hierarchy.beneath_root inside
  induction beneath using Relation.ReflTransGen.head_induction_on with
  | refl => exact rootId_mem_breadthFirst inhabited
  | head link rest ih =>
    have listed := hierarchy.mem_children link
    exact mem_breadthFirst_of_child inhabited (ih (lt_stateCount_of_child listed)) listed link

theorem layOut : graph.layOut.IsHierarchy where
  parent_root := by
    rw [parent_layOut]
    exact hierarchy.parent_root
  exists_parent inside other := by
    rw [hangsFrom_layOut]
    exact hierarchy.exists_parent (by simpa using inside) other
  acyclic id := by
    rw [hangsFrom_layOut]
    exact hierarchy.acyclic id
  count_children link := by
    rw [hangsFrom_layOut] at link
    rw [children_layOut]
    exact hierarchy.count_children link
  hangsFrom_of_child listed := by
    rw [children_layOut] at listed
    rw [hangsFrom_layOut]
    exact hierarchy.hangsFrom_of_child listed

end IsHierarchy

/-- Everything in the breadth-first order lies beneath the root. -/
theorem beneath_root_of_mem_breadthFirst (inhabited : 0 < graph.stateCount)
    (found : id ∈ graph.breadthFirst) : graph.Beneath rootId id := by
  obtain ⟨place, here⟩ := Array.mem_iff_getElem?.1 found
  induction place using Nat.strong_induction_on generalizing id with
  | _ place ih =>
    by_cases first : place = 0
    · subst first
      rw [getElem?_breadthFirst_zero inhabited] at here
      exact Option.some.inj here ▸ .refl rootId
    · obtain ⟨earlier, parent, before, there, link, -⟩ :=
        exists_parent_before inhabited here first
      exact (ih earlier before (Array.mem_of_getElem? there) there).trans (HangsFrom.beneath link)

/-- A graph whose links agree is a hierarchy if everything lies beneath the root. -/
theorem LinksAgree.isHierarchy (agree : graph.LinksAgree)
    (whole : ∀ id < graph.stateCount, graph.Beneath rootId id) : graph.IsHierarchy where
  parent_root := agree.parent_root
  exists_parent {id} inside other := by
    rcases Relation.ReflTransGen.cases_head_iff.1 (whole id inside) with same | ⟨parent, link, -⟩
    · exact absurd same other
    · exact ⟨parent, link⟩
  acyclic id round := by
    obtain ⟨parent, link, -⟩ := Relation.TransGen.head'_iff.1 round
    have beneath := whole id (lt_stateCount_of_parent link)
    have rooted : graph.Rooted id := by
      clear round link
      induction beneath using Relation.ReflTransGen.head_induction_on with
      | refl => exact ⟨[], agree.parent_root ▸ .ended⟩
      | head step _ ih => exact ih.of_parent step
    exact rooted.acyclic round
  count_children {id parent} link := by
    rw [← Array.count_toList]
    exact List.count_eq_one_of_mem (agree.nodup_children parent)
      (Array.mem_toList_iff.2 (agree.mem_children.2 link))
  hangsFrom_of_child listed := agree.mem_children.1 listed

end Graph

end Statechart.Chart
