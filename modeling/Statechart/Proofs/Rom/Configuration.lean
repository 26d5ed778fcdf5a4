/-
# Configurations

Which leaves are active together. `Fills` unfolds a list of active states down to leaves:
a state with children that is not parallel hands over to one of them, a parallel state to
all of them. Each state has room for a number of leaves below it (`width`), and no way of
filling an agenda takes more.

A transition exchanges the part of a configuration below one state. `Fills.focus` cuts a
configuration at any state that is active: the leaves below the state stand together, they
fill the state, and any other way of filling it fits in their place. `Standing.vacate` is
the form in which this is used: what a transition leaves in place is completed by whatever
fills a child of the state that it stays within.
-/

import Mathlib.Algebra.GroupWithZero.Nat
import Statechart.Proofs.Rom.Capacity
import Statechart.Proofs.Rom.Tree

namespace Statechart.Rom

namespace Sections

variable {sections : Sections} {top state child : UInt16}

/-- How many leaves can be active below a state. -/
def width (sections : Sections) (state : UInt16) : Nat :=
  match Shape.leafCounts sections.states with
  | .ok counts => counts.getD state.toNat 0
  | .error _ => 0

/-- Every state of an agenda is active, and `leaves` are the active leaves below them. -/
inductive Fills (sections : Sections) : List UInt16 → List UInt16 → Prop
  | nil : Fills sections [] []
  | leaf {state : UInt16} {rest leaves : List UInt16} : sections.Has state →
      (sections.record state).isLeaf = true → Fills sections rest leaves →
      Fills sections (state :: rest) (state :: leaves)
  | serial {state child : UInt16} {rest leaves : List UInt16} :
      (sections.record state).flags.parallel = false → sections.Child state child →
      Fills sections (child :: rest) leaves → Fills sections (state :: rest) leaves
  | parallel {state : UInt16} {rest leaves : List UInt16} : sections.Has state →
      (sections.record state).isLeaf = false → (sections.record state).flags.parallel = true →
      Fills sections ((sections.record state).children.words ++ rest) leaves →
      Fills sections (state :: rest) leaves

/-- Neither of two states is above the other. -/
def Incomparable (sections : Sections) (first second : UInt16) : Prop :=
  ¬ sections.Beneath first second ∧ ¬ sections.Beneath second first

/-- States none of which is above another. -/
def Apart (sections : Sections) (agenda : List UInt16) : Prop :=
  agenda.Pairwise sections.Incomparable

/-! ### Widths -/

namespace WellFormed

theorem width_eq (wellFormed : sections.WellFormed) (has : sections.Has state) :
    sections.width state =
      if (sections.record state).isLeaf then 1
      else if (sections.record state).flags.parallel then
        ((sections.record state).children.words.map sections.width).sum
      else ((sections.record state).children.words.map sections.width).foldl max 0 := by
  obtain ⟨counts, found, counted⟩ := wellFormed.exists_leafCounts
  have width (state : UInt16) : sections.width state = counts.getD state.toNat 0 := by
    rw [Sections.width, found]
  have children : (sections.record state).children.words.map sections.width =
      (sections.record state).children.toList.map fun child => counts.getD child 0 := by
    rw [IndexRange.words, List.map_map]
    apply List.map_congr_left
    intro child listed
    have inside := ((wellFormed.mem_children has).1 listed).1
    have small : sections.states.size ≤ 65535 := wellFormed.size_le
    rw [Function.comp_apply, width, UInt16.toNat_ofNat_of_lt' (show child < 65536 by omega)]
  rw [children, width, counted.count_eq has, List.sum_eq_foldl]
  rfl

/-- A child has no more room than its parent. -/
theorem width_child_le (wellFormed : sections.WellFormed) (linked : sections.Child top child) :
    sections.width child ≤ sections.width top := by
  have has := wellFormed.has_of_child linked
  have listed := (wellFormed.mem_words has).2 linked
  have counted := List.mem_map_of_mem (f := sections.width) listed
  rw [wellFormed.width_eq has, if_neg (Bool.eq_false_iff.1 (wellFormed.inner_of_child linked))]
  split
  · obtain ⟨before, after, split⟩ := List.append_of_mem listed
    rw [split, List.map_append, List.map_cons, List.sum_append, List.sum_cons]
    omega
  · rw [List.foldl_max_eq_max (List.ne_nil_of_mem counted)]
    exact Nat.le_trans (List.le_max_of_mem counted) (Nat.le_max_right _ _)

theorem width_parallel (wellFormed : sections.WellFormed) (has : sections.Has state)
    (inner : (sections.record state).isLeaf = false)
    (parallel : (sections.record state).flags.parallel = true) :
    sections.width state = ((sections.record state).children.words.map sections.width).sum := by
  rw [wellFormed.width_eq has, if_neg (by rw [inner]; decide), if_pos parallel]

theorem width_leaf (wellFormed : sections.WellFormed) (has : sections.Has state)
    (leaf : (sections.record state).isLeaf = true) : sections.width state = 1 := by
  rw [wellFormed.width_eq has, if_pos leaf]

end WellFormed

/-- A shape counts the leaves below the root. -/
theorem width_root_le {shape : Shape} (wellFormed : sections.WellFormed)
    (shaped : Shape.ofSections sections = .ok shape) :
    sections.width rootIndex ≤ shape.maxLeaves := by
  obtain ⟨counts, found, _⟩ := wellFormed.exists_leafCounts
  rw [Shape.ofSections, found] at shaped
  cases shaped
  rw [width, found]
  exact Nat.le_max_left _ _

/-! ### Filling an agenda -/

namespace Fills

variable {agenda front back leaves : List UInt16}

theorem append {others : List UInt16} (fills : sections.Fills front leaves)
    (next : sections.Fills back others) : sections.Fills (front ++ back) (leaves ++ others) := by
  induction fills with
  | nil => exact next
  | leaf has childless _ ih => exact .leaf has childless ih
  | serial alone linked _ ih => exact .serial alone linked ih
  | parallel has inner parallel _ ih =>
    rw [List.append_assoc] at ih
    exact .parallel has inner parallel ih

theorem split (fills : sections.Fills (front ++ back) leaves) :
    ∃ first second, leaves = first ++ second ∧ sections.Fills front first ∧
      sections.Fills back second := by
  generalize whole : front ++ back = agenda at fills
  induction fills generalizing front with
  | nil =>
    obtain ⟨rfl, rfl⟩ := List.append_eq_nil_iff.1 whole
    exact ⟨[], [], rfl, .nil, .nil⟩
  | @leaf state rest leaves has childless tail ih =>
    cases front with
    | nil =>
      subst whole
      exact ⟨[], _, rfl, .nil, .leaf has childless tail⟩
    | cons first front =>
      cases whole
      obtain ⟨before, after, rfl, filled, others⟩ := ih rfl
      exact ⟨state :: before, after, rfl, .leaf has childless filled, others⟩
  | serial alone linked tail ih =>
    cases front with
    | nil =>
      subst whole
      exact ⟨[], _, rfl, .nil, .serial alone linked tail⟩
    | cons first front =>
      cases whole
      obtain ⟨before, after, rfl, filled, others⟩ := @ih (_ :: front) rfl
      exact ⟨before, after, rfl, .serial alone linked filled, others⟩
  | parallel has inner parallel tail ih =>
    cases front with
    | nil =>
      subst whole
      exact ⟨[], _, rfl, .nil, .parallel has inner parallel tail⟩
    | cons first front =>
      cases whole
      obtain ⟨before, after, rfl, filled, others⟩ := ih (List.append_assoc ..)
      exact ⟨before, after, rfl, .parallel has inner parallel filled, others⟩

/-- Only leaves below the agenda are active. -/
theorem of_mem (wellFormed : sections.WellFormed) (fills : sections.Fills agenda leaves)
    {leaf : UInt16} (listed : leaf ∈ leaves) :
    (sections.record leaf).isLeaf = true ∧ ∃ state ∈ agenda, sections.Beneath state leaf := by
  induction fills with
  | nil => cases listed
  | @leaf state rest leaves has childless _ ih =>
    rcases List.mem_cons.1 listed with rfl | later
    · exact ⟨childless, leaf, List.mem_cons_self .., .self has⟩
    · obtain ⟨isLeaf, above, member, beneath⟩ := ih later
      exact ⟨isLeaf, above, List.mem_cons_of_mem _ member, beneath⟩
  | @serial state child rest leaves _ linked _ ih =>
    obtain ⟨isLeaf, above, member, beneath⟩ := ih listed
    refine ⟨isLeaf, ?_⟩
    rcases List.mem_cons.1 member with rfl | later
    · have upper := wellFormed.beneath_of_child linked
      exact ⟨state, List.mem_cons_self .., upper.trans beneath⟩
    · exact ⟨above, List.mem_cons_of_mem _ later, beneath⟩
  | @parallel state rest leaves has _ _ _ ih =>
    obtain ⟨isLeaf, above, member, beneath⟩ := ih listed
    refine ⟨isLeaf, ?_⟩
    rcases List.mem_append.1 member with own | later
    · have upper := wellFormed.beneath_of_child ((wellFormed.mem_words has).1 own)
      exact ⟨state, List.mem_cons_self .., upper.trans beneath⟩
    · exact ⟨above, List.mem_cons_of_mem _ later, beneath⟩

/-- Every state of the agenda has an active leaf. -/
theorem exists_mem (wellFormed : sections.WellFormed) (fills : sections.Fills agenda leaves)
    (listed : state ∈ agenda) : ∃ leaf ∈ leaves, sections.Beneath state leaf := by
  induction fills generalizing state with
  | nil => cases listed
  | @leaf head rest leaves has childless _ ih =>
    rcases List.mem_cons.1 listed with rfl | later
    · exact ⟨state, List.mem_cons_self .., .self has⟩
    · obtain ⟨leaf, member, beneath⟩ := ih later
      exact ⟨leaf, List.mem_cons_of_mem _ member, beneath⟩
  | serial _ linked _ ih =>
    rcases List.mem_cons.1 listed with rfl | later
    · obtain ⟨leaf, member, beneath⟩ := ih (List.mem_cons_self ..)
      exact ⟨leaf, member, (wellFormed.beneath_of_child linked).trans beneath⟩
    · exact ih (List.mem_cons_of_mem _ later)
  | @parallel head rest leaves has inner _ _ ih =>
    rcases List.mem_cons.1 listed with rfl | later
    · obtain ⟨child, linked⟩ := wellFormed.exists_child has inner
      have own := (wellFormed.mem_words has).2 linked
      obtain ⟨leaf, member, beneath⟩ := ih (List.mem_append_left _ own)
      exact ⟨leaf, member, (wellFormed.beneath_of_child linked).trans beneath⟩
    · exact ih (List.mem_append_right _ later)

/-- No more leaves are active than there is room for. -/
theorem length_le (wellFormed : sections.WellFormed) (fills : sections.Fills agenda leaves) :
    leaves.length ≤ (agenda.map sections.width).sum := by
  induction fills with
  | nil => exact Nat.le_refl 0
  | leaf has childless _ ih =>
    rw [List.map_cons, List.sum_cons, wellFormed.width_leaf has childless, List.length_cons]
    omega
  | serial _ linked _ ih =>
    have narrower := wellFormed.width_child_le linked
    rw [List.map_cons, List.sum_cons] at ih ⊢
    omega
  | parallel has inner parallel _ ih =>
    rw [List.map_append, List.sum_append, ← wellFormed.width_parallel has inner parallel] at ih
    rw [List.map_cons, List.sum_cons]
    exact ih

end Fills

/-! ### States apart -/

namespace Apart

variable {agenda : List UInt16}

theorem singleton : sections.Apart [state] :=
  List.pairwise_singleton ..

/-- The children of a state are apart. -/
theorem words (wellFormed : sections.WellFormed) (has : sections.Has top) :
    sections.Apart (sections.record top).children.words := by
  refine (wellFormed.nodup_words has).imp_of_mem fun inFirst inSecond differ => ?_
  have first := (wellFormed.mem_words has).1 inFirst
  have second := (wellFormed.mem_words has).1 inSecond
  exact ⟨fun beneath => differ (wellFormed.child_eq first second beneath (.self second.has)),
    fun beneath => differ (wellFormed.child_eq first second (.self first.has) beneath)⟩

/-- States at different places have no state in common. -/
theorem not_beneath {first second leaf : UInt16} (apart : sections.Incomparable first second)
    (beneath : sections.Beneath first leaf) : ¬ sections.Beneath second leaf := fun other =>
  (beneath.comparable other).elim apart.1 apart.2

end Apart

/-- A leaf is not left when everything below `top` is. -/
def Beside (sections : Sections) (top leaf : UInt16) : Prop :=
  leaf = top ∨ ¬ sections.Beneath top leaf

/-- A cut through a configuration at one active state: the leaves below it, those in front
of them and those behind. -/
structure Focus (sections : Sections) (agenda leaves : List UInt16) (top : UInt16)
    (before inside after : List UInt16) : Prop where
  leaves_eq : leaves = before ++ inside ++ after
  fills : sections.Fills [top] inside
  refill : ∀ other, sections.Fills [top] other →
    sections.Fills agenda (before ++ other ++ after)
  beside : ∀ leaf ∈ before ++ after, ¬ sections.Beneath top leaf
  room : before.length + after.length + sections.width top ≤ (agenda.map sections.width).sum

namespace Focus

variable {agenda leaves before inside after : List UInt16}

theorem mem_inside (cut : sections.Focus agenda leaves top before inside after) {leaf : UInt16}
    (listed : leaf ∈ leaves) (beneath : sections.Beneath top leaf) : leaf ∈ inside := by
  rw [cut.leaves_eq, List.append_assoc] at listed
  rcases List.mem_append.1 listed with inFront | others
  · exact absurd beneath (cut.beside leaf (List.mem_append_left _ inFront))
  · rcases List.mem_append.1 others with found | inBack
    · exact found
    · exact absurd beneath (cut.beside leaf (List.mem_append_right _ inBack))

/-- A cut within a cut. -/
theorem trans (outer : sections.Focus agenda leaves top before inside after)
    {first second third : List UInt16} (upper : sections.Beneath top state)
    (inner : sections.Focus [top] inside state first second third) :
    sections.Focus agenda leaves state (before ++ first) second (third ++ after) where
  leaves_eq := by
    rw [outer.leaves_eq, inner.leaves_eq]
    simp only [List.append_assoc]
  fills := inner.fills
  refill := fun other fills => by
    have whole := outer.refill _ (inner.refill other fills)
    simpa only [List.append_assoc] using whole
  beside := fun leaf listed => by
    rcases List.mem_append.1 listed with left | right
    · rcases List.mem_append.1 left with outside | within
      · exact fun beneath => outer.beside leaf (List.mem_append_left _ outside)
          (upper.trans beneath)
      · exact inner.beside leaf (List.mem_append_left _ within)
    · rcases List.mem_append.1 right with within | outside
      · exact inner.beside leaf (List.mem_append_right _ within)
      · exact fun beneath => outer.beside leaf (List.mem_append_right _ outside)
          (upper.trans beneath)
  room := by
    have wide := outer.room
    have narrow := inner.room
    rw [List.map_singleton, List.sum_singleton] at narrow
    rw [List.length_append, List.length_append]
    omega

/-- An agenda whose states are apart is cut at any of them. -/
theorem of_mem (wellFormed : sections.WellFormed) (fills : sections.Fills agenda leaves)
    (apart : sections.Apart agenda) (listed : top ∈ agenda) :
    ∃ before inside after, sections.Focus agenda leaves top before inside after := by
  obtain ⟨front, back, rfl⟩ := List.append_of_mem listed
  obtain ⟨before, others, rfl, filledFront, filledRest⟩ := fills.split
  have both : sections.Fills ([top] ++ back) others := filledRest
  obtain ⟨inside, after, rfl, filled, filledBack⟩ := both.split
  obtain ⟨_, apartRest, across⟩ := List.pairwise_append.1 apart
  have behind := (List.pairwise_cons.1 apartRest).1
  refine ⟨before, inside, after, ?_⟩
  exact {
    leaves_eq := (List.append_assoc ..).symm
    fills := filled
    refill := fun other fills => by
      rw [List.append_assoc]
      exact filledFront.append (fills.append filledBack)
    beside := fun leaf listed beneath => by
      rcases List.mem_append.1 listed with inFront | inBack
      · obtain ⟨_, above, member, upper⟩ := filledFront.of_mem wellFormed inFront
        exact Apart.not_beneath (across above member top (List.mem_cons_self ..)) upper beneath
      · obtain ⟨_, above, member, upper⟩ := filledBack.of_mem wellFormed inBack
        exact Apart.not_beneath (behind above member) beneath upper
    room := by
      have fronts := filledFront.length_le wellFormed
      have backs := filledBack.length_le wellFormed
      rw [List.map_append, List.map_cons, List.sum_append, List.sum_cons]
      omega }

/-- A filled state is cut at the child that is active. -/
theorem of_child (wellFormed : sections.WellFormed) (fills : sections.Fills [top] leaves)
    (linked : sections.Child top child) {leaf : UInt16} (listed : leaf ∈ leaves)
    (beneath : sections.Beneath child leaf) :
    ∃ before inside after, sections.Focus [top] leaves child before inside after := by
  cases fills with
  | leaf has childless _ => exact absurd linked (wellFormed.not_child childless)
  | @serial _ other _ _ alone otherLinked filled =>
    obtain ⟨_, above, member, upper⟩ := filled.of_mem wellFormed listed
    obtain rfl : above = other := List.mem_singleton.1 member
    obtain rfl := wellFormed.child_eq linked otherLinked beneath upper
    refine ⟨[], leaves, [], ?_⟩
    exact {
      leaves_eq := by rw [List.nil_append, List.append_nil]
      fills := filled
      refill := fun other fills => by
        rw [List.nil_append, List.append_nil]
        exact .serial alone linked fills
      beside := fun leaf listed => by cases listed
      room := by
        have narrower := wellFormed.width_child_le linked
        simpa using narrower }
  | parallel has inner parallel filled =>
    rw [List.append_nil] at filled
    have own := (wellFormed.mem_words has).2 linked
    obtain ⟨before, inside, after, cut⟩ :=
      of_mem wellFormed filled (Apart.words wellFormed has) own
    refine ⟨before, inside, after, ?_⟩
    exact { cut with
      refill := fun other fills =>
        .parallel has inner parallel (by simpa using cut.refill other fills)
      room := by
        rw [List.map_singleton, List.sum_singleton, wellFormed.width_parallel has inner parallel]
        exact cut.room }

open Classical in
/-- What stays when everything below a state is left. -/
theorem filter_eq (wellFormed : sections.WellFormed)
    (cut : sections.Focus agenda leaves top before inside after)
    (inner : (sections.record top).isLeaf = false) :
    leaves.filter (fun leaf => sections.Beside top leaf) = before ++ after := by
  have front : before.filter (fun leaf => sections.Beside top leaf) = before :=
    List.filter_eq_self.2 fun leaf listed =>
      decide_eq_true (.inr (cut.beside leaf (List.mem_append_left _ listed)))
  have back : after.filter (fun leaf => sections.Beside top leaf) = after :=
    List.filter_eq_self.2 fun leaf listed =>
      decide_eq_true (.inr (cut.beside leaf (List.mem_append_right _ listed)))
  have gone : inside.filter (fun leaf => sections.Beside top leaf) = [] := by
    apply List.filter_eq_nil_iff.2
    intro leaf listed kept
    obtain ⟨childless, above, only, met⟩ := cut.fills.of_mem wellFormed listed
    rw [List.mem_singleton.1 only] at met
    rcases of_decide_eq_true kept with rfl | other
    · rw [inner] at childless
      cases childless
    · exact other met
  rw [cut.leaves_eq, List.filter_append, List.filter_append, front, back, gone, List.append_nil]

end Focus

/-- A configuration is cut at any active state below its agenda. -/
theorem Fills.focus (wellFormed : sections.WellFormed) {agenda leaves : List UInt16}
    (fills : sections.Fills agenda leaves) (apart : sections.Apart agenda) {start leaf : UInt16}
    (starts : start ∈ agenda) (below : sections.Beneath start top) (listed : leaf ∈ leaves)
    (beneath : sections.Beneath top leaf) :
    ∃ before inside after, sections.Focus agenda leaves top before inside after := by
  induction below with
  | self _ => exact Focus.of_mem wellFormed fills apart starts
  | @under parent top above linked ih =>
    have upper := wellFormed.beneath_of_child linked
    obtain ⟨before, inside, after, outer⟩ := ih (upper.trans beneath)
    have within := outer.mem_inside listed (upper.trans beneath)
    obtain ⟨first, second, third, inner⟩ :=
      Focus.of_child wellFormed outer.fills linked within beneath
    exact ⟨_, _, _, outer.trans upper inner⟩

/-- Leaves of states that are apart are different. -/
theorem Fills.nodup (wellFormed : sections.WellFormed) {agenda leaves : List UInt16}
    (fills : sections.Fills agenda leaves) (apart : sections.Apart agenda) : leaves.Nodup := by
  induction fills with
  | nil => exact .nil
  | @leaf state rest leaves _ _ filled ih =>
    obtain ⟨behind, others⟩ := List.pairwise_cons.1 apart
    refine List.nodup_cons.2 ⟨fun again => ?_, ih others⟩
    obtain ⟨_, above, member, beneath⟩ := filled.of_mem wellFormed again
    exact (behind above member).2 beneath
  | @serial state child rest leaves _ linked _ ih =>
    obtain ⟨behind, others⟩ := List.pairwise_cons.1 apart
    refine ih (List.pairwise_cons.2 ⟨fun other member => ?_, others⟩)
    have upper := wellFormed.beneath_of_child linked
    exact ⟨fun beneath => (behind other member).1 (upper.trans beneath),
      Apart.not_beneath (behind other member) upper⟩
  | @parallel state rest leaves has _ _ _ ih =>
    obtain ⟨behind, others⟩ := List.pairwise_cons.1 apart
    refine ih (List.pairwise_append.2 ⟨Apart.words wellFormed has, others, ?_⟩)
    intro child own other member
    have upper := wellFormed.beneath_of_child ((wellFormed.mem_words has).1 own)
    exact ⟨fun beneath => (behind other member).1 (upper.trans beneath),
      Apart.not_beneath (behind other member) upper⟩

/-! ### What a transition exchanges -/

/-- The active leaves of a machine that was started, in some order. They are those of the
root, or, once a transition has restarted a single region of a parallel root, those of that
region alone. -/
def Standing (sections : Sections) (active : List UInt16) : Prop :=
  ∃ start leaves,
    (start = rootIndex ∨
      (sections.record rootIndex).flags.parallel = true ∧ sections.Child rootIndex start) ∧
    active.Perm leaves ∧ sections.Fills [start] leaves

/-- What is left of a configuration when all below `top` is taken away: whatever fills a
child of `top` completes it, and there is room for it. -/
structure Vacated (sections : Sections) (top : UInt16) (beside : List UInt16) : Prop where
  room : beside.length + sections.width top ≤ sections.width rootIndex
  refill : ∀ child filled, sections.Child top child → sections.Fills [child] filled →
    sections.Standing (beside ++ filled)

namespace Standing

variable {active : List UInt16}

theorem of_mem (wellFormed : sections.WellFormed) (standing : sections.Standing active)
    {leaf : UInt16} (listed : leaf ∈ active) :
    sections.Has leaf ∧ (sections.record leaf).isLeaf = true := by
  obtain ⟨_, leaves, _, same, fills⟩ := standing
  obtain ⟨childless, _, _, beneath⟩ := fills.of_mem wellFormed (same.mem_iff.1 listed)
  exact ⟨beneath.has, childless⟩

/-- Everything below an active state that is not parallel can be exchanged. -/
theorem vacated (wellFormed : sections.WellFormed) (standing : sections.Standing active)
    (inner : (sections.record top).isLeaf = false) (proper : top ≠ rootIndex)
    (alone : (sections.record top).flags.parallel = false) {leaf : UInt16}
    (listed : leaf ∈ active) (beneath : sections.Beneath top leaf) {beside : List UInt16}
    (left : open Classical in beside = active.filter fun leaf => sections.Beside top leaf) :
    sections.Vacated top beside := by
  obtain ⟨start, leaves, starts, same, fills⟩ := standing
  have member := same.mem_iff.1 listed
  have below : sections.Beneath start top := by
    have fromRoot := wellFormed.beneath_root beneath.has_top
    rcases starts with rfl | ⟨_, linked⟩
    · exact fromRoot
    · obtain ⟨_, above, only, met⟩ := fills.of_mem wellFormed member
      rw [List.mem_singleton.1 only] at met
      exact Beneath.of_child wellFormed linked fromRoot proper met beneath
  have narrower : sections.width start ≤ sections.width rootIndex := by
    rcases starts with rfl | ⟨_, linked⟩
    · exact Nat.le_refl _
    · exact wellFormed.width_child_le linked
  obtain ⟨before, inside, after, cut⟩ := fills.focus wellFormed Apart.singleton
    (List.mem_singleton.2 rfl) below member beneath
  have rest : beside.Perm (before ++ after) := by
    rw [left, ← cut.filter_eq wellFormed inner]
    exact same.filter _
  refine ⟨?_, fun child filled linked fills => ?_⟩
  · have room := cut.room
    rw [List.map_singleton, List.sum_singleton] at room
    rw [rest.length_eq, List.length_append]
    omega
  · refine ⟨start, before ++ filled ++ after, starts, ?_,
      cut.refill filled (.serial alone linked fills)⟩
    refine (rest.append_right filled).trans ?_
    rw [List.append_assoc, List.append_assoc]
    exact List.perm_append_comm.append_left before

end Standing

namespace Vacated

/-- Everything below the root can be exchanged. -/
theorem root : sections.Vacated rootIndex [] where
  room := Nat.le_of_eq (Nat.zero_add _)
  refill := fun child filled linked fills => by
    cases parallel : (sections.record rootIndex).flags.parallel with
    | true => exact ⟨child, filled, .inr ⟨parallel, linked⟩, List.Perm.refl _, fills⟩
    | false =>
      exact ⟨rootIndex, filled, .inl rfl, List.Perm.refl _, .serial parallel linked fills⟩

end Vacated

end Sections

end Statechart.Rom
