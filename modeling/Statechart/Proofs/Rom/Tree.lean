/-
# The tree of states

Parent links of well-formed tables lead from every state up to the root. `Beneath` says
that one state is met on the way up from another, and `Way` names the states on the way
back down. Two states that are both met from a third are comparable, so the ancestors of a
state form a chain; this is what every argument about active states rests on.

The walks along parent links that a definition offers are bounded, and in well-formed
tables no walk reaches its bound: `isAncestorOrSelf` decides `Beneath`, and the ancestor
chain of a state is the way down to it.
-/

import Statechart.Proofs.Returns
import Statechart.Proofs.Rom.WellFormed

namespace Statechart.Rom

namespace Sections

variable {sections : Sections} {top middle state child : UInt16}

/-- A state other than the root, and its parent. -/
structure Child (sections : Sections) (parent child : UInt16) : Prop where
  has : sections.Has child
  ne_root : child ≠ rootIndex
  parent_eq : (sections.record child).parent = parent

/-- A state is `top` itself or lies below it. -/
inductive Beneath (sections : Sections) (top : UInt16) : UInt16 → Prop
  | self : sections.Has top → Beneath sections top top
  | under {parent child : UInt16} : Beneath sections top parent →
      sections.Child parent child → Beneath sections top child

/-- The states from below `top` down to a state, each one the child of the one before. -/
inductive Way (sections : Sections) : UInt16 → List UInt16 → UInt16 → Prop
  | here {state : UInt16} : sections.Has state → Way sections state [] state
  | down {top next state : UInt16} {path : List UInt16} : sections.Child top next →
      Way sections next path state → Way sections top (next :: path) state

namespace WellFormed

theorem has_root (wellFormed : sections.WellFormed) : sections.Has rootIndex :=
  wellFormed.inhabited

theorem not_has_noIndex (wellFormed : sections.WellFormed) : ¬ sections.Has noIndex := by
  intro has
  have small : sections.states.size ≤ 65535 := wellFormed.size_le
  exact absurd has (Nat.not_lt.2 small)

theorem ne_noIndex (wellFormed : sections.WellFormed) (has : sections.Has state) :
    state ≠ noIndex := by
  rintro rfl
  exact wellFormed.not_has_noIndex has

theorem child_of_ne_root (wellFormed : sections.WellFormed) (has : sections.Has state)
    (inner : state ≠ rootIndex) :
    sections.Has (sections.record state).parent ∧
      sections.Child (sections.record state).parent state := by
  have before := UInt16.lt_iff_toNat_lt.1 (wellFormed.parent_lt has inner)
  exact ⟨Nat.lt_trans before has, has, inner, rfl⟩

theorem lt_of_child (wellFormed : sections.WellFormed) (linked : sections.Child top child) :
    top.toNat < child.toNat := by
  have before := wellFormed.parent_lt linked.has linked.ne_root
  rw [linked.parent_eq] at before
  exact UInt16.lt_iff_toNat_lt.1 before

theorem has_of_child (wellFormed : sections.WellFormed) (linked : sections.Child top child) :
    sections.Has top :=
  Nat.lt_trans (wellFormed.lt_of_child linked) linked.has

theorem depth_child (wellFormed : sections.WellFormed) (linked : sections.Child top child) :
    (sections.record child).depth.toNat = (sections.record top).depth.toNat + 1 := by
  rw [wellFormed.depth_succ linked.has linked.ne_root, linked.parent_eq]

/-- The words of a state's children are its children. -/
theorem mem_words (wellFormed : sections.WellFormed) (has : sections.Has top) :
    child ∈ (sections.record top).children.words ↔ sections.Child top child := by
  constructor
  · intro listed
    obtain ⟨index, member, rfl⟩ := List.mem_map.1 listed
    obtain ⟨inside, linked⟩ := (wellFormed.mem_children has).1 member
    have small : sections.states.size ≤ 65535 := wellFormed.size_le
    have index16 : (UInt16.ofNat index).toNat = index :=
      UInt16.toNat_ofNat_of_lt' (show index < 65536 by omega)
    refine ⟨by rwa [Has, index16], ?_, linked⟩
    intro isRoot
    rw [isRoot, wellFormed.parent_root] at linked
    exact wellFormed.not_has_noIndex (linked ▸ has)
  · intro linked
    refine List.mem_map.2 ⟨child.toNat, (wellFormed.mem_children has).2 ⟨linked.has, ?_⟩, ?_⟩
    · rw [UInt16.ofNat_toNat]
      exact linked.parent_eq
    · exact UInt16.ofNat_toNat

theorem nodup_words (wellFormed : sections.WellFormed) (has : sections.Has top) :
    (sections.record top).children.words.Nodup := by
  have apart : (sections.record top).children.toList.Nodup := List.nodup_range' ..
  refine List.pairwise_map.2 (apart.imp_of_mem ?_)
  intro first second inFirst inSecond differ same
  have small : sections.states.size ≤ 65535 := wellFormed.size_le
  have firstInside := ((wellFormed.mem_children has).1 inFirst).1
  have secondInside := ((wellFormed.mem_children has).1 inSecond).1
  have words := congrArg UInt16.toNat same
  rw [UInt16.toNat_ofNat_of_lt' (show first < 65536 by omega),
    UInt16.toNat_ofNat_of_lt' (show second < 65536 by omega)] at words
  exact differ words

/-- A state is a leaf exactly if it has no children. -/
theorem isLeaf_iff (_ : sections.WellFormed) :
    (sections.record state).isLeaf = true ↔ (sections.record state).children.words = [] := by
  unfold StateRecord.isLeaf StateRecord.children IndexRange.words IndexRange.ofRun
  by_cases none : (sections.record state).childCount = 0
  · simp [none, IndexRange.toList]
  · have some : (sections.record state).childCount.toNat ≠ 0 := fun zero =>
      none (UInt16.toNat_inj.1 zero)
    simp [none, some, IndexRange.toList]

/-- A state that enters one of its children has one to begin with. -/
theorem initialChild_ne_noIndex (wellFormed : sections.WellFormed) (has : sections.Has state)
    (inner : (sections.record state).isLeaf = false)
    (alone : (sections.record state).flags.parallel = false) :
    (sections.record state).initialChild ≠ noIndex := by
  intro absent
  rcases (wellFormed.initialChild_eq_iff has).1 absent with childless | parallel
  · have none : (sections.record state).children.words = [] := by
      rw [IndexRange.words, childless, List.map_nil]
    exact Bool.eq_false_iff.1 inner (wellFormed.isLeaf_iff.2 none)
  · rw [alone] at parallel
    cases parallel

theorem inner_of_child (wellFormed : sections.WellFormed) (linked : sections.Child top child) :
    (sections.record top).isLeaf = false := by
  apply Bool.eq_false_iff.2
  intro leaf
  have listed := (wellFormed.mem_words (wellFormed.has_of_child linked)).2 linked
  rw [wellFormed.isLeaf_iff.1 leaf] at listed
  cases listed

/-- Nothing is the child of a leaf. -/
theorem not_child (wellFormed : sections.WellFormed)
    (leaf : (sections.record top).isLeaf = true) : ¬ sections.Child top child := by
  intro linked
  exact Bool.eq_false_iff.1 (wellFormed.inner_of_child linked) leaf

theorem exists_child (wellFormed : sections.WellFormed) (has : sections.Has top)
    (inner : (sections.record top).isLeaf = false) : ∃ child, sections.Child top child := by
  have some : (sections.record top).children.words ≠ [] := by
    intro none
    exact Bool.eq_false_iff.1 inner (wellFormed.isLeaf_iff.2 none)
  obtain ⟨child, listed⟩ := List.exists_mem_of_ne_nil _ some
  exact ⟨child, (wellFormed.mem_words has).1 listed⟩

theorem beneath_of_child (wellFormed : sections.WellFormed)
    (linked : sections.Child top child) : sections.Beneath top child :=
  .under (.self (wellFormed.has_of_child linked)) linked

theorem child_ne (wellFormed : sections.WellFormed) (linked : sections.Child top child) :
    child ≠ top := by
  intro same
  exact absurd (wellFormed.lt_of_child linked) (same ▸ Nat.lt_irrefl _)

end WellFormed

/-! ### Ancestors -/

namespace Beneath

theorem has (beneath : sections.Beneath top state) : sections.Has state := by
  cases beneath with
  | self has => exact has
  | under _ linked => exact linked.has

theorem has_top (beneath : sections.Beneath top state) : sections.Has top := by
  induction beneath with
  | self has => exact has
  | under _ _ ih => exact ih

theorem trans (upper : sections.Beneath top middle) (lower : sections.Beneath middle state) :
    sections.Beneath top state := by
  induction lower with
  | self _ => exact upper
  | under _ linked ih => exact .under ih linked

theorem le (wellFormed : sections.WellFormed) (beneath : sections.Beneath top state) :
    top.toNat ≤ state.toNat := by
  induction beneath with
  | self _ => exact Nat.le_refl _
  | under _ linked ih => exact Nat.le_trans ih (Nat.le_of_lt (wellFormed.lt_of_child linked))

theorem antisymm (wellFormed : sections.WellFormed) (down : sections.Beneath top state)
    (up : sections.Beneath state top) : top = state :=
  UInt16.toNat_inj.1 (Nat.le_antisymm (down.le wellFormed) (up.le wellFormed))

/-- Two ancestors of a state are comparable. -/
theorem comparable {first second : UInt16} (left : sections.Beneath first state)
    (right : sections.Beneath second state) :
    sections.Beneath first second ∨ sections.Beneath second first := by
  induction left with
  | self has => exact .inr right
  | under above linked ih =>
    cases right with
    | self _ => exact .inl (.under above linked)
    | under other otherLinked =>
      rw [← otherLinked.parent_eq, linked.parent_eq] at other
      exact ih other

/-- A child lies between its parent and everything below the parent that it is comparable
to. -/
theorem of_child (wellFormed : sections.WellFormed) (linked : sections.Child top child)
    (below : sections.Beneath top middle) (other : middle ≠ top)
    (met : sections.Beneath child state) (passed : sections.Beneath middle state) :
    sections.Beneath child middle := by
  rcases met.comparable passed with done | above
  · exact done
  · cases above with
    | self has => exact .self has
    | under upper link =>
      rw [← link.parent_eq, linked.parent_eq] at upper
      exact absurd (upper.antisymm wellFormed below) other

theorem exists_child (beneath : sections.Beneath top state) (proper : state ≠ top) :
    ∃ child, sections.Child top child ∧ sections.Beneath child state := by
  induction beneath with
  | self _ => exact absurd rfl proper
  | @under parent state above linked ih =>
    by_cases direct : parent = top
    · subst direct
      exact ⟨state, linked, .self linked.has⟩
    · obtain ⟨child, first, rest⟩ := ih direct
      exact ⟨child, first, .under rest linked⟩

end Beneath

namespace WellFormed

/-- Everything lies beneath the root. -/
theorem beneath_root (wellFormed : sections.WellFormed) {state : UInt16}
    (has : sections.Has state) : sections.Beneath rootIndex state := by
  by_cases isRoot : state = rootIndex
  · subst isRoot
    exact .self has
  · obtain ⟨hasParent, linked⟩ := wellFormed.child_of_ne_root has isRoot
    exact .under (wellFormed.beneath_root hasParent) linked
termination_by state.toNat
decreasing_by exact wellFormed.lt_of_child linked

theorem eq_root_of_beneath (wellFormed : sections.WellFormed)
    (beneath : sections.Beneath state rootIndex) : state = rootIndex :=
  beneath.antisymm wellFormed (wellFormed.beneath_root beneath.has_top)

/-- Different children of a state have nothing in common. -/
theorem child_eq (wellFormed : sections.WellFormed) {other : UInt16}
    (linked : sections.Child top child) (otherLinked : sections.Child top other)
    (first : sections.Beneath child state) (second : sections.Beneath other state) :
    child = other := by
  have lower : sections.Beneath child other := Beneath.of_child wellFormed linked
    (wellFormed.beneath_of_child otherLinked) (wellFormed.child_ne otherLinked) first second
  have upper : sections.Beneath other child := Beneath.of_child wellFormed otherLinked
    (wellFormed.beneath_of_child linked) (wellFormed.child_ne linked) second first
  exact lower.antisymm wellFormed upper

/-- What lies below a state lies below its parent, if it has one. -/
theorem beneath_parent (wellFormed : sections.WellFormed) (beneath : sections.Beneath top state)
    (hasParent : sections.Has (sections.record top).parent) :
    sections.Beneath (sections.record top).parent state := by
  by_cases isRoot : top = rootIndex
  · rw [isRoot, wellFormed.parent_root] at hasParent
    exact absurd hasParent wellFormed.not_has_noIndex
  · have linked := (wellFormed.child_of_ne_root beneath.has_top isRoot).2
    exact (wellFormed.beneath_of_child linked).trans beneath

end WellFormed

/-! ### Where ways meet -/

/-- A state lies strictly below another. -/
def Below (sections : Sections) (top state : UInt16) : Prop :=
  sections.Beneath top state ∧ state ≠ top

/-- The lowest of some states, below which none of them lies. -/
structure Lowest (sections : Sections) (candidate : UInt16 → Prop) (lowest : UInt16) : Prop where
  among : candidate lowest
  beneath : ∀ other, candidate other → sections.Beneath other lowest

/-- The lowest state that has two states strictly below it, or the root where there is none. -/
inductive Meets (sections : Sections) (source target : UInt16) : UInt16 → Prop
  | proper {meeting : UInt16} :
      sections.Lowest (fun top => sections.Below top source ∧ sections.Below top target) meeting →
      Meets sections source target meeting
  | nowhere : (∀ top, sections.Below top source → ¬ sections.Below top target) →
      Meets sections source target rootIndex

/-- The lowest state from some state upwards that is not parallel, or the root. -/
def Lifts (sections : Sections) (state top : UInt16) : Prop :=
  sections.Lowest (fun upper => sections.Beneath upper state ∧
    (upper = rootIndex ∨ (sections.record upper).flags.parallel = false)) top

/-! ### States that may be active together -/

/-- Two states may be active together: one contains the other, or the lowest state above both
is parallel. -/
inductive CoActive (sections : Sections) (first second : UInt16) : Prop
  | above : sections.Beneath first second → CoActive sections first second
  | below : sections.Beneath second first → CoActive sections first second
  | across {meeting left right : UInt16} :
      (sections.record meeting).flags.parallel = true → sections.Child meeting left →
      sections.Child meeting right → left ≠ right → sections.Beneath left first →
      sections.Beneath right second → CoActive sections first second

theorem CoActive.has {first second : UInt16} (together : sections.CoActive first second) :
    sections.Has first ∧ sections.Has second := by
  cases together with
  | above down => exact ⟨down.has_top, down.has⟩
  | below down => exact ⟨down.has, down.has_top⟩
  | across _ _ _ _ left right => exact ⟨left.has, right.has⟩

theorem CoActive.symm {first second : UInt16} (together : sections.CoActive first second) :
    sections.CoActive second first := by
  cases together with
  | above down => exact .below down
  | below down => exact .above down
  | across parallel left right differ down other =>
    exact .across parallel right left differ.symm other down

/-- The timer of a state runs in a slot. -/
structure RunsIn (sections : Sections) (state : UInt16) (slot : Nat) : Prop where
  runs : (sections.record state).hasTimer = true
  slot_eq : (sections.record state).timerSlot.toNat = slot

/-- States that may be active together have different timer slots. -/
def TimersApart (sections : Sections) : Prop :=
  ∀ first second slot, sections.CoActive first second → sections.RunsIn first slot →
    sections.RunsIn second slot → first = second

/-- Nothing lies below a leaf. -/
theorem Beneath.eq_of_isLeaf (wellFormed : sections.WellFormed)
    (beneath : sections.Beneath top state) (leaf : (sections.record top).isLeaf = true) :
    state = top := by
  by_cases proper : state = top
  · exact proper
  · obtain ⟨child, linked, _⟩ := beneath.exists_child proper
    exact absurd linked (wellFormed.not_child leaf)

/-! ### Ways down -/

namespace Way

variable {path : List UInt16}

theorem beneath (way : sections.Way top path state) (has : sections.Has top) :
    sections.Beneath top state := by
  induction way with
  | here has => exact .self has
  | down linked _ ih => exact (Beneath.under (.self has) linked).trans (ih linked.has)

theorem snoc (way : sections.Way top path middle) (linked : sections.Child middle state) :
    sections.Way top (path ++ [state]) state := by
  induction way with
  | here _ => exact .down linked (.here linked.has)
  | down first _ ih => exact .down first (ih linked)

theorem depth_eq (wellFormed : sections.WellFormed) (way : sections.Way top path state) :
    (sections.record state).depth.toNat = (sections.record top).depth.toNat + path.length := by
  induction way with
  | here _ => rfl
  | down linked _ ih =>
    rw [ih, wellFormed.depth_child linked, List.length_cons]
    omega

/-- The states on a way down are those between its ends. -/
theorem mem_iff (wellFormed : sections.WellFormed) (way : sections.Way top path state)
    (inner : UInt16) : inner ∈ path ↔
      sections.Beneath top inner ∧ inner ≠ top ∧ sections.Beneath inner state := by
  induction way with
  | here has =>
    refine iff_of_false List.not_mem_nil ?_
    rintro ⟨down, proper, up⟩
    exact proper (up.antisymm wellFormed down)
  | @down top next state path linked way ih =>
    have upper := wellFormed.beneath_of_child linked
    rw [List.mem_cons, ih]
    constructor
    · rintro (rfl | ⟨below, _, above⟩)
      · exact ⟨upper, wellFormed.child_ne linked, way.beneath linked.has⟩
      · refine ⟨upper.trans below, ?_, above⟩
        rintro rfl
        exact wellFormed.child_ne linked (below.antisymm wellFormed upper)
    · rintro ⟨below, proper, above⟩
      have lower := Beneath.of_child wellFormed linked below proper (way.beneath linked.has) above
      by_cases same : inner = next
      · exact .inl same
      · exact .inr ⟨lower, same, above⟩

end Way

end Sections

/-! ### The walks of a definition -/

namespace Definition

variable {definition : Definition} {top state : UInt16}

theorem state_eq (has : definition.sections.Has state) :
    definition.state state = .ok (definition.sections.record state) := by
  have inside : state.toNat < definition.sections.states.size := has
  unfold Definition.state entry
  rw [Array.getElem?_eq_getElem inside, Sections.record, Array.getD_eq_getD_getElem?,
    Array.getElem?_eq_getElem inside]
  rfl

theorem parent_eq (has : definition.sections.Has state) :
    definition.parent state = .ok (definition.sections.record state).parent := by
  rw [parent, state_eq has]
  rfl

theorem climbsTo_returns (wellFormed : definition.sections.WellFormed) (steps : Nat)
    (enough : definition.sections.Has state ∧ state.toNat < steps ∨ state = noIndex) :
    Returns (definition.climbsTo top steps state) fun found =>
      found = true ↔ definition.sections.Beneath top state := by
  induction steps generalizing state with
  | zero =>
    rcases enough with ⟨_, below⟩ | rfl
    · exact absurd below (Nat.not_lt_zero _)
    · exact .ok ⟨nofun, fun beneath => absurd beneath.has wellFormed.not_has_noIndex⟩
  | succ steps ih =>
    by_cases absent : state = noIndex
    · rw [climbsTo, if_pos absent]
      refine .ok ⟨nofun, fun beneath => ?_⟩
      exact absurd (absent ▸ beneath.has) wellFormed.not_has_noIndex
    · obtain ⟨has, below⟩ := enough.resolve_right absent
      rw [climbsTo, if_neg absent]
      by_cases same : state = top
      · subst same
        rw [if_pos rfl]
        exact .ok ⟨fun _ => .self has, fun _ => rfl⟩
      · rw [if_neg same]
        simp only [parent_eq has, ok_bind]
        by_cases isRoot : state = rootIndex
        · subst isRoot
          rw [wellFormed.parent_root]
          refine (ih (.inr rfl)).mono fun found decided => decided.trans ⟨?_, ?_⟩
          · intro beneath
            exact absurd beneath.has wellFormed.not_has_noIndex
          · intro beneath
            exact absurd (wellFormed.eq_root_of_beneath beneath).symm same
        · obtain ⟨hasParent, linked⟩ := wellFormed.child_of_ne_root has isRoot
          have earlier := wellFormed.lt_of_child linked
          refine (ih (.inl ⟨hasParent, by omega⟩)).mono fun found decided => decided.trans ⟨?_, ?_⟩
          · intro beneath
            exact .under beneath linked
          · intro beneath
            cases beneath with
            | self _ => exact absurd rfl same
            | under above link => exact link.parent_eq ▸ above

/-- Asking whether one state is above another is answered, and answered right. -/
theorem isAncestorOrSelf_returns (wellFormed : definition.sections.WellFormed)
    (known : definition.sections.Has state ∨ state = noIndex) :
    Returns (definition.isAncestorOrSelf top state) fun found =>
      found = true ↔ definition.sections.Beneath top state :=
  climbsTo_returns wellFormed _ (known.imp_left fun has => ⟨has, Nat.lt_succ_of_lt has⟩)

/-- Prepending the ancestors of a state goes through any of them. -/
theorem prependChain_eq (beneath : definition.sections.Beneath top state) :
    ∃ path, definition.sections.Way top path state ∧ ∀ count chain,
      definition.prependChain (count + path.length) state chain =
        definition.prependChain count top (path ++ chain) := by
  induction beneath with
  | self has => exact ⟨[], .here has, fun _ _ => rfl⟩
  | @under parent state _ linked ih =>
    obtain ⟨path, way, split⟩ := ih
    refine ⟨path ++ [state], way.snoc linked, fun count chain => ?_⟩
    calc definition.prependChain (count + (path ++ [state]).length) state chain
        = definition.prependChain (count + path.length + 1) state chain := by
          rw [List.length_append, List.length_singleton, Nat.add_assoc]
      _ = definition.prependChain (count + path.length) parent (state :: chain) := by
          rw [prependChain, parent_eq linked.has, linked.parent_eq]
          rfl
      _ = definition.prependChain count top ((path ++ [state]) ++ chain) := by
          rw [split, List.append_assoc]
          rfl

/-- The chain of a state leads from the root through each of its ancestors. -/
theorem ancestorChain_eq (wellFormed : definition.sections.WellFormed)
    (beneath : definition.sections.Beneath top state) :
    ∃ lead path, definition.ancestorChain state (maxDepth + 1) =
        .ok (rootIndex :: (lead ++ path)) ∧
      definition.sections.Way rootIndex lead top ∧ definition.sections.Way top path state := by
  obtain ⟨lead, upper, splitLead⟩ := prependChain_eq (wellFormed.beneath_root beneath.has_top)
  obtain ⟨path, lower, splitPath⟩ := prependChain_eq beneath
  refine ⟨lead, path, ?_, upper, lower⟩
  have depth : (definition.sections.record state).depth.toNat = lead.length + path.length := by
    rw [lower.depth_eq wellFormed, upper.depth_eq wellFormed, wellFormed.depth_root,
      UInt8.toNat_zero, Nat.zero_add]
  have shallow := wellFormed.depth_le beneath.has
  have count : lead.length + path.length + 1 = 1 + lead.length + path.length := by omega
  rw [ancestorChain, state_eq beneath.has]
  simp only [ok_bind]
  rw [if_neg (by omega), depth, count]
  calc definition.prependChain (1 + lead.length + path.length) state []
      = definition.prependChain 1 rootIndex (lead ++ (path ++ [])) := by
        rw [splitPath, splitLead]
    _ = .ok (rootIndex :: (lead ++ path)) := by
        rw [prependChain, parent_eq wellFormed.has_root, List.append_nil]
        rfl

end Definition

end Statechart.Rom
