/-
# What history remembers

A state that keeps history saves its active descendant each time it is left. By then its active
descendants were left before it, but their leaves are still in their slots, so what is saved
tells which states were active when the transition set out (`Recalls`). The trace tells the same
of an instance's life: `departure` cuts a life off where the transition set out in which a
state was last left.

As long as no other state writes the slot, and no callback does, the slot holds what the life
tells (`Remembers`). Leaving other states, entering states, and an overflow that ends every stay
without exits do not change it.
-/

import Mathlib.Data.List.DropRight
import Statechart.Proofs.Kernel.Advancing
import Statechart.Proofs.Kernel.Chronicle

namespace Statechart

open Rom (Sections noIndex rootIndex)

/-! ### The last departure -/

namespace Trace

/-- Whether a step is the taking of a transition. -/
def Entry.isTransition : Entry → Bool
  | .transition .. => true
  | _ => false

/-- The steps of a life up to the transition in which a state was last left, none if it never
was. -/
def departure (state : UInt16) (life : List Entry) : List Entry :=
  (life.rdropWhile fun entry => entry ≠ .exit state).rdropWhile fun entry => !entry.isTransition

/-- The steps of a life since a state was last left, all if it never was. -/
def since (state : UInt16) (life : List Entry) : List Entry :=
  life.rtakeWhile fun entry => entry ≠ .exit state

section

variable {Element : Type} {drops : Element → Bool} {list more : List Element}

theorem rdropWhile_append_of_forall (all : ∀ element ∈ more, drops element = true) :
    (list ++ more).rdropWhile drops = list.rdropWhile drops := by
  induction more using List.reverseRecOn with
  | nil => rw [List.append_nil]
  | append_singleton rest last ih =>
    have own := all last (List.mem_append_right _ (List.mem_singleton_self last))
    rw [← List.append_assoc, List.rdropWhile_concat_pos _ _ _ own]
    exact ih fun element listed => all element (List.mem_append_left _ listed)

theorem rdropWhile_append_of_exists (some : ∃ element ∈ more, drops element = false) :
    (list ++ more).rdropWhile drops = list ++ more.rdropWhile drops := by
  induction more using List.reverseRecOn with
  | nil =>
    obtain ⟨_, listed, _⟩ := some
    cases listed
  | append_singleton rest last ih =>
    rw [← List.append_assoc, List.rdropWhile_concat, List.rdropWhile_concat]
    split
    · next dropped =>
      obtain ⟨element, listed, kept⟩ := some
      refine ih ⟨element, (List.mem_append.1 listed).resolve_right fun only => ?_, kept⟩
      rw [List.mem_singleton.1 only, dropped] at kept
      cases kept
    · rw [List.append_assoc]

theorem rtakeWhile_append_of_forall (all : ∀ element ∈ more, drops element = true) :
    (list ++ more).rtakeWhile drops = list.rtakeWhile drops ++ more := by
  induction more using List.reverseRecOn with
  | nil => rw [List.append_nil, List.append_nil]
  | append_singleton rest last ih =>
    have own := all last (List.mem_append_right _ (List.mem_singleton_self last))
    rw [← List.append_assoc, List.rtakeWhile_concat_pos _ _ _ own, ← List.append_assoc,
      ih fun element listed => all element (List.mem_append_left _ listed)]

theorem rtakeWhile_append_of_exists (some : ∃ element ∈ more, drops element = false) :
    (list ++ more).rtakeWhile drops = more.rtakeWhile drops := by
  induction more using List.reverseRecOn with
  | nil =>
    obtain ⟨_, listed, _⟩ := some
    cases listed
  | append_singleton rest last ih =>
    rw [← List.append_assoc, List.rtakeWhile_concat, List.rtakeWhile_concat]
    split
    · next dropped =>
      obtain ⟨element, listed, kept⟩ := some
      refine congrArg (· ++ [last]) (ih ⟨element, ?_, kept⟩)
      refine (List.mem_append.1 listed).resolve_right fun only => ?_
      rw [List.mem_singleton.1 only, dropped] at kept
      cases kept
    · rfl

end

variable {state : UInt16} {life more : List Entry}

theorem since_append (stays : .exit state ∉ more) :
    since state (life ++ more) = since state life ++ more := by
  apply rtakeWhile_append_of_forall
  intro entry listed
  refine decide_eq_true ?_
  rintro rfl
  exact stays listed

theorem since_append_of_exit (left : .exit state ∈ more) :
    since state (life ++ more) = since state more :=
  rtakeWhile_append_of_exists ⟨_, left, decide_eq_false (not_not.2 rfl)⟩

theorem departure_append (stays : .exit state ∉ more) :
    departure state (life ++ more) = departure state life := by
  unfold departure
  rw [rdropWhile_append_of_forall]
  intro entry listed
  refine decide_eq_true ?_
  rintro rfl
  exact stays listed

/-- A transition in which the state is left is where the state was last left. -/
theorem departure_transition {transition : Entry} (sets : transition.isTransition = true)
    (left : .exit state ∈ more) (same : ∀ entry ∈ more, entry.isTransition = false) :
    departure state (life ++ transition :: more) = life ++ [transition] := by
  unfold departure
  rw [List.append_cons, rdropWhile_append_of_exists ⟨_, left, decide_eq_false (not_not.2 rfl)⟩,
    rdropWhile_append_of_forall, List.rdropWhile_concat_neg]
  · rw [sets]
    decide
  · intro entry listed
    rw [same entry ((List.rdropWhile_prefix _ more).subset listed)]
    rfl

end Trace

/-! ### What a saved state tells -/

namespace Rom.Sections

/-- No state strictly below a state is parallel. -/
def SerialBelow (sections : Sections) (state : UInt16) : Prop :=
  ∀ inner, sections.Beneath state inner → inner ≠ state →
    (sections.record inner).flags.parallel = false

/-- A state other than the root keeps history in a slot that no other state writes. -/
structure KeepsHistory (sections : Sections) (state : UInt16) : Prop where
  has : sections.Has state
  inner : state ≠ rootIndex
  keeps : (sections.record state).flags.history = true
  alone : ∀ other, sections.Has other → (sections.record other).flags.history = true →
    (sections.record other).historySlot = (sections.record state).historySlot → other = state

namespace WellFormed

variable {sections : Sections} {state : UInt16}

theorem historySlot_ne (wellFormed : sections.WellFormed) (has : sections.Has state)
    (keeps : (sections.record state).flags.history = true) :
    (sections.record state).historySlot ≠ noIndex := by
  intro absent
  have small := (wellFormed.history has keeps).2.2
  rw [absent] at small
  exact absurd small (by decide)

theorem branches_of_history (wellFormed : sections.WellFormed) (has : sections.Has state)
    (keeps : (sections.record state).flags.history = true) :
    ¬ (sections.record state).isLeaf = true := by
  obtain ⟨composite, -, -⟩ := wellFormed.history has keeps
  intro leaf
  have some := (wellFormed.composite_iff has).1 composite
  exact some (List.map_eq_nil_iff.1 (wellFormed.isLeaf_iff.1 leaf))

/-- Where some state keeps history, the root is no leaf. -/
theorem root_branches_of_history (wellFormed : sections.WellFormed) (has : sections.Has state)
    (keeps : (sections.record state).flags.history = true) :
    (sections.record rootIndex).isLeaf = false := by
  apply Bool.eq_false_iff.2
  intro childless
  have same := (wellFormed.beneath_root has).eq_of_isLeaf wellFormed childless
  exact wellFormed.branches_of_history has keeps (same ▸ childless)

end WellFormed

namespace KeepsHistory

variable {sections : Sections} {state : UInt16}

theorem serial (own : sections.KeepsHistory state) (wellFormed : sections.WellFormed) :
    (sections.record state).flags.parallel = false :=
  (wellFormed.history own.has own.keeps).2.1

theorem slot_ne (own : sections.KeepsHistory state) (wellFormed : sections.WellFormed) :
    (sections.record state).historySlot ≠ noIndex :=
  wellFormed.historySlot_ne own.has own.keeps

theorem branches (own : sections.KeepsHistory state) (wellFormed : sections.WellFormed) :
    (sections.record state).isLeaf = false :=
  Bool.eq_false_iff.2 (wellFormed.branches_of_history own.has own.keeps)

end KeepsHistory

/-- Another state keeps its history in the slot of a state. -/
structure Shares (sections : Sections) (state other : UInt16) : Prop where
  has : sections.Has other
  differs : other ≠ state
  keeps : (sections.record other).flags.history = true
  slot_eq : (sections.record other).historySlot = (sections.record state).historySlot

theorem KeepsHistory.not_shares {sections : Sections} {state other : UInt16}
    (own : sections.KeepsHistory state) : ¬ sections.Shares state other :=
  fun shares => shares.differs (own.alone other shares.has shares.keeps shares.slot_eq)

open Classical in
/-- What is recorded for a state that is left while some leaves are active: the first of them
strictly below the state if its history is deep, and the child on the way there if not. -/
def Recorded (sections : Sections) (leaves : List UInt16) (state saved : UInt16) : Prop :=
  ∃ leaf, leaves.find? (fun leaf => sections.Below state leaf) = some leaf ∧
    ((sections.record state).flags.deepHistory = true → saved = leaf) ∧
    ((sections.record state).flags.deepHistory = false →
      sections.Child state saved ∧ sections.Beneath saved leaf)

open Classical in
/-- A leaf that is found below a state. -/
theorem below_of_find? {sections : Sections} {leaves : List UInt16} {state leaf : UInt16}
    (found : leaves.find? (fun leaf => sections.Below state leaf) = some leaf) :
    leaf ∈ leaves ∧ sections.Below state leaf :=
  ⟨List.mem_of_find?_eq_some found, by simpa using List.find?_some found⟩

end Rom.Sections

namespace Stays

variable {sections : Sections} {stays others : Stays} {state inner leaf saved : UInt16}

/-- A saved state tells what was active below a state: for shallow history it is the active
child. For deep history it is an active leaf, and if there can be no other below the state, then
exactly what is above it was active. -/
structure Recalls (sections : Sections) (stays : Stays) (state saved : UInt16) : Prop where
  beneath : sections.Beneath state saved
  proper : saved ≠ state
  shallow : (sections.record state).flags.deepHistory = false → sections.Child state saved ∧
    ∀ other, sections.Child state other ∧ stays.Open other ↔ other = saved
  deep : (sections.record state).flags.deepHistory = true →
    (sections.record saved).isLeaf = true ∧
      (sections.SerialBelow state → ∀ inner, sections.Beneath state inner → inner ≠ state →
        (stays.Open inner ↔ sections.Beneath inner saved))

theorem Recalls.of_alike (recalls : stays.Recalls sections state saved)
    (alike : stays.Alike others) : others.Recalls sections state saved where
  beneath := recalls.beneath
  proper := recalls.proper
  shallow isShallow := by
    obtain ⟨linked, only⟩ := recalls.shallow isShallow
    exact ⟨linked, fun other => by rw [← alike]; exact only other⟩
  deep isDeep := by
    obtain ⟨childless, told⟩ := recalls.deep isDeep
    refine ⟨childless, fun serial inner beneath proper => ?_⟩
    rw [← alike]
    exact told serial inner beneath proper

/-- Where nothing is parallel, the active states below a state lie above one leaf. -/
theorem Nested.beneath_leaf (nested : Nested sections stays) (wellFormed : sections.WellFormed)
    (serial : (sections.record state).flags.parallel = false)
    (below : sections.SerialBelow state) (upper : sections.Beneath state inner)
    (lower : sections.Beneath state leaf) (isOpen : stays.Open inner)
    (leafOpen : stays.Open leaf) (childless : (sections.record leaf).isLeaf = true) :
    sections.Beneath inner leaf := by
  cases nested.coActive wellFormed isOpen leafOpen with
  | above down => exact down
  | below up => exact up.eq_of_isLeaf wellFormed childless ▸ .self upper.has
  | @across meeting left right parallel linked otherLinked differ first second =>
    -- The two ways would part at a parallel state, and none of these is below `state`.
    have outside : ¬ sections.Beneath state meeting := by
      intro beneath
      have alone : (sections.record meeting).flags.parallel = false := by
        by_cases same : meeting = state
        · exact same ▸ serial
        · exact below meeting beneath same
      rw [parallel] at alone
      cases alone
    have passed := (wellFormed.beneath_of_child otherLinked).trans second
    have above := (lower.comparable passed).resolve_left outside
    have other : state ≠ meeting := fun same => outside (same ▸ .self upper.has_top)
    obtain ⟨next, onward, rest⟩ := above.exists_child other
    have leftEq := wellFormed.child_eq linked onward first (rest.trans upper)
    have rightEq := wellFormed.child_eq otherLinked onward second (rest.trans lower)
    exact absurd (leftEq.trans rightEq.symm) differ

/-- What a leaf below a state tells if it is saved. -/
theorem Recalls.of_leaf (own : sections.KeepsHistory state) (wellFormed : sections.WellFormed)
    (nested : Nested sections stays) (beneath : sections.Beneath state leaf) (proper : leaf ≠ state)
    (isOpen : stays.Open leaf) (childless : (sections.record leaf).isLeaf = true)
    (shallow : (sections.record state).flags.deepHistory = false →
      sections.Child state saved ∧ sections.Beneath saved leaf)
    (deep : (sections.record state).flags.deepHistory = true → saved = leaf) :
    stays.Recalls sections state saved := by
  have serial := own.serial wellFormed
  cases kind : (sections.record state).flags.deepHistory with
  | true =>
    obtain rfl := deep kind
    refine ⟨beneath, proper, (nomatch kind.symm.trans ·), fun _ =>
      ⟨childless, fun below inner upper _ => ?_⟩⟩
    constructor
    · intro innerOpen
      exact nested.beneath_leaf wellFormed serial below upper beneath innerOpen isOpen
        childless
    · intro passed
      refine nested.open_of_beneath passed isOpen ?_
      rintro rfl
      exact own.inner (wellFormed.eq_root_of_beneath upper)
  | false =>
    obtain ⟨linked, passed⟩ := shallow kind
    have savedOpen := nested.open_of_beneath passed isOpen linked.ne_root
    refine ⟨wellFormed.beneath_of_child linked, wellFormed.child_ne linked, fun _ => ⟨linked, ?_⟩,
      (nomatch kind.symm.trans ·)⟩
    intro other
    constructor
    · rintro ⟨own, otherOpen⟩
      exact nested.alone serial own linked otherOpen savedOpen
    · rintro rfl
      exact ⟨linked, savedOpen⟩

end Stays

/-- What was recorded for a state tells what was active below it. -/
theorem Rom.Sections.Recorded.recalls {sections : Sections} {stays : Stays} {state saved : UInt16}
    {active : List UInt16} (recorded : sections.Recorded active state saved)
    (own : sections.KeepsHistory state) (wellFormed : sections.WellFormed)
    (leaves : ∀ leaf ∈ active, sections.Has leaf ∧ (sections.record leaf).isLeaf = true)
    (nested : Stays.Nested sections stays)
    (open_iff : ∀ other, stays.Open other ↔ other ≠ rootIndex ∧ sections.Active active other) :
    stays.Recalls sections state saved := by
  obtain ⟨leaf, first, deep, shallow⟩ := recorded
  obtain ⟨listed, beneath, proper⟩ := below_of_find? first
  have leafOpen : stays.Open leaf := by
    refine (open_iff leaf).2 ⟨?_, leaf, listed, .self beneath.has⟩
    rintro rfl
    exact proper (wellFormed.eq_root_of_beneath beneath).symm
  exact .of_leaf own wellFormed nested beneath proper leafOpen (leaves leaf listed).2 shallow deep

namespace Kernel

open Rom (Definition)
open Stays (Nested Alike Recalls)

variable {User : Type} {pledge : Instance.Pledge} {kernel : Kernel User} {start was : Stays}
  {progress before middle after : Progress User} {definition : Definition} {inst : Instance}
  {active : List UInt16} {top state other : UInt16} {past : List Trace.Entry}

/-! ### Saving -/

open Classical in
theorem leafBelow?_yields (wellFormed : definition.sections.WellFormed)
    (states : ∀ leaf ∈ active, definition.sections.Has leaf) :
    Yields (leafBelow? definition state active) fun found =>
      found = active.find? fun leaf => definition.sections.Below state leaf := by
  induction active with
  | nil => exact .ok rfl
  | cons leaf rest ih =>
    obtain ⟨known, others⟩ := List.forall_mem_cons.1 states
    have later (outside : ¬ definition.sections.Below state leaf) :
        Yields (leafBelow? definition state rest) fun found =>
          found = (leaf :: rest).find? fun leaf => definition.sections.Below state leaf := by
      rw [List.find?_cons_of_neg (by rwa [decide_eq_true_eq])]
      exact ih others
    unfold leafBelow?
    split
    · next same => exact later fun below => below.2 same
    · next differs =>
      apply (Definition.isAncestorOrSelf_returns wellFormed (.inl known)).yields.bind
      intro met decided
      cases met with
      | true =>
        have below : definition.sections.Below state leaf := ⟨decided.1 rfl, differs⟩
        apply Yields.pure
        rw [List.find?_cons_of_pos (by rwa [decide_eq_true_eq])]
      | false => exact later fun below => absurd (decided.2 below.1) Bool.false_ne_true

theorem childTowards_yields (steps : Nat) {leaf : UInt16}
    (beneath : definition.sections.Beneath top leaf) (proper : leaf ≠ top) :
    Yields (childTowards definition top steps leaf) fun child =>
      definition.sections.Child top child ∧ definition.sections.Beneath child leaf := by
  induction steps generalizing leaf with
  | zero =>
    cases beneath with
    | self _ => exact absurd rfl proper
    | under above linked =>
      unfold childTowards
      simp only [Definition.parent_eq linked.has, linked.parent_eq, ok_bind]
      split
      · next direct => exact .pure ⟨direct ▸ linked, .self linked.has⟩
      · exact .error
  | succ steps ih =>
    cases beneath with
    | self _ => exact absurd rfl proper
    | under above linked =>
      unfold childTowards
      simp only [Definition.parent_eq linked.has, linked.parent_eq, ok_bind]
      split
      · next direct => exact .pure ⟨direct ▸ linked, .self linked.has⟩
      · next further =>
        exact (ih above further).mono fun child found => ⟨found.1, .under found.2 linked⟩

/-- What is saved for a state with active leaves below it is what is to be recorded. -/
theorem activeDescendant?_recorded (wellFormed : kernel.definition.sections.WellFormed)
    (holds : Holds inst.leaves active)
    (states : ∀ leaf ∈ active, kernel.definition.sections.Has leaf)
    (isActive : ∃ leaf ∈ active, kernel.definition.sections.Below state leaf) :
    Yields (kernel.activeDescendant? state
        (kernel.definition.sections.record state).flags.deepHistory inst) fun found =>
      ∃ saved, found = some saved ∧ kernel.definition.sections.Recorded active state saved := by
  unfold activeDescendant?
  simp only [Instance.activeLeaves_eq holds]
  apply (leafBelow?_yields wellFormed states).bind
  rintro found same
  cases found with
  | none =>
    obtain ⟨leaf, listed, below⟩ := isActive
    exact absurd below (by simpa using List.find?_eq_none.1 same.symm leaf listed)
  | some leaf =>
    obtain ⟨-, beneath, proper⟩ := Rom.Sections.below_of_find? same.symm
    cases kind : (kernel.definition.sections.record state).flags.deepHistory with
    | true => exact .pure ⟨leaf, rfl, leaf, same.symm, fun _ => rfl, (nomatch kind.symm.trans ·)⟩
    | false =>
      apply (childTowards_yields _ beneath proper).bind
      intro child linked
      exact .pure ⟨child, rfl, leaf, same.symm, (nomatch kind.symm.trans ·), fun _ => linked⟩

/-! ### Leaving -/

/-- A state was left after its history was saved. No other was entered or left. -/
structure Exits (kernel : Kernel User) (state : UInt16) (before after : Progress User) :
    Prop where
  exists_saved : ∃ saved,
    kernel.remember state (kernel.definition.sections.record state) before.inst = .ok saved ∧
      after.inst.history = saved.history
  exists_more : ∃ more, after.trace.toList = before.trace.toList ++ .exit state :: more ∧
    ∀ entry ∈ more, entry.isTransition = false ∧ ∀ other, entry ≠ .exit other

theorem exitState_exits (spares : kernel.dispatch.Preserves Instance.history) (state : UInt16)
    (progress : Progress User) : Yields (kernel.exitState state progress) fun after =>
      kernel.definition.sections.Has state ∧ Exits kernel state progress after := by
  rw [exitState_eq]
  apply (kernel.definition.state_yields state).bind
  rintro _ ⟨has, rfl⟩
  apply (Yields.self _).bind
  intro saved remembered
  apply (disarm_yields _ _).bind
  intro inst disarmed
  have history : inst.history = saved.history := by
    rcases disarmed with ⟨-, rfl⟩ | ⟨-, -, rfl⟩ <;> rfl
  apply ((runAction_preserves spares _ _ _ _).and (runAction_yields _ _ _ _)).mono
  rintro after ⟨kept, grows, -⟩
  have noted : ((progress.withInst inst).note (.exit state)).trace.toList =
      progress.trace.toList ++ [.exit state] := Array.toList_push
  rw [noted, List.append_assoc, List.singleton_append] at grows
  refine ⟨has, ⟨saved, remembered, kept.trans history⟩, _, grows, fun entry listed => ?_⟩
  split at listed
  · cases listed
  · rw [List.mem_singleton.1 listed]
    exact ⟨rfl, nofun⟩

open Classical in
/-- The slot of a state holds what is to be recorded, if the state was left on the way and after
it no other that shares the slot. It is as it was if none of them was left. -/
structure Writes (kernel : Kernel User) (active : List UInt16) (state : UInt16)
    (before after : Progress User) : Prop where
  exists_added : ∃ added, after.trace.toList = before.trace.toList ++ added ∧
    (∀ entry ∈ added, entry.isTransition = false) ∧
    (.exit state ∈ added →
      (∀ other, kernel.definition.sections.Shares state other →
        .exit other ∉ Trace.since state added) → ∃ saved,
      after.inst.history[(kernel.definition.sections.record state).historySlot.toNat]? =
        some saved ∧ kernel.definition.sections.Recorded active state saved) ∧
    (.exit state ∉ added →
      (∀ other, kernel.definition.sections.Shares state other → .exit other ∉ added) →
      after.inst.history[(kernel.definition.sections.record state).historySlot.toNat]? =
        before.inst.history[(kernel.definition.sections.record state).historySlot.toNat]?)

/-- The slot of a state tells what was active below it, if it was left on the way, and is as it
was otherwise. -/
structure Saves (kernel : Kernel User) (was : Stays) (state : UInt16)
    (before after : Progress User) : Prop where
  exists_added : ∃ added, after.trace.toList = before.trace.toList ++ added ∧
    (∀ entry ∈ added, entry.isTransition = false) ∧
    (.exit state ∈ added → ∃ saved,
      after.inst.history[(kernel.definition.sections.record state).historySlot.toNat]? =
        some saved ∧ was.Recalls kernel.definition.sections state saved) ∧
    (.exit state ∉ added →
      after.inst.history[(kernel.definition.sections.record state).historySlot.toNat]? =
        before.inst.history[(kernel.definition.sections.record state).historySlot.toNat]?)

namespace Exits

/-- A state that keeps history saves what is to be recorded. -/
theorem records (exits : Exits kernel state before after)
    (keeps : (kernel.definition.sections.record state).flags.history = true)
    (slotted : (kernel.definition.sections.record state).historySlot ≠ noIndex)
    (saves : Yields (kernel.activeDescendant? state
        (kernel.definition.sections.record state).flags.deepHistory before.inst) fun found =>
      ∃ saved, found = some saved ∧ kernel.definition.sections.Recorded active state saved) :
    ∃ saved,
      after.inst.history[(kernel.definition.sections.record state).historySlot.toNat]? =
        some saved ∧ kernel.definition.sections.Recorded active state saved := by
  obtain ⟨inst, remembered, history⟩ := exits.exists_saved
  unfold remember at remembered
  rw [if_pos (Bool.and_eq_true_iff.2 ⟨keeps, bne_iff_ne.2 slotted⟩)] at remembered
  obtain ⟨found, asked, written⟩ := Yields.exists_of_bind remembered
  obtain ⟨saved, rfl, recorded⟩ := saves.of_eq _ asked
  obtain ⟨inside, rfl⟩ := (Instance.setHistory_yields saved).of_eq _ written
  refine ⟨saved, ?_, recorded⟩
  rw [history]
  exact List.getElem?_set_self inside

/-- Any other state leaves the slot alone, unless it shares the slot. -/
theorem slot_eq (exits : Exits kernel other before after)
    (has : kernel.definition.sections.Has other) (differs : other ≠ state)
    (apart : ¬ kernel.definition.sections.Shares state other) :
    after.inst.history[(kernel.definition.sections.record state).historySlot.toNat]? =
      before.inst.history[(kernel.definition.sections.record state).historySlot.toNat]? := by
  obtain ⟨inst, remembered, history⟩ := exits.exists_saved
  rw [history]
  refine (remember_slot fun saves => ?_).of_eq _ remembered
  exact apart ⟨has, differs, saves.1, UInt16.toNat_inj.1 saves.2⟩

end Exits

namespace Writes

theorem refl (progress : Progress User) : Writes kernel active state progress progress :=
  ⟨[], (List.append_nil _).symm, List.forall_mem_nil _,
    fun left => absurd left List.not_mem_nil, fun _ _ => rfl⟩

/-- One more state is left. -/
theorem exits (writes : Writes kernel active state before middle)
    (exits : Exits kernel other middle after) (has : kernel.definition.sections.Has other)
    (records : other = state → ∃ saved,
      after.inst.history[(kernel.definition.sections.record state).historySlot.toNat]? =
        some saved ∧ kernel.definition.sections.Recorded active state saved) :
    Writes kernel active state before after := by
  obtain ⟨added, grows, plain, written, unwritten⟩ := writes
  obtain ⟨more, growsOn, quiet⟩ := exits.exists_more
  have apart (other : UInt16) : .exit other ∉ more := fun later => (quiet _ later).2 other rfl
  refine ⟨added ++ .exit other :: more, by rw [growsOn, grows, List.append_assoc], ?_, ?_, ?_⟩
  · exact List.forall_mem_append.2 ⟨plain,
      List.forall_mem_cons.2 ⟨rfl, fun entry later => (quiet entry later).1⟩⟩
  · intro left alone
    by_cases itself : other = state
    · exact records itself
    · have now : .exit state ∉ .exit other :: more := fun listed =>
        (List.mem_cons.1 listed).elim (fun same => itself (Trace.Entry.exit.inj same).symm)
          (apart state)
      rw [Trace.since_append now] at alone
      rw [exits.slot_eq has itself fun shares =>
        alone other shares (List.mem_append_right _ (List.mem_cons_self ..))]
      exact written ((List.mem_append.1 left).resolve_right now) fun sharer shares listed =>
        alone sharer shares (List.mem_append_left _ listed)
  · intro absent alone
    have itself : other ≠ state := by
      rintro rfl
      exact absent (List.mem_append_right _ (List.mem_cons_self ..))
    rw [exits.slot_eq has itself fun shares =>
      alone other shares (List.mem_append_right _ (List.mem_cons_self ..))]
    exact unwritten (fun earlier => absent (List.mem_append_left _ earlier))
      fun sharer shares earlier => alone sharer shares (List.mem_append_left _ earlier)

/-- A slot that no other state writes tells what was active. -/
theorem saves (writes : Writes kernel active state before after)
    (own : kernel.definition.sections.KeepsHistory state)
    (recalls : ∀ saved, kernel.definition.sections.Recorded active state saved →
      was.Recalls kernel.definition.sections state saved) :
    Saves kernel was state before after := by
  obtain ⟨added, grows, plain, written, unwritten⟩ := writes
  refine ⟨added, grows, plain, fun left => ?_, fun absent => ?_⟩
  · exact (written left fun other shares => absurd shares own.not_shares).imp
      fun saved found => ⟨found.1, recalls saved found.2⟩
  · exact unwritten absent fun other shares => absurd shares own.not_shares

end Writes

namespace Reliable

variable (reliable : Reliable pledge kernel) (spares : kernel.dispatch.Preserves Instance.history)

include reliable spares

open Classical in
/-- Leaving what is active below a state records the history of what is left, and of nothing
else. -/
theorem exitBelow_writes (has : kernel.definition.sections.Has state)
    (keeps : (kernel.definition.sections.record state).flags.history = true)
    (steady : Steady pledge kernel progress) (holds : Holds progress.inst.leaves active)
    (leaves : ∀ leaf ∈ active, kernel.definition.sections.Has leaf ∧
      (kernel.definition.sections.record leaf).isLeaf = true) :
    Yields (kernel.exitBelow top progress) (Writes kernel active state progress) := by
  have wellFormed := reliable.sound.wellFormed
  have states : ∀ leaf ∈ active, kernel.definition.sections.Has leaf :=
    fun leaf listed => (leaves leaf listed).1
  unfold exitBelow
  simp only [Instance.activeLeaves_eq holds]
  apply (exitingBelow_yields wellFormed states).bind
  rintro exiting ⟨-, known⟩
  apply (exitOrder_yields fun other listed => ((known other).1 listed).1.has).bind
  rintro ordered ⟨same, -⟩
  have leaving : Yields
      (ordered.foldlM (fun progress state => kernel.exitState state progress) progress)
      fun after => Kept pledge kernel progress after ∧
        Writes kernel active state progress after := by
    refine .foldlM_keeps (fun other middle listed reached => ?_) ⟨steady.refl, .refl progress⟩
    obtain ⟨kept, writes⟩ := reached
    obtain ⟨leaf, isActive, beneath⟩ := ((known other).1 (same.mem_iff.1 listed)).2.2
    have keeping := (reliable.exitState_returns beneath.has_top (kept.holds holds) states
      kept.steady).yields
    apply (keeping.and (exitState_exits spares other middle)).mono
    rintro after ⟨keptOn, inside, exits⟩
    refine ⟨kept.trans keptOn, writes.exits exits inside ?_⟩
    rintro rfl
    -- A state that keeps history is no leaf, so a leaf at or below it lies strictly below.
    have proper : leaf ≠ other := by
      rintro rfl
      exact absurd (leaves leaf isActive).2 (wellFormed.branches_of_history has keeps)
    exact exits.records keeps (wellFormed.historySlot_ne has keeps)
      (activeDescendant?_recorded wellFormed (kept.holds holds) states
        ⟨leaf, isActive, beneath, proper⟩)
  apply leaving.bind
  rintro left ⟨kept, added, grows, plain, written, unwritten⟩
  rw [Instance.activeLeaves_eq (kept.holds holds), leavesBeside_eq wellFormed states]
  exact .pure ⟨added, grows, plain, written, unwritten⟩

/-- Leaving what is active below a state saves the history of what is left, and of nothing
else. -/
theorem exitBelow_saves (own : kernel.definition.sections.KeepsHistory state)
    (steady : Steady pledge kernel progress) (holds : Holds progress.inst.leaves active)
    (leaves : ∀ leaf ∈ active, kernel.definition.sections.Has leaf ∧
      (kernel.definition.sections.record leaf).isLeaf = true)
    (matched : Matched kernel start active progress) :
    Yields (kernel.exitBelow top progress)
      (Saves kernel (progress.stays start) state progress) :=
  (reliable.exitBelow_writes spares own.has own.keeps steady holds leaves).mono
    fun _ writes => writes.saves own fun _ recorded =>
      recorded.recalls own reliable.sound.wellFormed leaves matched.nested matched.open_iff

end Reliable

/-! ### The slot -/

/-- The slot of a state holds what a life tells of the state's last departure, and nothing if
there was none. -/
structure Remembers (sections : Sections) (state : UInt16) (life : List Trace.Entry)
    (inst : Instance) : Prop where
  never : .exit state ∉ life →
    inst.history[(sections.record state).historySlot.toNat]? = some noIndex
  last : .exit state ∈ life → ∃ saved,
    inst.history[(sections.record state).historySlot.toNat]? = some saved ∧
      (Stays.nowhere.replay (Trace.departure state life)).Recalls sections state saved

namespace Remembers

/-- Nothing was left or written since. -/
theorem append {sections : Sections} {more : List Trace.Entry} {later : Instance}
    (remembers : Remembers sections state past inst) (stays : .exit state ∉ more)
    (same : later.history[(sections.record state).historySlot.toNat]? =
      inst.history[(sections.record state).historySlot.toNat]?) :
    Remembers sections state (past ++ more) later where
  never absent := same.trans (remembers.never fun left => absent (List.mem_append_left _ left))
  last left := by
    rw [same, Trace.departure_append stays]
    exact remembers.last ((List.mem_append.1 left).resolve_right stays)

theorem advances {sections : Sections}
    (remembers : Remembers sections state (past ++ before.trace.toList) before.inst)
    (advances : Advances before after) :
    Remembers sections state (past ++ after.trace.toList) after.inst := by
  obtain ⟨history, added, grows, stays⟩ := advances
  rw [grows, ← List.append_assoc]
  exact remembers.append (stays state) (by rw [history])

/-- A transition was taken, and what was in its way was left. -/
theorem saves {transition : Trace.Entry} (sets : transition.isTransition = true)
    (alike : start.Alike (Stays.nowhere.replay past))
    (remembers : Remembers kernel.definition.sections state (past ++ before.trace.toList)
      before.inst)
    (saves : Saves kernel ((before.note transition).stays start) state (before.note transition)
      after) :
    Remembers kernel.definition.sections state (past ++ after.trace.toList) after.inst := by
  obtain ⟨added, grows, plain, saved, unsaved⟩ := saves
  have noted : (before.note transition).trace.toList = before.trace.toList ++ [transition] :=
    Array.toList_push
  have whole : past ++ after.trace.toList =
      (past ++ before.trace.toList) ++ transition :: added := by
    rw [grows, noted]
    simp only [List.append_assoc, List.singleton_append]
  have other : .exit state ≠ transition := by
    rintro rfl
    cases sets
  rw [whole]
  by_cases left : .exit state ∈ added
  · have now : Trace.departure state ((past ++ before.trace.toList) ++ transition :: added) =
        (past ++ before.trace.toList) ++ [transition] :=
      Trace.departure_transition sets left plain
    refine ⟨fun absent => absurd (List.mem_append_right _ (List.mem_cons_of_mem _ left)) absent,
      fun _ => ?_⟩
    obtain ⟨slot, found, recalls⟩ := saved left
    refine ⟨slot, found, recalls.of_alike ?_⟩
    rw [now, List.append_assoc, ← noted, Stays.replay_append]
    exact alike.replay _
  · refine remembers.append (fun listed => ?_) (unsaved left)
    exact (List.mem_cons.1 listed).elim other left

end Remembers

end Kernel

end Statechart
