/-
# Stays

Which states are active can be read off the trace of an instance's life: a state is active
from its enter record to its next exit record, and an overflow of a run to completion ends
every stay at once, without exits. `Stays` keeps this account, together with the time since
each enter record, and `replay` brings it forward along a trace.

A trace is `Orderly` if it enters and leaves states in the order of the tree: a state is
entered while it is not active, below an active state or the root, and beside no active
sibling unless all siblings are to be active; it is left while it is active, when none of its
children is. From such a trace the active states come out `Nested`, and two active states
are always such that they may be active together (`Nested.coActive`).
-/

import Mathlib.Logic.Function.Basic
import Statechart.Proofs.Rom.Tree
import Statechart.Trace.Record

namespace Statechart

open Rom (Sections noIndex rootIndex)

/-- A record of a step that enters and leaves no state. -/
def Trace.Entry.Still : Trace.Entry → Prop
  | .enter _ | .exit _ | .rtcOverflow _ => False
  | _ => True

/-- The states that were entered and not left since, and how many milliseconds ago each of
them was entered. -/
abbrev Stays := UInt16 → Option Nat

namespace Stays

variable {sections : Sections} {stays : Stays} {state other : UInt16}
  {first second : List Trace.Entry}

/-- Nothing was entered. -/
def nowhere : Stays := fun _ => none

/-- A state was entered and not left since. -/
def Open (stays : Stays) (state : UInt16) : Prop :=
  stays state ≠ none

/-- Time passes. -/
def age (delta : Nat) (stays : Stays) : Stays := fun state =>
  (stays state).map (· + delta)

/-- What a step of a tick does to the stays. -/
def step (stays : Stays) : Trace.Entry → Stays
  | .enter state => Function.update stays state (some 0)
  | .exit state => Function.update stays state none
  | .rtcOverflow _ => nowhere
  | _ => stays

/-- What the steps of a trace do to the stays. -/
def replay (stays : Stays) (trace : List Trace.Entry) : Stays :=
  trace.foldl step stays

@[simp]
theorem not_open_nowhere : ¬ nowhere.Open state :=
  fun stays => stays rfl

@[simp]
theorem open_age {delta : Nat} : (stays.age delta).Open state ↔ stays.Open state := by
  simp [Open, age]

@[simp]
theorem open_enter : (stays.step (.enter state)).Open other ↔ stays.Open other ∨ other = state := by
  show Function.update stays state (some 0) other ≠ none ↔ _
  by_cases same : other = state
  · subst same
    rw [Function.update_self]
    exact iff_of_true nofun (.inr rfl)
  · rw [Function.update_of_ne same]
    exact (or_iff_left same).symm

@[simp]
theorem open_exit : (stays.step (.exit state)).Open other ↔ stays.Open other ∧ other ≠ state := by
  show Function.update stays state none other ≠ none ↔ _
  by_cases same : other = state
  · subst same
    rw [Function.update_self]
    exact iff_of_false (fun other => other rfl) fun both => both.2 rfl
  · rw [Function.update_of_ne same]
    exact (and_iff_left same).symm

theorem replay_append : stays.replay (first ++ second) = (stays.replay first).replay second :=
  List.foldl_append

/-- A state is entered where it may become active. -/
structure Enterable (sections : Sections) (stays : Stays) (state : UInt16) : Prop where
  has : sections.Has state
  ne_root : state ≠ rootIndex
  closed : ¬ stays.Open state
  above : (sections.record state).parent = rootIndex ∨
    stays.Open (sections.record state).parent
  alone : (sections.record (sections.record state).parent).flags.parallel = false →
    ∀ sibling, sections.Child (sections.record state).parent sibling → ¬ stays.Open sibling

/-- A state is left that is active and has no active child. -/
structure Leavable (sections : Sections) (stays : Stays) (state : UInt16) : Prop where
  isOpen : stays.Open state
  childless : ∀ child, sections.Child state child → ¬ stays.Open child

/-- A step enters or leaves a state only where this is in order. -/
def InOrder (sections : Sections) (stays : Stays) : Trace.Entry → Prop
  | .enter state => Enterable sections stays state
  | .exit state => Leavable sections stays state
  | _ => True

/-- Every step of a trace is in order where it happens. -/
def Orderly (sections : Sections) : Stays → List Trace.Entry → Prop
  | _, [] => True
  | stays, entry :: rest => InOrder sections stays entry ∧ Orderly sections (stays.step entry) rest

theorem orderly_append : Orderly sections stays (first ++ second) ↔
    Orderly sections stays first ∧ Orderly sections (stays.replay first) second := by
  induction first generalizing stays with
  | nil => exact (and_iff_right trivial).symm
  | cons entry rest ih =>
    show _ ∧ Orderly sections _ (rest ++ second) ↔ (_ ∧ _) ∧ _
    rw [ih, and_assoc]
    rfl

theorem step_of_still {entry : Trace.Entry} (still : entry.Still) : stays.step entry = stays := by
  cases entry with
  | enter _ => cases still
  | exit _ => cases still
  | rtcOverflow _ => cases still
  | _ => rfl

theorem inOrder_of_still {entry : Trace.Entry} (still : entry.Still) :
    InOrder sections stays entry := by
  cases entry with
  | enter _ => cases still
  | exit _ => cases still
  | _ => trivial

/-- A trace that enters and leaves no state changes no stay. -/
theorem replay_of_still {trace : List Trace.Entry} (still : ∀ entry ∈ trace, entry.Still) :
    stays.replay trace = stays := by
  induction trace with
  | nil => rfl
  | cons entry rest ih =>
    obtain ⟨first, later⟩ := List.forall_mem_cons.1 still
    show (stays.step entry).replay rest = stays
    rw [step_of_still first, ih later]

theorem orderly_of_still {trace : List Trace.Entry} (still : ∀ entry ∈ trace, entry.Still) :
    Orderly sections stays trace := by
  induction trace with
  | nil => trivial
  | cons entry rest ih =>
    obtain ⟨first, later⟩ := List.forall_mem_cons.1 still
    exact ⟨inOrder_of_still first, (step_of_still first).symm ▸ ih later⟩

/-- Active states lie below active states, and beside none unless their parent is parallel. -/
structure Nested (sections : Sections) (stays : Stays) : Prop where
  child {state : UInt16} : stays.Open state →
    sections.Child (sections.record state).parent state
  above {state : UInt16} : stays.Open state → (sections.record state).parent = rootIndex ∨
    stays.Open (sections.record state).parent
  alone {parent first second : UInt16} : (sections.record parent).flags.parallel = false →
    sections.Child parent first → sections.Child parent second →
    stays.Open first → stays.Open second → first = second

namespace Nested

theorem nowhere : Nested sections nowhere where
  child isOpen := absurd isOpen not_open_nowhere
  above isOpen := absurd isOpen not_open_nowhere
  alone _ _ _ isOpen := absurd isOpen not_open_nowhere

theorem age (nested : Nested sections stays) (delta : Nat) :
    Nested sections (stays.age delta) where
  child isOpen := nested.child (open_age.1 isOpen)
  above isOpen := (nested.above (open_age.1 isOpen)).imp_right open_age.2
  alone serial first second isOpen other :=
    nested.alone serial first second (open_age.1 isOpen) (open_age.1 other)

theorem enter (nested : Nested sections stays) (enterable : Enterable sections stays state) :
    Nested sections (stays.step (.enter state)) where
  child isOpen := by
    rcases open_enter.1 isOpen with before | rfl
    · exact nested.child before
    · exact ⟨enterable.has, enterable.ne_root, rfl⟩
  above isOpen := by
    rcases open_enter.1 isOpen with before | rfl
    · exact (nested.above before).imp_right fun upper => open_enter.2 (.inl upper)
    · exact enterable.above.imp_right fun upper => open_enter.2 (.inl upper)
  alone {parent first second} serial left right isOpen otherOpen := by
    -- A sibling of the state that was entered is not active.
    have lonely {sibling : UInt16} (own : sections.Child parent state)
        (linked : sections.Child parent sibling) : ¬ stays.Open sibling := by
      have parentEq := own.parent_eq
      exact enterable.alone (parentEq ▸ serial) sibling (parentEq ▸ linked)
    rcases open_enter.1 isOpen with before | rfl
    · rcases open_enter.1 otherOpen with alsoBefore | rfl
      · exact nested.alone serial left right before alsoBefore
      · exact absurd before (lonely right left)
    · rcases open_enter.1 otherOpen with before | rfl
      · exact absurd before (lonely left right)
      · rfl

theorem exit (nested : Nested sections stays) (leavable : Leavable sections stays state) :
    Nested sections (stays.step (.exit state)) where
  child isOpen := nested.child (open_exit.1 isOpen).1
  above {inner} isOpen := by
    obtain ⟨before, _⟩ := open_exit.1 isOpen
    refine (nested.above before).imp_right fun upper => open_exit.2 ⟨upper, fun same => ?_⟩
    exact leavable.childless inner (same ▸ nested.child before) before
  alone serial left right isOpen otherOpen :=
    nested.alone serial left right (open_exit.1 isOpen).1 (open_exit.1 otherOpen).1

theorem step (nested : Nested sections stays) {entry : Trace.Entry}
    (inOrder : InOrder sections stays entry) : Nested sections (stays.step entry) := by
  cases entry with
  | enter state => exact nested.enter inOrder
  | exit state => exact nested.exit inOrder
  | rtcOverflow _ => exact .nowhere
  | _ => exact nested

/-- Along an orderly trace the active states stay nested. -/
theorem replay (nested : Nested sections stays) {trace : List Trace.Entry}
    (orderly : Orderly sections stays trace) : Nested sections (stays.replay trace) := by
  induction trace generalizing stays with
  | nil => exact nested
  | cons entry rest ih => exact ih (nested.step orderly.1) orderly.2

/-- Every state above an active one is active, except for the root. -/
theorem open_of_beneath (nested : Nested sections stays) (beneath : sections.Beneath other state)
    (isOpen : stays.Open state) (inner : other ≠ rootIndex) : stays.Open other := by
  induction beneath with
  | self _ => exact isOpen
  | @under parent child above linked ih =>
    rcases nested.above isOpen with top | upper
    · rw [linked.parent_eq] at top
      subst top
      cases above with
      | self _ => exact absurd rfl inner
      | under _ up => exact absurd rfl up.ne_root
    · exact ih (linked.parent_eq ▸ upper)

/-- An active state may be active together with every state on the way down to another. -/
theorem coActive_of_beneath (nested : Nested sections stays) {top : UInt16}
    (beneath : sections.Beneath rootIndex top) (reached : top = rootIndex ∨ stays.Open top)
    (below : sections.Beneath rootIndex state) (isOpen : stays.Open state) :
    sections.CoActive top state := by
  induction beneath with
  | self _ => exact .above below
  | @under parent child _ linked ih =>
    have childOpen := reached.resolve_left linked.ne_root
    cases ih (linked.parent_eq ▸ nested.above childOpen) with
    | above down =>
      by_cases same : state = parent
      · subst same
        exact .below (.under (.self below.has) linked)
      -- The ways to both states part at `parent`, or go on together.
      · obtain ⟨next, otherLinked, rest⟩ := down.exists_child same
        by_cases together : next = child
        · exact .above (together ▸ rest)
        · have nextOpen := nested.open_of_beneath rest isOpen otherLinked.ne_root
          refine .across ?_ linked otherLinked (Ne.symm together) (.self linked.has) rest
          apply Classical.byContradiction
          intro serial
          exact together (nested.alone (Bool.eq_false_iff.2 serial) otherLinked linked nextOpen
            childOpen)
    | below up => exact .below (.under up linked)
    | across parallel left right differ first second =>
      exact .across parallel left right differ (.under first linked) second

/-- Two active states may be active together. -/
theorem coActive (nested : Nested sections stays) (wellFormed : sections.WellFormed)
    (isOpen : stays.Open state) (otherOpen : stays.Open other) : sections.CoActive state other :=
  nested.coActive_of_beneath (wellFormed.beneath_root (nested.child isOpen).has) (.inr isOpen)
    (wellFormed.beneath_root (nested.child otherOpen).has) otherOpen

end Nested

end Stays

end Statechart
