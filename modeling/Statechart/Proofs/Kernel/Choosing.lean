/-
# Which transition is chosen

A kernel looks for a transition with as little work as it can: it leaves a state's run at
the first transition that can no longer win, leaves the way up from a leaf at the first
state that an earlier leaf has reached, and asks no guard whose answer cannot matter. What it
finds is told here without any of this. `chosen` is the first global transition that
applies, or else the one of highest priority among all transitions of active states that
apply, the earliest one of several: states are looked at from leaf to leaf in the order of
the leaf slots, each time from the leaf up, and each state once.

The two agree if the runs lie in descending order of priority and if the guards are
steadfast: they leave the instance alone, and asking them does not change what they answer.
Nothing is asked of the tables but that there is a way up from each active leaf.
-/

import Mathlib.Data.List.MinMax
import Statechart.Proofs.Kernel.Steady
import Statechart.Proofs.Rom.Ascent
import Statechart.Proofs.Rom.Encoding

namespace Statechart

open Rom (Definition Sections TransitionRecord noIndex)

/-! ### What should be chosen -/

namespace Rom.Sections

/-- The active states in the order in which they are looked at: from leaf to leaf, each time
from the leaf up, each state where it comes first. -/
def lookedAt (sections : Sections) (active : List UInt16) : List UInt16 :=
  (active.flatMap sections.upward).eraseDups

/-- A state's own transitions. -/
def run (sections : Sections) (state : UInt16) : List TransitionRecord :=
  (sections.record state).transitions.toList.filterMap fun index => sections.transitions[index]?

/-- A state's run lies inside the table, in descending order of priority. -/
structure Descends (sections : Sections) (state : UInt16) : Prop where
  inside : ∀ index ∈ (sections.record state).transitions.toList,
    index < sections.transitions.size
  ordered : (sections.run state).Pairwise fun first second => second.priority ≤ first.priority

instance (sections : Sections) (state : UInt16) : Decidable (sections.Descends state) :=
  decidable_of_iff
    ((∀ index ∈ (sections.record state).transitions.toList, index < sections.transitions.size) ∧
      (sections.run state).Pairwise fun first second => second.priority ≤ first.priority)
    ⟨fun both => ⟨both.1, both.2⟩, fun descends => ⟨descends.inside, descends.ordered⟩⟩

end Rom.Sections

namespace Kernel

variable {User : Type}

/-- Whether a guard passes, if there is one, when the guards answer like this. -/
def passes (answer : UInt16 → Bool) (transition : TransitionRecord) : Bool :=
  transition.guard = Name.noId || answer transition.guard

/-- Whether a global transition applies. -/
def appliesAnywhere (answer : UInt16 → Bool) (event : Event) (transition : TransitionRecord) :
    Bool :=
  transition.event = event.id && passes answer transition

/-- Whether a transition of `state` applies. -/
def appliesAt (answer : UInt16 → Bool) (event : Event) (state : UInt16)
    (transition : TransitionRecord) : Bool :=
  awaits state transition event && passes answer transition

/-- The transitions of some states that apply, state by state. -/
def applicable (sections : Sections) (answer : UInt16 → Bool) (event : Event)
    (states : List UInt16) : List TransitionRecord :=
  states.flatMap fun state => (sections.run state).filter (appliesAt answer event state)

/-- The transition to take on an event: the first global one that applies, or else the first
one of highest priority among those of active states. -/
def chosen (sections : Sections) (answer : UInt16 → Bool) (event : Event)
    (active : List UInt16) : Option TransitionRecord :=
  (sections.globals.toList.find? (appliesAnywhere answer event)).or
    ((applicable sections answer event (sections.lookedAt active)).argmax fun transition =>
      transition.priority.toNat)

/-- A transition applies: it is a global one, or one of an active state's own. -/
def Applies (sections : Sections) (answer : UInt16 → Bool) (event : Event)
    (active : List UInt16) (transition : TransitionRecord) : Prop :=
  transition ∈ sections.globals ∧ appliesAnywhere answer event transition = true ∨
    ∃ leaf ∈ active, ∃ state ∈ sections.upward leaf, transition ∈ sections.run state ∧
      appliesAt answer event state transition = true

/-- Nothing is chosen exactly if no transition applies. -/
theorem chosen_eq_none_iff {sections : Sections} {answer : UInt16 → Bool} {event : Event}
    {active : List UInt16} :
    chosen sections answer event active = none ↔
      ∀ transition, ¬ Applies sections answer event active transition := by
  unfold chosen applicable Sections.lookedAt Applies
  rw [Option.or_eq_none_iff, List.find?_eq_none, List.argmax_eq_none, List.flatMap_eq_nil_iff]
  simp only [List.filter_eq_nil_iff, List.mem_eraseDups, List.mem_flatMap, Array.mem_toList_iff]
  constructor
  · rintro ⟨nowhere, never⟩ transition
      (⟨listed, applies⟩ | ⟨leaf, isActive, state, met, own, applies⟩)
    · exact nowhere transition listed applies
    · exact never state ⟨leaf, isActive, met⟩ transition own applies
  · intro never
    refine ⟨fun transition listed applies => never transition (.inl ⟨listed, applies⟩), ?_⟩
    rintro state ⟨leaf, isActive, met⟩ transition own applies
    exact never transition (.inr ⟨leaf, isActive, state, met, own, applies⟩)

/-! ### Steadfast guards -/

/-- A transition of the definition has this guard. -/
def Guarded (sections : Sections) (guard : UInt16) : Prop :=
  ∃ transition, (transition ∈ sections.globals ∨ transition ∈ sections.transitions) ∧
    transition.guard = guard

/-- The host's values that asking the definition's guards about an event can lead to, when
the instance stays the same. -/
inductive Consulted (kernel : Kernel User) (event : UInt16) (inst : Instance) (start : User) :
    User → Prop
  | start : Consulted kernel event inst start start
  | asked {guard : UInt16} {user later : User} {passed : Bool} {after : Instance} :
      Consulted kernel event inst start user → Guarded kernel.definition.sections guard →
      kernel.dispatch.check guard event inst user = .ok (passed, after, later) →
      Consulted kernel event inst start later

/-- Whichever guards of the definition have been asked, they answer alike and leave the
instance as it is. -/
def Steadfast (kernel : Kernel User) (event : UInt16) (inst : Instance) (start : User)
    (answer : UInt16 → Bool) : Prop :=
  ∀ guard user, Guarded kernel.definition.sections guard →
    Consulted kernel event inst start user →
      ∃ later, kernel.dispatch.check guard event inst user = .ok (answer guard, inst, later)

/-- Nothing has happened but that guards were asked. -/
structure Unmoved (kernel : Kernel User) (event : UInt16) (before after : Progress User) :
    Prop where
  inst_eq : after.inst = before.inst
  consulted : Consulted kernel event before.inst before.user after.user

variable {kernel : Kernel User} {event : Event} {before progress : Progress User}
  {answer : UInt16 → Bool} {active : List UInt16} {state : UInt16}

theorem Unmoved.refl (kernel : Kernel User) (event : UInt16) (progress : Progress User) :
    Unmoved kernel event progress progress :=
  ⟨rfl, .start⟩

/-- Asking the guard of a transition gives its answer, and moves nothing. -/
theorem Steadfast.checkGuard_returns
    (steadfast : Steadfast kernel event.id before.inst before.user answer)
    {transition : TransitionRecord}
    (listed : transition ∈ kernel.definition.sections.globals ∨
      transition ∈ kernel.definition.sections.transitions)
    (unmoved : Unmoved kernel event.id before progress) :
    Returns (kernel.checkGuard transition.guard event.id progress) fun found =>
      found.1 = passes answer transition ∧ Unmoved kernel event.id before found.2 := by
  have guarded : Guarded kernel.definition.sections transition.guard := ⟨transition, listed, rfl⟩
  unfold checkGuard passes
  split
  · next absent =>
    rw [decide_eq_true absent, Bool.true_or]
    exact .ok ⟨rfl, unmoved⟩
  · next present =>
    obtain ⟨later, asked⟩ := steadfast transition.guard progress.user guarded unmoved.consulted
    rw [decide_eq_false present, Bool.false_or]
    rw [unmoved.inst_eq, asked, ok_bind]
    exact .pure ⟨rfl, rfl, .asked unmoved.consulted guarded asked⟩

/-! ### The walk finds it -/

/-- The first global transition that applies is found. -/
theorem Steadfast.selectGlobal_returns
    (steadfast : Steadfast kernel event.id before.inst before.user answer)
    {globals : List TransitionRecord}
    (listed : ∀ transition ∈ globals, transition ∈ kernel.definition.sections.globals)
    (unmoved : Unmoved kernel event.id before progress) :
    Returns (kernel.selectGlobal event globals progress) fun found =>
      found.1 = globals.find? (appliesAnywhere answer event) ∧
        Unmoved kernel event.id before found.2 := by
  induction globals generalizing progress with
  | nil => exact .ok ⟨rfl, unmoved⟩
  | cons transition rest ih =>
    have later := fun other member => listed other (List.mem_cons_of_mem transition member)
    rw [selectGlobal, List.find?_cons, appliesAnywhere]
    by_cases awaited : transition.event = event.id
    · rw [if_pos awaited, decide_eq_true awaited, Bool.true_and]
      apply (steadfast.checkGuard_returns (.inl (listed transition (List.mem_cons_self ..)))
        unmoved).bind
      rintro ⟨passed, asked⟩ ⟨rfl, still⟩
      cases passed' : passes answer transition with
      | true => exact .pure ⟨rfl, still⟩
      | false => exact ih later still
    · rw [if_neg awaited, decide_eq_false awaited, Bool.false_and]
      exact ih later unmoved

/-- The better of the best transition so far and a later one. -/
def better (best : Option TransitionRecord) (transition : TransitionRecord) :
    Option TransitionRecord :=
  List.argAux (fun later found => found.priority.toNat < later.priority.toNat) best transition

theorem better_eq_of_outranks {best : Option TransitionRecord} {transition : TransitionRecord}
    (outranked : outranks best transition = true) : better best transition = best := by
  cases best with
  | none => cases outranked
  | some found =>
    have least : transition.priority ≤ found.priority := of_decide_eq_true outranked
    exact if_neg (Nat.not_lt.2 (UInt8.le_iff_toNat_le.1 least))

theorem better_eq_of_not_outranks {best : Option TransitionRecord}
    {transition : TransitionRecord} (wins : outranks best transition = false) :
    better best transition = some transition := by
  cases best with
  | none => rfl
  | some found =>
    have more : ¬ transition.priority ≤ found.priority := of_decide_eq_false wins
    exact if_pos (Nat.lt_of_not_le fun least => more (UInt8.le_iff_toNat_le.2 least))

/-- A transition that outranks another one outranks what is no more urgent than that. -/
theorem outranks_trans {best : Option TransitionRecord} {transition other : TransitionRecord}
    (outranked : outranks best transition = true) (least : other.priority ≤ transition.priority) :
    outranks best other = true := by
  cases best with
  | none => cases outranked
  | some found => exact decide_eq_true (UInt8.le_trans least (of_decide_eq_true outranked))

/-- What is outranked throughout changes nothing. -/
theorem foldl_better_of_outranks {best : Option TransitionRecord}
    {transitions : List TransitionRecord}
    (outranked : ∀ transition ∈ transitions, outranks best transition = true) :
    transitions.foldl better best = best := by
  induction transitions with
  | nil => rfl
  | cons transition rest ih =>
    rw [List.foldl_cons, better_eq_of_outranks (outranked transition (List.mem_cons_self ..))]
    exact ih fun other member => outranked other (List.mem_cons_of_mem transition member)

/-- Of a state's run, what applies is weighed against the best so far: what the walk passes
over would not have won. -/
theorem Steadfast.selectOwn_returns
    (steadfast : Steadfast kernel event.id before.inst before.user answer)
    {indices : List Nat}
    (inside : ∀ index ∈ indices, index < kernel.definition.sections.transitions.size)
    {own : List TransitionRecord}
    (own_eq : own = indices.filterMap fun index => kernel.definition.sections.transitions[index]?)
    (ordered : own.Pairwise fun first second => second.priority ≤ first.priority)
    {best : Option TransitionRecord} (unmoved : Unmoved kernel event.id before progress) :
    Returns (kernel.selectOwn event state indices (best, progress)) fun found =>
      found.1 = (own.filter (appliesAt answer event state)).foldl better best ∧
        Unmoved kernel event.id before found.2 := by
  induction indices generalizing own best progress with
  | nil =>
    subst own_eq
    exact .ok ⟨rfl, unmoved⟩
  | cons index indices ih =>
    have later := fun other member => inside other (List.mem_cons_of_mem index member)
    obtain ⟨transition, present⟩ :
        ∃ transition, kernel.definition.sections.transitions[index]? = some transition :=
      ⟨_, Array.getElem?_eq_getElem (inside index (List.mem_cons_self ..))⟩
    have looked : kernel.definition.transition index = .ok transition := by
      unfold Definition.transition Definition.entry
      rw [present]
    rw [List.filterMap_cons, present] at own_eq
    subst own_eq
    obtain ⟨below, orderedRest⟩ := List.pairwise_cons.1 ordered
    unfold selectOwn
    simp only [looked, ok_bind]
    rw [List.filter_cons, appliesAt]
    cases awaited : awaits state transition event with
    | false =>
      rw [Bool.not_false, if_pos rfl, Bool.false_and, if_neg Bool.false_ne_true]
      exact ih later rfl orderedRest unmoved
    | true =>
      rw [Bool.not_true, if_neg Bool.false_ne_true, Bool.true_and]
      cases wins : outranks best transition with
      | true =>
        -- The rest of the run is no more urgent, so neither this one nor the rest matters.
        rw [if_pos rfl]
        refine .pure ⟨(foldl_better_of_outranks fun other member => ?_).symm, unmoved⟩
        split at member
        · rcases List.mem_cons.1 member with rfl | member
          · exact wins
          · exact outranks_trans wins (below other (List.mem_of_mem_filter member))
        · exact outranks_trans wins (below other (List.mem_of_mem_filter member))
      | false =>
        rw [if_neg Bool.false_ne_true]
        apply (steadfast.checkGuard_returns (.inr (Array.mem_of_getElem? present)) unmoved).bind
        rintro ⟨passed, asked⟩ ⟨rfl, still⟩
        cases passed' : passes answer transition with
        | true =>
          -- What comes behind a transition that applies is no more urgent.
          simp only [if_true, List.foldl_cons, better_eq_of_not_outranks wins]
          refine .pure ⟨(foldl_better_of_outranks fun other member => ?_).symm, still⟩
          exact decide_eq_true (below other (List.mem_of_mem_filter member))
        | false => exact ih later rfl orderedRest still

/-! ### The walks follow the ways up -/

/-- A climb visits the states of a way up, as far as it gets. -/
theorem climb_follows {Found : Type} {definition : Definition}
    {done : UInt16 → Found → Except Fault Bool}
    {visit : UInt16 → Rom.StateRecord → Found → Except Fault Found} (reached : UInt16 → Bool)
    (invariant : List UInt16 → Found → Prop) {leaf : UInt16} {found : Found}
    (asks : ∀ state seen found, invariant seen found → done state found = .ok (reached state))
    (visits : ∀ state seen found, definition.sections.Has state → invariant seen found →
      Returns (visit state (definition.sections.record state) found) (invariant (seen ++ [state])))
    {path : List UInt16} (ascent : definition.sections.Ascent leaf path)
    {seen : List UInt16} (begins : invariant seen found) :
    Returns (climb definition leaf done visit found)
      (invariant (seen ++ path.takeWhile fun state => !reached state)) := by
  have climbing {steps : Nat} (enough : path.length ≤ steps) :
      Returns (climbFrom definition done visit steps leaf found)
        (invariant (seen ++ path.takeWhile fun state => !reached state)) := by
    induction ascent generalizing steps seen found with
    | past =>
      rw [List.takeWhile_nil, List.append_nil]
      cases steps <;> exact .pure begins
    | @up state path has isState _ ih =>
      obtain ⟨fewer, rfl⟩ : ∃ fewer, steps = fewer + 1 :=
        Nat.exists_eq_add_one.2 (Nat.lt_of_lt_of_le (Nat.succ_pos _) enough)
      rw [climbFrom, if_neg isState, asks state seen found begins, ok_bind, List.takeWhile_cons]
      cases met : reached state with
      | true => exact .pure (by simpa using begins)
      | false =>
        simp only [Bool.false_eq_true, if_false, Definition.state_eq has, ok_bind]
        apply (visits state seen found has begins).bind
        intro next visited
        have rest := ih visited (Nat.le_of_succ_le_succ enough)
        rwa [List.append_assoc, List.singleton_append] at rest
  exact climbing (Nat.le_succ_of_le ascent.length_le)

/-- A state is reached from some leaves if it is met on the way up from one of them. -/
theorem isReached_eq {definition : Definition} {inst : Instance} {slots : List Nat}
    {leaves : List UInt16}
    (found : List.Forall₂ (fun slot leaf => inst.leaf slot = .ok leaf) slots leaves)
    (ascents : ∀ leaf ∈ leaves, ∃ path, definition.sections.Ascent leaf path) :
    isReached definition inst state slots =
      .ok (decide (state ∈ leaves.flatMap definition.sections.upward)) := by
  induction found with
  | nil => rfl
  | @cons slot leaf slots leaves same _ ih =>
    obtain ⟨path, ascent⟩ := ascents leaf (List.mem_cons_self ..)
    rw [isReached, same, ok_bind, Definition.isAncestorOrSelf_of_ascent ascent, ok_bind,
      ih fun other later => ascents other (List.mem_cons_of_mem leaf later), List.flatMap_cons]
    by_cases met : state ∈ definition.sections.upward leaf
    · rw [decide_eq_true met, if_pos rfl, decide_eq_true (List.mem_append_left _ met)]
      rfl
    · rw [decide_eq_false met, if_neg Bool.false_ne_true]
      simp only [List.mem_append, met, false_or]

/-! ### What is looked at -/

/-- Of a way up, those states are new that come before the first one that was seen, if all
that is above a state was seen with it. -/
theorem new_eq_takeWhile {sections : Sections} {leaf : UInt16} {path seen : List UInt16}
    (closed : ∀ state ∈ seen, ∀ above, sections.Ascent state above → ∀ upper ∈ above, upper ∈ seen)
    (ascent : sections.Ascent leaf path) :
    (path.removeAll seen).eraseDups = path.takeWhile fun state => !decide (state ∈ seen) := by
  induction ascent with
  | past => rfl
  | @up state path has isState rest ih =>
    have whole : sections.Ascent state (state :: path) := .up has isState rest
    rw [List.takeWhile_cons]
    by_cases member : state ∈ seen
    · have none : (state :: path).removeAll seen = [] := by
        refine List.filter_eq_nil_iff.2 fun upper listed => ?_
        rw [List.elem_eq_true_of_mem (closed state member _ whole upper listed)]
        decide
      rw [none, decide_eq_true member]
      rfl
    · have first : (state :: path).removeAll seen = state :: path.removeAll seen :=
        List.filter_cons_of_pos (by simp [member])
      have apart : (path.removeAll seen).filter (fun other => !other == state) =
          path.removeAll seen := by
        refine List.filter_eq_self.2 fun other listed => ?_
        have differ : other ≠ state := by
          rintro rfl
          exact (List.nodup_cons.1 whole.nodup).1 (List.mem_of_mem_filter listed)
        simp [differ]
      rw [first, List.eraseDups_cons, apart, ih, decide_eq_false member]
      rfl

/-- Of the way up from another leaf, those states are looked at that come before the first
one that an earlier leaf has reached. -/
theorem lookedAt_concat {sections : Sections} {leaf : UInt16} {path : List UInt16}
    (ascents : ∀ leaf ∈ active, ∃ path, sections.Ascent leaf path)
    (ascent : sections.Ascent leaf path) :
    sections.lookedAt (active ++ [leaf]) = sections.lookedAt active ++
      path.takeWhile fun state => !decide (state ∈ active.flatMap sections.upward) := by
  unfold Sections.lookedAt
  rw [List.flatMap_append, List.flatMap_singleton, ascent.upward_eq, List.eraseDups_append,
    new_eq_takeWhile _ ascent]
  intro state seen above rise upper listed
  obtain ⟨other, isActive, met⟩ := List.mem_flatMap.1 seen
  obtain ⟨way, climbed⟩ := ascents other isActive
  rw [climbed.upward_eq] at met
  refine List.mem_flatMap.2 ⟨other, isActive, ?_⟩
  rw [climbed.upward_eq]
  exact climbed.subset_of_mem met rise upper listed

/-! ### All leaves -/

theorem applicable_concat (sections : Sections) (answer : UInt16 → Bool) (event : Event)
    (states : List UInt16) (state : UInt16) :
    applicable sections answer event (states ++ [state]) =
      applicable sections answer event states ++
        (sections.run state).filter (appliesAt answer event state) := by
  rw [applicable, applicable, List.flatMap_append, List.flatMap_cons, List.flatMap_nil,
    List.append_nil]

/-- The leaf slots before a given one hold the active leaves before it. -/
theorem leaf_eq_of_holds {inst : Instance} (holds : Holds inst.leaves active) {index : Nat}
    (inside : index < active.length) : inst.leaf index = .ok active[index] := by
  have same : inst.leaves[index]? = some active[index] := by
    rw [holds.slots_eq, List.getElem?_append_left inside, List.getElem?_eq_getElem inside]
  rw [Instance.leaf, Instance.slot, same]

theorem leaf_eq_noIndex {inst : Instance} (holds : Holds inst.leaves active) {index : Nat}
    (inside : index < inst.tier.leafCapacity) (behind : active.length ≤ index) :
    inst.leaf index = .ok noIndex := by
  have length := inst.length_leaves
  have same : inst.leaves[index]? = some noIndex := by
    rw [holds.slots_eq, List.getElem?_append_right behind, List.getElem?_replicate,
      if_pos (by omega)]
  rw [Instance.leaf, Instance.slot, same]

theorem leaves_take {inst : Instance} (holds : Holds inst.leaves active) {count : Nat}
    (few : count ≤ active.length) :
    List.Forall₂ (fun slot leaf => inst.leaf slot = .ok leaf) (List.range count)
      (active.take count) := by
  refine List.forall₂_iff_get.2 ⟨by rw [List.length_range, List.length_take]; omega, ?_⟩
  intro index inside _
  have below : index < active.length := by
    rw [List.length_range] at inside
    exact Nat.lt_of_lt_of_le inside few
  simpa using leaf_eq_of_holds holds below

/-- Whatever lies above the leaves in the slots looked through so far has been weighed. -/
theorem Steadfast.selectLocal_returns
    (steadfast : Steadfast kernel event.id before.inst before.user answer)
    (holds : Holds before.inst.leaves active)
    (ascents : ∀ leaf ∈ active, ∃ path, kernel.definition.sections.Ascent leaf path)
    (descends : ∀ state, kernel.definition.sections.Has state →
      kernel.definition.sections.Descends state)
    {count index : Nat} (rest : index + count = before.inst.tier.leafCapacity)
    {found : Option TransitionRecord × Progress User}
    (weighed : found.1 = (applicable kernel.definition.sections answer event
      (kernel.definition.sections.lookedAt (active.take index))).foldl better none)
    (unmoved : Unmoved kernel event.id before found.2) :
    Returns (kernel.selectLocal event (List.range' index count) found) fun found =>
      found.1 = (applicable kernel.definition.sections answer event
        (kernel.definition.sections.lookedAt active)).foldl better none ∧
        Unmoved kernel event.id before found.2 := by
  have few := holds.length_le
  rw [before.inst.length_leaves] at few
  induction count generalizing index found with
  | zero =>
    rw [List.take_of_length_le (by omega)] at weighed
    exact .ok ⟨weighed, unmoved⟩
  | succ count ih =>
    rw [List.range'_succ, selectLocal, unmoved.inst_eq]
    by_cases inside : index < active.length
    · have isActive := List.getElem_mem inside
      obtain ⟨path, ascent⟩ := ascents _ isActive
      rw [leaf_eq_of_holds holds inside, ok_bind, if_neg (holds.ne_noIndex _ isActive)]
      let reached (state : UInt16) : Bool :=
        decide (state ∈ (active.take index).flatMap kernel.definition.sections.upward)
      let invariant (seen : List UInt16) (found : Option TransitionRecord × Progress User) :=
        found.1 = (applicable kernel.definition.sections answer event
          (kernel.definition.sections.lookedAt (active.take index) ++ seen)).foldl better none ∧
          Unmoved kernel event.id before found.2
      have earlier : ∀ leaf ∈ active.take index,
          ∃ path, kernel.definition.sections.Ascent leaf path :=
        fun leaf listed => ascents leaf (List.mem_of_mem_take listed)
      have asks : ∀ state seen found, invariant seen found →
          isReached kernel.definition found.2.inst state (List.range index) =
            .ok (reached state) := by
        intro state seen found visited
        rw [visited.2.inst_eq, isReached_eq (leaves_take holds (Nat.le_of_lt inside)) earlier]
      have visits : ∀ state seen found, kernel.definition.sections.Has state →
          invariant seen found →
          Returns (kernel.selectOwn event state
            (kernel.definition.sections.record state).transitions.toList found)
            (invariant (seen ++ [state])) := by
        intro state seen found has visited
        obtain ⟨own, ordered⟩ := descends state has
        refine (steadfast.selectOwn_returns own rfl ordered visited.2).mono fun next weighs => ?_
        refine ⟨weighs.1.trans ?_, weighs.2⟩
        rw [visited.1, ← List.foldl_append, ← List.append_assoc, applicable_concat]
        rfl
      have begins : invariant [] found := ⟨by rwa [List.append_nil], unmoved⟩
      refine (climb_follows reached invariant asks visits ascent begins).bind
        fun next visited => ih (by omega) ?_ visited.2
      rw [visited.1, List.nil_append, ← lookedAt_concat earlier ascent,
        List.take_append_getElem inside]
    · rw [leaf_eq_noIndex holds (by omega) (by omega), ok_bind, if_pos rfl]
      rw [List.take_of_length_le (by omega)] at weighed
      exact .pure ⟨weighed, unmoved⟩

/-- A kernel finds the transition that should be chosen, and nothing exactly if none applies.
The guards have been asked to no other effect than to answer. -/
theorem select_eq_chosen
    (steadfast : Steadfast kernel event.id progress.inst progress.user answer)
    (holds : Holds progress.inst.leaves active)
    (ascents : ∀ leaf ∈ active, ∃ path, kernel.definition.sections.Ascent leaf path)
    (descends : ∀ state, kernel.definition.sections.Has state →
      kernel.definition.sections.Descends state) :
    ∃ found after, kernel.select event progress = .ok (found, after) ∧
      found = chosen kernel.definition.sections answer event active ∧
      (found = none ↔ ∀ transition,
        ¬ Applies kernel.definition.sections answer event active transition) ∧
      after.inst = progress.inst := by
  have unmoved := Unmoved.refl kernel event.id progress
  have selected : Returns (kernel.select event progress) fun found =>
      found.1 = chosen kernel.definition.sections answer event active ∧
        Unmoved kernel event.id progress found.2 := by
    unfold select chosen
    apply (steadfast.selectGlobal_returns (fun _ => Array.mem_toList_iff.1) unmoved).bind
    rintro ⟨found, asked⟩ ⟨rfl, still⟩
    dsimp only
    cases kernel.definition.sections.globals.toList.find? (appliesAnywhere answer event) with
    | some transition => exact .pure ⟨rfl, still⟩
    | none =>
      rw [still.inst_eq, List.range_eq_range']
      exact steadfast.selectLocal_returns holds ascents descends (Nat.zero_add _) rfl still
  obtain ⟨⟨found, after⟩, ran, rfl, still⟩ := selected
  exact ⟨_, after, ran, rfl, chosen_eq_none_iff, still.inst_eq⟩

/-! ### A crossing -/

/-- A parallel root with two leaves. All three wait for the same event; the guard of the first
leaf's transition does not pass, and the others are equally urgent. -/
def crossing : Sections where
  states := #[
    { Rom.StateRecord.blank with
      firstChild := 1, childCount := 2, transitionStart := 3, transitionCount := 1
      flags := { Rom.StateFlags.none with composite := true, parallel := true } },
    { Rom.StateRecord.blank with
      parent := 0, depth := 1, transitionStart := 0, transitionCount := 1 },
    { Rom.StateRecord.blank with
      parent := 0, depth := 1, transitionStart := 1, transitionCount := 2 }]
  transitions := #[
    { TransitionRecord.blank with
      source := 1, target := 1, event := 2, guard := Name.hash16 "closed", priority := 9 },
    { TransitionRecord.blank with source := 2, target := 1, event := 2, priority := 5 },
    { TransitionRecord.blank with source := 2, target := 2, event := 2, priority := 3 },
    { TransitionRecord.blank with source := 0, target := 2, event := 2, priority := 5 }]
  regions := #[]
  globals := #[]
  events := #[]
  actions := #[]
  guards := #[Name.hash16 "closed"]

theorem exists_loaded_crossing : ∃ bytes definition,
    Definition.load bytes = .ok (.ok definition) ∧ definition.sections = crossing := by
  have encodable : crossing.Encodable := by constructor <;> decide
  have shaped : (Rom.Shape.ofSections crossing).isOk = true := by decide +kernel
  cases same : Rom.Shape.ofSections crossing with
  | ok shape => exact ⟨_, _, encodable.load_eq (by decide) same 7 9, rfl⟩
  | error _ =>
    rw [same] at shaped
    cases shaped

/-- A guard that never passes, and nothing else. -/
def closed : Dispatch Unit where
  actions := .empty
  guards := ⟨[.of "closed" fun _ inst user => .ok (false, inst, user)],
    List.pairwise_singleton ..⟩

theorem check_closed (guard event : UInt16) (inst : Instance) (user : Unit) :
    closed.check guard event inst user = .ok (guard != Name.hash16 "closed", inst, user) := by
  unfold Dispatch.check CallbackTable.callback? CallbackTable.find? closed
  by_cases same : guard = Name.hash16 "closed"
  · subst same
    rfl
  · have other : (Name.hash16 "closed" == guard) = false := beq_false_of_ne (Ne.symm same)
    rw [List.find?_cons_of_neg (by simp [Registration.of, other]), bne_iff_ne.2 same]
    rfl

/-- The root lies above the first leaf, so its transition comes first. -/
theorem select_eq_chosen_crossing :
    ∃ (bytes : Bytes) (definition : Definition) (progress : Progress Unit),
      Definition.load bytes = .ok (.ok definition) ∧ definition.sections = crossing ∧
      Holds progress.inst.leaves [1, 2] ∧
      ∃ after, Kernel.select ⟨definition, closed, .default⟩ (.ofId 2) progress =
        .ok (crossing.transitions[3]?, after) ∧ after.inst = progress.inst := by
  obtain ⟨bytes, definition, loads, tables⟩ := exists_loaded_crossing
  let inst := (Instance.fresh .tier256 0 1).withActiveLeaves [1, 2]
  let progress : Progress Unit := .ofScene ⟨inst, (), .ofPage .blank⟩
  have holds : Holds progress.inst.leaves [1, 2] :=
    Instance.holds_withActiveLeaves (by decide)
      (List.forall_mem_cons.2 ⟨by decide, List.forall_mem_singleton.2 (by decide)⟩)
  refine ⟨bytes, definition, progress, loads, tables, holds, ?_⟩
  let kernel : Kernel Unit := ⟨definition, closed, .default⟩
  have steadfast : Steadfast kernel (Event.ofId 2).id progress.inst progress.user
      fun guard => guard != Name.hash16 "closed" :=
    fun guard user _ _ => ⟨user, check_closed guard 2 inst user⟩
  have upward : ∀ leaf ∈ [1, 2], crossing.Ascent leaf [leaf, 0] := by
    refine List.forall_mem_cons.2 ⟨?_, List.forall_mem_singleton.2 ?_⟩
    all_goals exact .up (by decide) (by decide) (.up (by decide) (by decide) .past)
  have ascents : ∀ leaf ∈ [1, 2], ∃ path, definition.sections.Ascent leaf path :=
    fun leaf listed => ⟨[leaf, 0], tables ▸ upward leaf listed⟩
  have ordered : ∀ index : Nat, index < 3 → crossing.Descends (.ofNat index) := by decide
  have descends : ∀ state, kernel.definition.sections.Has state →
      kernel.definition.sections.Descends state := by
    show ∀ state, definition.sections.Has state → definition.sections.Descends state
    rw [tables]
    intro state has
    rw [← UInt16.ofNat_toNat (x := state)]
    exact ordered state.toNat has
  obtain ⟨found, after, ran, rfl, -, same⟩ :=
    select_eq_chosen steadfast holds ascents descends
  have first : chosen crossing (fun guard => guard != Name.hash16 "closed") (.ofId 2) [1, 2] =
      crossing.transitions[3]? := by decide +kernel
  refine ⟨after, ?_, same⟩
  rw [← first, ← tables]
  exact ran

end Kernel

end Statechart
