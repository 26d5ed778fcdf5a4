/-
# What a transition exchanges

A transition that is not internal stays within some state: a global one within the root, any
other one within the lowest state that has both of its ends strictly below it, or above that
one if it is parallel (`Confines`). Whatever is active below this state is left, deeper states
first. Then the transition's action runs. Then states below it are entered from the top down,
beginning with the child that the target lies beneath, until the configuration is legal again
(`Exchanged`). Every record that this leaves in the trace is told, so nothing is left or entered
twice, and nothing else is.

This needs no account of how the configuration came about: it holds of any legal configuration,
whatever history holds (`fire_exchanges`).
-/

import Statechart.Proofs.Chart.Restoring
import Statechart.Proofs.Chart.Slots
import Statechart.Proofs.Kernel.Arriving
import Statechart.Proofs.Kernel.Course

namespace Statechart.Kernel

open Rom (Definition Sections TransitionRecord noIndex rootIndex)

variable {User : Type} {pledge : Instance.Pledge} {kernel : Kernel User}
  {progress before after : Progress User} {transition : TransitionRecord}
  {active : List UInt16} {top state : UInt16}

/-- The active states below `top` in the order in which they are left: deeper ones first, then by
index. -/
structure Departing (sections : Sections) (top : UInt16) (active departing : List UInt16) :
    Prop where
  nodup : departing.Nodup
  mem_iff (state : UInt16) :
    state ∈ departing ↔ sections.Below top state ∧ sections.Active active state
  ordered : departing.Pairwise fun first second =>
    (sections.record second).depth < (sections.record first).depth ∨
      (sections.record second).depth = (sections.record first).depth ∧ first < second

/-- The states below `top` that are active in the end, in an order in which they can be entered:
first the child on the way to a target, and no state after one below it. -/
structure Arriving (sections : Sections) (top target : UInt16) (settled arriving : List UInt16) :
    Prop where
  nodup : arriving.Nodup
  mem_iff (state : UInt16) :
    state ∈ arriving ↔ sections.Below top state ∧ sections.Active settled state
  ordered : arriving.Pairwise fun first second => ¬ sections.Beneath second first
  exists_head : ∃ child rest, arriving = child :: rest ∧ sections.Child top child ∧
    sections.Beneath child target

open Classical in
/-- A transition took one legal configuration to another. What it did is all that the trace
tells. -/
structure Exchanged (kernel : Kernel User) (transition : TransitionRecord) (event top : UInt16)
    (active settled : List UInt16) (before after : Progress User) : Prop where
  confines : Confines kernel.definition.sections transition top
  told : ∃ departing arriving left acted,
    Departing kernel.definition.sections top active departing ∧
    left.trace.toList = before.trace.toList ++
      .transition transition.source transition.target event ::
        departing.flatMap (departureSteps kernel.definition.sections) ∧
    kernel.runAction .effect transition.action transition.source left = .ok acted ∧
    acted.trace.toList = left.trace.toList ++
      (if transition.action = Name.noId then []
      else [.action .effect transition.action transition.source]) ∧
    Arriving kernel.definition.sections top transition.target settled arriving ∧
    after.trace.toList =
      acted.trace.toList ++ arriving.flatMap (arrivalSteps kernel.definition.sections)
  /-- What is active elsewhere stays so. -/
  elsewhere (state : UInt16) : ¬ kernel.definition.sections.Below top state →
    (kernel.definition.sections.Active settled state ↔
      kernel.definition.sections.Active active state)
  /-- The leaves that stay keep their order and come first. -/
  exists_added : ∃ added,
    settled = active.filter (fun leaf => ¬ kernel.definition.sections.Below top leaf) ++ added ∧
      ∀ leaf ∈ added, kernel.definition.sections.Below top leaf
  holds : Holds after.inst.leaves settled
  legal : kernel.definition.sections.Legal settled
  target : kernel.definition.sections.Active settled transition.target

theorem beside_iff {sections : Sections} {leaf : UInt16} :
    sections.Beside top leaf ↔ ¬ sections.Below top leaf := by
  rw [Sections.Beside, Sections.Below, not_and_or, not_not, or_comm]

/-- What shares a leaf with `top` and does not lie below it lies above it. -/
theorem above_of_not_below {sections : Sections} {leaf : UInt16}
    (beneath : sections.Beneath state leaf) (lower : sections.Beneath top leaf)
    (other : ¬ sections.Below top state) : sections.Beneath state top := by
  rcases beneath.comparable lower with above | below
  · exact above
  · have same : state = top := by
      apply Classical.byContradiction
      exact fun differs => other ⟨below, differs⟩
    exact same ▸ .self below.has

open Classical in
/-- What is active elsewhere is active on account of leaves that stay, or above what is entered. -/
theorem active_elsewhere {sections : Sections} (wellFormed : sections.WellFormed)
    {entered : List UInt16} {first : UInt16} (linked : sections.Child top first)
    (tour : sections.Tour [first] entered) (isActive : sections.Active active top)
    (other : ¬ sections.Below top state) :
    sections.Active (active.filter (fun leaf => ¬ sections.Below top leaf) ++
      sections.leaves entered) state ↔ sections.Active active state := by
  have upper := wellFormed.beneath_of_child linked
  constructor
  · intro settled
    rcases Sections.active_append.1 settled with ⟨leaf, kept, beneath⟩ | ⟨leaf, listed, beneath⟩
    · exact ⟨leaf, (List.mem_filter.1 kept).1, beneath⟩
    · -- The state lies above what was entered, so it lies above `top`.
      obtain ⟨_, only, met⟩ := tour.exists_top wellFormed (List.mem_filter.1 listed).1
      have above := above_of_not_below beneath
        (upper.trans (List.mem_singleton.1 only ▸ met)) other
      obtain ⟨leaf, listed, below⟩ := isActive
      exact ⟨leaf, listed, above.trans below⟩
  · rintro ⟨leaf, listed, beneath⟩
    refine Sections.active_append.2 ?_
    by_cases below : sections.Below top leaf
    · -- The leaf is gone, but the state lies above `top`, and above what was entered.
      have above := above_of_not_below beneath below.1 other
      obtain ⟨leaf, listed, beneath⟩ :=
        (tour.fills wellFormed).exists_mem wellFormed (List.mem_singleton.2 rfl)
      exact .inr ⟨leaf, listed, (above.trans upper).trans beneath⟩
    · exact .inl ⟨leaf, List.mem_filter.2 ⟨listed, decide_eq_true below⟩, beneath⟩

open Classical in
/-- What is active below `top` is what was entered. -/
theorem arriving_of_tour {sections : Sections} (wellFormed : sections.WellFormed)
    (active : List UInt16) {entered : List UInt16} {first target : UInt16}
    (linked : sections.Child top first) (beneath : sections.Beneath first target)
    (tour : sections.Tour [first] entered) :
    Arriving sections top target (active.filter (fun leaf => ¬ sections.Below top leaf) ++
      sections.leaves entered) entered where
  nodup := tour.nodup wellFormed Sections.Apart.singleton
  ordered := tour.pairwise wellFormed Sections.Apart.singleton
  exists_head := by
    cases tour with
    | leaf _ _ _ => exact ⟨first, _, rfl, linked, beneath⟩
    | serial _ _ _ => exact ⟨first, _, rfl, linked, beneath⟩
    | parallel _ _ _ _ => exact ⟨first, _, rfl, linked, beneath⟩
  mem_iff state := by
    have upper := wellFormed.beneath_of_child linked
    rw [tour.mem_iff wellFormed, Sections.active_append]
    constructor
    · rintro ⟨below, isActive⟩
      refine ⟨⟨upper.trans below, ?_⟩, .inr isActive⟩
      rintro rfl
      exact wellFormed.child_ne linked (below.antisymm wellFormed upper)
    · rintro ⟨⟨below, proper⟩, ⟨leaf, kept, passed⟩ | ⟨leaf, listed, passed⟩⟩
      · -- A leaf that stays has nothing strictly below `top` above it.
        have stays := of_decide_eq_true (List.mem_filter.1 kept).2
        refine absurd ⟨below.trans passed, ?_⟩ stays
        rintro rfl
        exact proper (passed.antisymm wellFormed below)
      · obtain ⟨_, only, met⟩ := tour.exists_top wellFormed (List.mem_filter.1 listed).1
        have lower := Sections.Beneath.of_child wellFormed linked below proper
          (List.mem_singleton.1 only ▸ met) passed
        exact ⟨lower, leaf, listed, passed⟩

namespace Reliable

variable (reliable : Reliable pledge kernel)

include reliable

/-- Leaving everything below a state leaves the active states strictly below it, in order. -/
theorem exitBelow_departs (holds : Holds progress.inst.leaves active)
    (states : ∀ leaf ∈ active, kernel.definition.sections.Has leaf)
    (sound : progress.inst.QueueSound) :
    Yields (kernel.exitBelow top progress) fun left => ∃ departing : List UInt16,
      Departing kernel.definition.sections top active departing ∧
        left.trace.toList = progress.trace.toList ++
          departing.flatMap (departureSteps kernel.definition.sections) := by
  have wellFormed := reliable.sound.wellFormed
  unfold exitBelow
  simp only [Instance.activeLeaves_eq holds]
  apply (exitingBelow_yields wellFormed states).bind
  rintro exiting ⟨once, found⟩
  have inside : ∀ state ∈ exiting, kernel.definition.sections.Has state :=
    fun state listed => ((found state).1 listed).1.has
  apply (exitOrder_sorts inside).bind
  rintro ordered ⟨same, sorted⟩
  have apart : ordered.Nodup := same.nodup_iff.2 once
  apply (reliable.exitAll_departs sound).bind
  rintro left ⟨-, -, grows⟩
  apply (Yields.self _).bind
  intro beside _
  refine .pure ⟨ordered, ⟨apart, fun state => ?_, ?_⟩, grows⟩
  · rw [same.mem_iff, found, Sections.Below, and_assoc]
  · refine (sorted.and apart).imp fun {first second} both => ?_
    obtain ⟨before, differ⟩ := both
    simp only [leavesBefore, Bool.or_eq_true, Bool.and_eq_true, decide_eq_true_eq] at before
    exact before.imp_right fun level =>
      ⟨level.1.symm, UInt16.lt_of_le_of_ne level.2 differ⟩

/-- Entering the way down to a target goes on a tour below a child that passes the target. -/
theorem enterBelow_toured {target : UInt16}
    (beneath : kernel.definition.sections.Beneath top target) (proper : target ≠ top)
    (sound : progress.inst.QueueSound) :
    Yields
      (kernel.chainTo target >>= fun chain => kernel.definition.state top >>= fun record =>
        kernel.enterPath kernel.descend (chain.drop (record.depth.toNat + 1)) progress)
      fun after => ∃ first path, kernel.definition.sections.Child top first ∧
        kernel.definition.sections.Beneath first target ∧ target ∈ path ∧
          Toured kernel path [first] progress after := by
  have wellFormed := reliable.sound.wellFormed
  apply (reliable.chainTo_returns beneath).yields.bind
  rintro chain ⟨-, way⟩
  simp only [Definition.state_eq beneath.has_top, ok_bind]
  have passes := (way.mem_iff wellFormed target).2 ⟨beneath, proper, .self beneath.has⟩
  generalize chain.drop _ = path at way passes
  cases way with
  | here _ => exact absurd rfl proper
  | @down _ first _ rest linked way =>
    apply (reliable.enterPath_toured reliable.descend_touring way linked.has sound).mono
    exact fun after toured => ⟨first, first :: rest, linked, way.beneath linked.has, passes, toured⟩

open Classical in
/-- Taking a transition from a legal configuration leads to another one. -/
theorem fire_exchanged
    (alone : (kernel.definition.sections.record rootIndex).flags.parallel = false)
    (event : UInt16) (holds : Holds progress.inst.leaves active)
    (legal : kernel.definition.sections.Legal active)
    (enabled : Enabled kernel.definition active transition)
    (external : transition.flags.isInternal = false) (steady : Steady pledge kernel progress) :
    Returns (kernel.fire transition event progress) fun after => ∃ top settled,
      Exchanged kernel transition event top active settled progress after := by
  have wellFormed := reliable.sound.wellFormed
  have settles : Settled kernel.definition.sections False active := .inl (legal.standing wellFormed)
  have states : ∀ leaf ∈ active, kernel.definition.sections.Has leaf :=
    fun leaf listed => (legal.childless leaf listed).1
  have noted : Kept pledge kernel progress
      (progress.note (.transition transition.source transition.target event)) :=
    steady.note nofun
  rw [kernel.fire_of_external external]
  apply (reliable.scopeOf_returns enabled external).bind
  rintro top ⟨confines, ⟨beneath, proper⟩, limits⟩
  have isActive : kernel.definition.sections.Active active top :=
    limits.elim (fun same => same ▸ legal.root) And.right
  have vacated := settles.vacated wellFormed beneath proper limits
  apply ((reliable.exitBelow_returns (noted.holds holds) states noted.steady).and
    (reliable.exitBelow_departs (noted.holds holds) states noted.steady.queueSound)).bind
  rintro left ⟨⟨stillLeft, remains⟩, departing, departs, leftTrace⟩
  have told := reliable.runAction_told (show Trace.Cause.effect ≠ .timer by decide)
    transition.action transition.source stillLeft.queueSound
  apply ((reliable.runAction_returns _ _ _ stillLeft).and ((Yields.self _).and told)).bind
  rintro acted ⟨kept, ran, -, -, actedTrace⟩
  have configures : Returns _ (Configured pledge kernel False) :=
    reliable.enterBelow_returns vacated beneath proper kept.steady (kept.holds remains)
  apply (configures.and (reliable.enterBelow_toured beneath proper kept.steady.queueSound)).mono
  rintro after ⟨configured, first, path, linked, above, passes, entered, tour, met, arrives⟩
  obtain ⟨afterTrace, seats⟩ := arrives.told.resolve_left fun ⟨state, full⟩ =>
    configured.steady.untraced state (Array.mem_toList_iff.1 full)
  have same : active.filter (fun leaf => kernel.definition.sections.Beside top leaf) =
      active.filter fun leaf => ¬ kernel.definition.sections.Below top leaf :=
    List.filter_congr fun leaf _ => decide_eq_decide.2 beside_iff
  have standing := vacated.refill first _ linked (tour.fills wellFormed)
  have seated := seats _ (kept.holds remains)
  rw [same] at standing seated
  have arriving := arriving_of_tour wellFormed active linked above tour
  refine ⟨top, _, confines, ⟨departing, entered, left, acted, departs, ?_, ran, actedTrace,
    arriving, afterTrace⟩, fun state => active_elsewhere wellFormed linked tour isActive,
    ⟨_, rfl, ?_⟩, seated, standing.legal wellFormed alone, ?_⟩
  · rw [leftTrace]
    refine (congrArg (· ++ _) Array.toList_push).trans ?_
    rw [List.append_assoc, List.singleton_append]
  · intro leaf listed
    have below := (arriving.mem_iff leaf).1 (List.mem_filter.1 listed).1
    exact below.1
  · exact ((arriving.mem_iff transition.target).1 (met passes)).2

end Reliable

/-- Whatever legal configuration a compiled machine is in, and whatever history holds, taking a
transition that is not internal exchanges what is active below the state that it stays within,
provided that the transition is global or its source is active. -/
theorem fire_exchanges {graph : Chart.Graph} {compiled : Chart.Compiled} (drawn : graph.Drawn)
    (compiles : graph.compile = .ok (.ok compiled))
    (alone : (graph.state Chart.rootId).parallel = false)
    (runs : kernel.definition = compiled.definition) (harmless : kernel.dispatch.Harmless .nothing)
    (steady : Steady .nothing kernel before) (holds : Holds before.inst.leaves active)
    (legal : kernel.definition.sections.Legal active)
    (external : transition.flags.isInternal = false)
    (enabled : transition ∈ kernel.definition.sections.globals ∨
      transition ∈ kernel.definition.sections.transitions ∧
        kernel.definition.sections.Active active transition.source) (event : UInt16) :
    ∃ after, kernel.fire transition event before = .ok after ∧ ∃ top settled,
      Exchanged kernel transition event top active settled before after := by
  obtain ⟨sound, flags⟩ := drawn.sound compiles
  have reliable : Reliable .nothing kernel := ⟨runs ▸ sound, harmless⟩
  have serial : (kernel.definition.sections.record rootIndex).flags.parallel = false :=
    runs ▸ flags.trans alone
  have ready : Enabled kernel.definition active transition := by
    rcases enabled with everywhere | ⟨listed, leaf, isActive, beneath⟩
    · exact .anywhere everywhere
    · exact .locally listed (drawn.isGlobal_of_local compiles (runs ▸ listed)) isActive beneath
  exact reliable.fire_exchanged serial event holds legal ready external steady

section

open Chart.Graph

/-- A parallel state with two leaves, the first of which leads to the second. -/
def court : Chart.Graph :=
  ((house.modifyState 1 fun node => { node with parallel := true }).addTransition 2 (some 3)
    .completion).2

theorem drawn_court : Drawn court :=
  .addTransition (some 3) .completion
    (.configure 1 drawn_house (fun _ => rfl) (fun _ => rfl) fun _ => rfl) (by decide +kernel)

theorem exists_compiled_court : ∃ compiled, court.compile = .ok (.ok compiled) := by
  refine drawn_court.exists_compiled ?_ (by decide +kernel)
  rw [findings, stableIdFindings_eq_nil (by decide +kernel)]
  decide +kernel

/-- The transition from one leaf to the other leaves the parallel state and enters it again, so both
leaves are left and both are entered. -/
theorem fire_exchanges_court :
    ∃ compiled, court.compile = .ok (.ok compiled) ∧
      ∃ transition ∈ compiled.definition.sections.transitions,
        transition.source = 2 ∧ transition.target = 3 ∧
        ∃ (before after : Progress Unit) (top : UInt16) (settled : List UInt16),
          Holds before.inst.leaves [2, 3] ∧
          fire ⟨compiled.definition, .empty, .default⟩ transition transition.event before =
            .ok after ∧
          Exchanged ⟨compiled.definition, .empty, .default⟩ transition transition.event top [2, 3]
            settled before after := by
  obtain ⟨compiled, compiles⟩ := exists_compiled_court
  have drawing : court.definition?.map (fun definition =>
      let record := definition.sections.record
      decide (definition.sections.states.size = 4 ∧ (record 0).flags.parallel = false ∧
        (record 1).parent = 0 ∧ (record 1).isLeaf = false ∧ (record 1).flags.parallel = true ∧
        (record 1).children.words = [2, 3] ∧ (record 2).isLeaf = true ∧ (record 3).isLeaf = true ∧
        definition.sections.transitions.toList.map (fun transition =>
          (transition.source, transition.target, transition.flags.isInternal)) =
            [(2, 3, false)])) = some true := by decide +kernel
  rw [drawn_court.definition?_eq compiles] at drawing
  obtain ⟨size, serial, parent, inner, parallel, words, first, second, listed⟩ :=
    of_decide_eq_true (Option.some.inj drawing)
  obtain ⟨transition, only, ends⟩ := List.map_eq_singleton_iff.1 listed
  simp only [Prod.mk.injEq] at ends
  obtain ⟨source, target, external⟩ := ends
  have listed : transition ∈ compiled.definition.sections.transitions :=
    Array.mem_toList_iff.1 (only ▸ List.mem_singleton.2 rfl)
  have has {state : UInt16} (small : state.toNat < 4) : compiled.definition.sections.Has state := by
    rwa [← size] at small
  obtain ⟨sound, -⟩ := drawn_court.sound compiles
  have fills : compiled.definition.sections.Fills [rootIndex] [2, 3] := by
    have leaves : compiled.definition.sections.Fills [2, 3] [2, 3] :=
      .leaf (has (by decide)) first (.leaf (has (by decide)) second .nil)
    refine .serial serial ⟨has (by decide), by decide, parent⟩
      (.parallel (has (by decide)) inner parallel ?_)
    rwa [words, List.append_nil]
  have legal : compiled.definition.sections.Legal [2, 3] := fills.legal sound.wellFormed
  let inst := (Instance.fresh .tier256 0 1).withActiveLeaves [2, 3]
  have holds : Holds inst.leaves [2, 3] :=
    Instance.holds_withActiveLeaves (by decide)
      (List.forall_mem_cons.2 ⟨by decide, List.forall_mem_singleton.2 (by decide)⟩)
  have steady : Steady .nothing ⟨compiled.definition, .empty, .default⟩
      (.ofScene ⟨inst, (), .ofPage .blank⟩ : Progress Unit) := {
    room := Tier.le_tier256 _
    queueSound :=
      (Ready.fresh (Tier.le_tier256 compiled.definition.tier) 0 1).queueSound.of_ring_eq rfl
    pledged := trivial
    untraced := fun _ => Array.not_mem_empty _ }
  have isActive : compiled.definition.sections.Active [2, 3] transition.source :=
    ⟨2, List.mem_cons_self .., source.symm ▸ .self (has (by decide))⟩
  obtain ⟨after, fires, top, settled, exchanged⟩ :=
    fire_exchanges drawn_court compiles rfl rfl (.empty _) steady holds legal external
      (.inr ⟨listed, isActive⟩) transition.event
  exact ⟨compiled, compiles, transition, listed, source, target, _, after, top, settled, holds,
    fires, exchanged⟩

end

end Statechart.Kernel
