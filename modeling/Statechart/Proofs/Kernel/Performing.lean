/-
# Activities share output lanes

When activities go on the kernel claims lanes from leaf to leaf. Whoever claims them are the leaves
that the round of all active leaves chooses (`Stakes`), and what is done is what the agenda of that
round says, entry by entry: the entry is traced, and if it is an activity its action is run
(`carryOut`). So the phase is the agenda (`Tame.runActivities_round`).

The main statement (`activities_share_lanes`) is about any legal configuration of a compiled machine
whose activities leave the leaf slots alone (`Tame`).
-/

import Statechart.Proofs.Chart.Naming
import Statechart.Proofs.Chart.Slots
import Statechart.Proofs.Kernel.Activity
import Statechart.Proofs.Kernel.Lanes
import Statechart.Proofs.Kernel.Safety
import Statechart.Proofs.Yields

namespace Statechart.Kernel

open Rom (Sections noIndex)
open Trace (Entry)

variable {User : Type} {pledge : Instance.Pledge} {kernel : Kernel User}
  {before progress after : Progress User} {active chosen : List UInt16} {sections : Sections}
  {claims : List Claim}

/-! ### Carrying out an agenda -/

/-- Do what an entry of an agenda says. -/
def carryOut (kernel : Kernel User) (progress : Progress User) :
    Entry → Except Fault (Progress User)
  | .activity action state => kernel.invoke action (progress.note (.activity action state))
  | entry => .ok (progress.note entry)

/-- An entry that is carried out is traced, and nothing else is. -/
theorem carryOut_traces (entry : Entry) :
    Yields (kernel.carryOut progress entry) fun after =>
      after.trace = progress.trace.push entry := by
  cases entry with
  | activity action state => exact (Yields.self _).bind fun _ _ => .pure rfl
  | _ => exact .ok rfl

/-- An agenda that is carried out is what is traced. -/
theorem trace_of_carryOut {agenda : List Entry}
    (done : agenda.foldlM kernel.carryOut before = .ok after) :
    after.trace.toList = before.trace.toList ++ agenda := by
  induction agenda generalizing before with
  | nil =>
    cases done
    exact (List.append_nil _).symm
  | cons entry rest ih =>
    rw [List.foldlM_cons] at done
    obtain ⟨next, first, others⟩ := Yields.exists_of_bind done
    rw [ih others, (carryOut_traces entry).of_eq next first, Array.toList_push, List.append_assoc]
    rfl

/-- The activity of a state goes on as an agenda says that has nothing else on it. -/
theorem continueActivity_eq (state : UInt16) :
    kernel.continueActivity state (kernel.definition.sections.record state).activityAction
        progress =
      ([state].filterMap kernel.definition.sections.activity?).foldlM kernel.carryOut progress := by
  unfold continueActivity Sections.activity?
  by_cases none : (kernel.definition.sections.record state).activityAction = Name.noId
  · simp [none]
    rfl
  · simp [none, carryOut]

/-! ### Who claims lanes -/

/-- Those who have claimed lanes are chosen leaves in their slots, each with its own lanes. -/
structure Stakes (sections : Sections) (active : List UInt16) (claims : List Claim)
    (chosen : List UInt16) : Prop where
  leaves : claims.map Claim.leaf = chosen
  lanes : ∀ claim ∈ claims, claim.lanes = sections.lanes claim.leaf
  slots : ∀ claim ∈ claims, active[claim.slot]? = some claim.leaf

namespace Stakes

variable (stakes : Stakes sections active claims chosen)

include stakes

theorem lanesOf_eq : Claim.lanesOf claims = sections.claimed chosen := by
  rw [← stakes.leaves, Claim.lanesOf, Sections.claimed, List.foldl_map]
  refine List.foldl_ext _ _ _ fun lanes claim listed => ?_
  rw [stakes.lanes claim listed]

theorem winner_eq (lanes : UInt8) : Claim.winner claims lanes = sections.owner chosen lanes := by
  have found (lane : Nat) :
      (claims.find? fun claim => claim.lanes.toNat.testBit lane).map Claim.leaf =
        chosen.find? fun leaf => (sections.lanes leaf).toNat.testBit lane := by
    rw [← stakes.leaves, List.find?_map, ← List.head?_filter, ← List.head?_filter]
    refine congrArg (fun owners => owners.head?.map Claim.leaf)
      (List.filter_congr fun claim listed => ?_)
    rw [stakes.lanes claim listed]
    rfl
  unfold Claim.winner Sections.owner
  cases Claim.lowestLane lanes with
  | none => rfl
  | some lane => exact congrArg (·.getD noIndex) (found lane)

/-- The slots of those who have claimed lanes hold the chosen leaves. -/
theorem leaf_eq {inst : Instance} (holds : Holds inst.leaves active) :
    List.Forall₂ (fun slot leaf => inst.leaf slot = .ok leaf) (claims.map Claim.slot) chosen := by
  rw [← stakes.leaves, List.forall₂_map_left_iff, List.forall₂_map_right_iff, List.forall₂_same]
  intro claim listed
  obtain ⟨inside, same⟩ := List.getElem?_eq_some_iff.1 (stakes.slots claim listed)
  rw [leaf_eq_of_holds holds inside, same]

theorem concat {slot : Nat} {leaf : UInt16} (here : active[slot]? = some leaf) :
    Stakes sections active (claims ++ [⟨slot, leaf, sections.lanes leaf⟩]) (chosen ++ [leaf]) where
  leaves := by rw [List.map_append, stakes.leaves]; rfl
  lanes := List.forall_mem_append.2 ⟨stakes.lanes, List.forall_mem_singleton.2 rfl⟩
  slots := List.forall_mem_append.2 ⟨stakes.slots, List.forall_mem_singleton.2 here⟩

end Stakes

/-! ### The phase -/

/-- Wherever an instance has a property, the actions of activities return, keep the property, and
leave the leaf slots alone. -/
def Tame (keeps : Instance → Prop) (kernel : Kernel User) : Prop :=
  ∀ state, kernel.definition.sections.Has state →
    (kernel.definition.sections.record state).activityAction ≠ Name.noId →
    ∀ scene : Scene User, keeps scene.inst →
      Returns (kernel.dispatch.invoke (kernel.definition.sections.record state).activityAction
        scene) fun after => after.inst.leaves = scene.inst.leaves ∧ keeps after.inst

/-- The leaf slots are the same, and the property is kept. -/
structure Undisturbed (keeps : Instance → Prop) (before after : Progress User) : Prop where
  leaves_eq : after.inst.leaves = before.inst.leaves
  kept : keeps after.inst

variable {keeps : Instance → Prop}

namespace Undisturbed

variable (undisturbed : Undisturbed keeps before progress)

include undisturbed

theorem holds (holds : Holds before.inst.leaves active) : Holds progress.inst.leaves active :=
  undisturbed.leaves_eq.symm ▸ holds

theorem note (entry : Entry) : Undisturbed keeps before (progress.note entry) :=
  ⟨undisturbed.leaves_eq, undisturbed.kept⟩

end Undisturbed

/-- Harmless callbacks keep the queue sound. -/
theorem Dispatch.Harmless.tame (harmless : kernel.dispatch.Harmless pledge) :
    kernel.Tame Instance.QueueSound := by
  intro state _ _ scene sound
  rcases kernel.dispatch.invoke_cases (kernel.definition.sections.record state).activityAction
    with ⟨registration, listed, calls⟩ | nothing
  · rw [calls]
    exact (harmless.action registration listed scene sound).mono fun _ spares =>
      ⟨spares.leaves_eq, spares.queueSound sound⟩
  · rw [nothing]
    exact .ok ⟨rfl, sound⟩

namespace Tame

variable (tame : kernel.Tame keeps)

include tame

theorem continueActivity_returns {state : UInt16} (has : kernel.definition.sections.Has state)
    (undisturbed : Undisturbed keeps before progress) :
    Returns (kernel.continueActivity state
        (kernel.definition.sections.record state).activityAction progress)
      (Undisturbed keeps before) := by
  unfold continueActivity
  split
  · exact .ok undisturbed
  · next acts =>
    exact (tame state has acts _ undisturbed.kept).bind fun scene after =>
      .pure ⟨after.1.trans undisturbed.leaves_eq, after.2⟩

variable (wellFormed : kernel.definition.sections.WellFormed)
  (exist : ∀ leaf ∈ active, kernel.definition.sections.Has leaf)
  (holds : Holds before.inst.leaves active)

include wellFormed exist holds

/-- The turn of a leaf that is refused nothing. -/
theorem climb_turn (stakes : Stakes kernel.definition.sections active claims chosen)
    (undisturbed : Undisturbed keeps before progress) {leaf : UInt16} (isActive : leaf ∈ active)
    (among : ∀ other ∈ chosen, other ∈ active) {agenda : List Entry}
    (done : agenda.foldlM kernel.carryOut before = .ok progress) :
    Returns (climb kernel.definition leaf
        (fun state progress =>
          isReached kernel.definition progress.inst state (claims.map Claim.slot))
        (fun state record progress =>
          kernel.continueActivity state record.activityAction progress)
        progress) fun after =>
      Undisturbed keeps before after ∧
        (agenda ++ (kernel.definition.sections.fresh chosen leaf).filterMap
          kernel.definition.sections.activity?).foldlM kernel.carryOut before = .ok after := by
  obtain ⟨path, ascent, -⟩ := wellFormed.exists_ascent (exist leaf isActive)
  have climbs := Sections.exists_ascents wellFormed fun other listed =>
    exist other (among other listed)
  let invariant (seen : List UInt16) (progress : Progress User) :=
    Undisturbed keeps before progress ∧
      (agenda ++ seen.filterMap kernel.definition.sections.activity?).foldlM kernel.carryOut
        before = .ok progress
  have begins : invariant [] progress :=
    ⟨undisturbed, by rwa [List.filterMap_nil, List.append_nil]⟩
  have asks : ∀ state seen found, invariant seen found →
      isReached kernel.definition found.inst state (claims.map Claim.slot) =
        .ok (decide (state ∈ chosen.flatMap kernel.definition.sections.upward)) :=
    fun state seen found is => isReached_eq (stakes.leaf_eq (is.1.holds holds)) climbs
  have visits : ∀ state seen found, kernel.definition.sections.Has state →
      invariant seen found →
      Returns (kernel.continueActivity state
        (kernel.definition.sections.record state).activityAction found)
        (invariant (seen ++ [state])) := by
    intro state seen found has is
    obtain ⟨next, ran, more⟩ := tame.continueActivity_returns has is.1
    refine ⟨next, ran, more, ?_⟩
    rw [List.filterMap_append, ← List.append_assoc, List.foldlM_append, is.2, ok_bind,
      ← continueActivity_eq]
    exact ran
  rw [Sections.fresh, ascent.upward_eq]
  exact climb_follows _ invariant asks visits ascent begins

/-- The slots from some index on are gone through. -/
theorem runActivitiesFrom_round {count index : Nat}
    (rest : index + count = before.inst.tier.leafCapacity)
    (stakes : Stakes kernel.definition.sections active claims
      (kernel.definition.sections.round (active.take index)).chosen)
    (undisturbed : Undisturbed keeps before progress)
    (done : (kernel.definition.sections.round (active.take index)).agenda.foldlM kernel.carryOut
      before = .ok progress) :
    Returns (kernel.runActivitiesFrom (List.range' index count) claims progress) fun after =>
      (kernel.definition.sections.round active).agenda.foldlM kernel.carryOut before =
        .ok after := by
  have few := holds.length_le
  rw [before.inst.length_leaves] at few
  induction count generalizing index claims progress with
  | zero =>
    rw [List.take_of_length_le (by omega)] at done
    exact .ok done
  | succ count ih =>
    rw [List.range'_succ, runActivitiesFrom]
    have still := undisturbed.holds holds
    by_cases inside : index < active.length
    · have isActive := List.getElem_mem inside
      have among : ∀ other ∈ (kernel.definition.sections.round (active.take index)).chosen,
          other ∈ active := fun other listed =>
        List.mem_of_mem_take ((Sections.chosen_sublist _).subset listed)
      have next : kernel.definition.sections.round (active.take index ++ [active[index]]) =
          (kernel.definition.sections.round (active.take index)).next
            kernel.definition.sections active[index] := Sections.round_concat ..
      rw [List.take_append_getElem inside, Sections.Round.next] at next
      rw [leaf_eq_of_holds still inside, ok_bind, if_neg (holds.ne_noIndex _ isActive),
        Rom.Definition.state_eq (exist _ isActive), ok_bind]
      have clash : (kernel.definition.sections.record active[index]).outputLanes &&&
          Claim.lanesOf claims = kernel.definition.sections.refused
            (kernel.definition.sections.round (active.take index)).chosen active[index] := by
        rw [stakes.lanesOf_eq]
        rfl
      simp only [clash]
      by_cases free : kernel.definition.sections.refused
          (kernel.definition.sections.round (active.take index)).chosen active[index] = 0
      · rw [if_pos free] at next
        rw [free, if_neg (by decide)]
        refine (tame.climb_turn wellFormed exist holds stakes undisturbed isActive among done).bind
          fun after turned => ih (by omega) ?_ turned.1 ?_
        · rw [next]
          exact stakes.concat (List.getElem?_eq_getElem inside)
        · rw [next]
          exact turned.2
      · rw [if_neg free] at next
        rw [if_pos (bne_iff_ne.2 free), stakes.winner_eq]
        refine ih (by omega) ?_ (undisturbed.note _) ?_
        · rw [next]
          exact stakes
        · rw [next, List.foldlM_append, done, ok_bind]
          rfl
    · have tier := Instance.tier_eq_of_leaves undisturbed.leaves_eq
      rw [leaf_eq_noIndex still (tier ▸ by omega) (by omega), ok_bind, if_pos rfl]
      rw [List.take_of_length_le (by omega)] at done
      exact .pure done

/-- The phase is the agenda of the round of all active leaves. -/
theorem runActivities_round (kept : keeps before.inst) :
    Returns (kernel.runActivities before) fun after =>
      (kernel.definition.sections.round active).agenda.foldlM kernel.carryOut before =
        .ok after := by
  rw [runActivities, List.range_eq_range']
  exact tame.runActivitiesFrom_round wellFormed exist holds (Nat.zero_add _)
    ⟨rfl, nofun, nofun⟩ ⟨rfl, kept⟩ rfl

end Tame

/-- In a legal configuration of a compiled machine whose activities leave the leaf slots alone, the
phase in which activities go on ends, and is the carrying out of an agenda: those leaves take their
turns that are chosen greedily in slot order for lanes that no leaf chosen before them has; each
state at or above one of these has its activity go on once, inner states before outer ones in each
turn, and what an earlier turn has reached before what is left for a later one; and each other leaf
is reported once. -/
theorem activities_share_lanes {graph : Chart.Graph} {compiled : Chart.Compiled}
    (drawn : graph.Drawn) (compiles : graph.compile = .ok (.ok compiled))
    (runs : kernel.definition = compiled.definition) (tame : kernel.Tame keeps)
    (kept : keeps before.inst) (holds : Holds before.inst.leaves active)
    (legal : kernel.definition.sections.Legal active) :
    ∃ after chosen agenda, kernel.runActivities before = .ok after ∧
      agenda.foldlM kernel.carryOut before = .ok after ∧
      after.trace.toList = before.trace.toList ++ agenda ∧
      kernel.definition.sections.Greedy active chosen ∧
      kernel.definition.sections.Awards active chosen agenda := by
  have wellFormed : kernel.definition.sections.WellFormed :=
    runs ▸ (drawn.exists_tables compiles).1.wellFormed
  have exist : ∀ leaf ∈ active, kernel.definition.sections.Has leaf := fun leaf listed =>
    (legal.childless leaf listed).1
  obtain ⟨after, ran, done⟩ := tame.runActivities_round wellFormed exist holds kept
  exact ⟨after, _, _, ran, done, trace_of_carryOut done, Sections.round_greedy legal.nodup,
    wellFormed.round_awards legal.nodup exist⟩

/-! ### Three leaves and two lanes -/

section

open Chart.Graph

/-- A parallel state with three leaves, all of which have activities. The second leaf wants the lane
of the first one and the lane of the third one. -/
def stage : Chart.Graph :=
  let outer := (house.insertState "D" 1).2.modifyState 1 fun node =>
    { node with parallel := true, activity := some "Action378" }
  let first := outer.modifyState 2 fun node =>
    { node with activity := some "Action378", outputLanes := 1 }
  let second := first.modifyState 3 fun node =>
    { node with activity := some "Action378", outputLanes := 3 }
  (second.modifyState 4 fun node =>
    { node with activity := some "Action378", outputLanes := 2 }).registerAction "Action378"

theorem drawn_stage : stage.Drawn := by
  have seats := (((namedBy_lone.insertState "B" 1 (by decide +kernel) (by decide)
    (by decide)).insertState "C" 1 (by decide +kernel) (by decide) (by decide)).insertState "D" 1
    (by decide +kernel) (by decide) (by decide)).drawn
  refine .registerAction "Action378" (.configure 4 (.configure 3 (.configure 2 (.configure 1 seats
    ?_ ?_ ?_) ?_ ?_ ?_) ?_ ?_ ?_) ?_ ?_ ?_)
  all_goals exact fun _ => rfl

theorem stateFindings_stage : ∀ id ∈ [1, 2, 3, 4], stage.layOut.stateFindings id = [] := by
  have known : "Action378" ∈ stage.layOut.actions.names := mem_names_registerAction _ _
  have acts : ∀ id ∈ [1, 2, 3, 4], (stage.layOut.state id).activity = some "Action378" := by
    decide +kernel
  simp only [List.forall_mem_cons] at acts ⊢
  obtain ⟨outer, first, second, third, -⟩ := acts
  unfold stateFindings
  simp only [outer, first, second, third, List.flatMap_cons, actionFindings_eq_nil known]
  decide +kernel

theorem exists_compiled_stage : ∃ compiled, stage.compile = .ok (.ok compiled) := by
  refine drawn_stage.exists_compiled ?_ (by decide +kernel)
  have order : stage.layOut.order.toList = [0, 1, 2, 3, 4] := by decide +kernel
  have root : stage.layOut.stateFindings 0 = [] := by decide +kernel
  have states : stage.layOut.order.toList.flatMap stage.layOut.stateFindings = [] := by
    rw [order, List.flatMap_cons, root, List.nil_append]
    exact List.flatMap_eq_nil_iff.2 stateFindings_stage
  rw [findings, states, stableIdFindings_eq_nil (by decide +kernel)]
  decide +kernel

/-- The second leaf is refused the lane of the first one, and so the third leaf is chosen. -/
def stageRound : Sections.Round where
  chosen := [2, 4]
  agenda := [.activity (Name.hash16 "Action378") 2, .activity (Name.hash16 "Action378") 1,
    .conflict 1 2 3, .activity (Name.hash16 "Action378") 4]

theorem exists_round_stage :
    ∃ compiled, stage.compile = .ok (.ok compiled) ∧
      compiled.definition.sections.Legal [2, 3, 4] ∧
      compiled.definition.sections.Below 1 4 ∧
      compiled.definition.sections.round [2, 3, 4] = stageRound := by
  obtain ⟨compiled, compiles⟩ := exists_compiled_stage
  have drawing : stage.definition?.map (fun definition =>
      let record := definition.sections.record
      decide (definition.sections.states.size = 5 ∧ (record 0).flags.parallel = false ∧
        (record 1).parent = 0 ∧ (record 1).isLeaf = false ∧ (record 1).flags.parallel = true ∧
        (record 1).children.words = [2, 3, 4] ∧ (record 2).isLeaf = true ∧
        (record 3).isLeaf = true ∧ (record 4).isLeaf = true ∧ (record 4).parent = 1 ∧
        definition.sections.round [2, 3, 4] = stageRound)) = some true := by decide +kernel
  rw [drawn_stage.definition?_eq compiles] at drawing
  obtain ⟨size, serial, parent, inner, parallel, words, first, second, third, outer, round⟩ :=
    of_decide_eq_true (Option.some.inj drawing)
  have has {state : UInt16} (small : state.toNat < 5) :
      compiled.definition.sections.Has state := by
    rwa [← size] at small
  have leaves : compiled.definition.sections.Fills [2, 3, 4] [2, 3, 4] :=
    .leaf (has (by decide)) first
      (.leaf (has (by decide)) second (.leaf (has (by decide)) third .nil))
  have fills : compiled.definition.sections.Fills [0] [2, 3, 4] := by
    refine .serial serial ⟨has (by decide), by decide, parent⟩
      (.parallel (has (by decide)) inner parallel ?_)
    rwa [words, List.append_nil]
  have beneath : compiled.definition.sections.Beneath 1 4 :=
    .under (.self (has (by decide))) ⟨has (by decide), by decide, outer⟩
  exact ⟨compiled, compiles, fills.legal (drawn_stage.exists_tables compiles).1.wellFormed,
    ⟨beneath, by decide⟩, round⟩

/-- All leaves of the stage are active, and nothing has been done. -/
def onStage : Progress Unit :=
  .ofScene ⟨(Instance.fresh .tier256 0 1).withActiveLeaves [2, 3, 4], (), .ofPage .blank⟩

theorem queueSound_onStage : onStage.inst.QueueSound :=
  ⟨Instance.ringCapacity_pos .tier256, Instance.ringCapacity_pos .tier256, Nat.zero_le _⟩

theorem holds_onStage : Holds onStage.inst.leaves [2, 3, 4] := by
  refine Instance.holds_withActiveLeaves (by decide) ?_
  exact List.forall_mem_cons.2 ⟨by decide,
    List.forall_mem_cons.2 ⟨by decide, List.forall_mem_singleton.2 (by decide)⟩⟩

/-- Of the three leaves the first and the last are chosen. -/
theorem activities_share_lanes_stage :
    ∃ compiled, stage.compile = .ok (.ok compiled) ∧
      compiled.definition.sections.Legal [2, 3, 4] ∧
      let kernel : Kernel Unit := ⟨compiled.definition, .empty, .default⟩
      ∃ after agenda, kernel.runActivities onStage = .ok after ∧
        agenda.foldlM kernel.carryOut onStage = .ok after ∧
        after.trace.toList = onStage.trace.toList ++ agenda ∧
        compiled.definition.sections.Greedy [2, 3, 4] [2, 4] ∧
        compiled.definition.sections.Awards [2, 3, 4] [2, 4] agenda := by
  obtain ⟨compiled, compiles, legal, -, round⟩ := exists_round_stage
  let kernel : Kernel Unit := ⟨compiled.definition, .empty, .default⟩
  have harmless : kernel.dispatch.Harmless .nothing := .empty _
  obtain ⟨after, chosen, agenda, ran, done, traced, greedy, awards⟩ :=
    activities_share_lanes drawn_stage compiles (show kernel.definition = _ from rfl) harmless.tame
      queueSound_onStage holds_onStage legal
  have only : chosen = [2, 4] :=
    (greedy.unique legal.nodup (Sections.round_greedy legal.nodup)).trans
      (congrArg Sections.Round.chosen round)
  exact ⟨compiled, compiles, legal, after, agenda, ran, done, traced, only ▸ greedy,
    only ▸ awards⟩

/-- The parallel state goes on in the turn of the first leaf, and so before the last leaf, which is
chosen, too, and lies below it. -/
theorem outer_first_stage :
    ∃ compiled, stage.compile = .ok (.ok compiled) ∧
      compiled.definition.sections.Legal [2, 3, 4] ∧
      let kernel : Kernel Unit := ⟨compiled.definition, .empty, .default⟩
      ∃ after, kernel.runActivities onStage = .ok after ∧
        after.trace.toList = stageRound.agenda ∧
        compiled.definition.sections.Greedy [2, 3, 4] [2, 4] ∧
        compiled.definition.sections.Below 1 4 ∧
        ¬ [Entry.activity (Name.hash16 "Action378") 4,
          Entry.activity (Name.hash16 "Action378") 1].Sublist after.trace.toList := by
  obtain ⟨compiled, compiles, legal, below, round⟩ := exists_round_stage
  let kernel : Kernel Unit := ⟨compiled.definition, .empty, .default⟩
  have harmless : kernel.dispatch.Harmless .nothing := .empty _
  obtain ⟨after, ran, done⟩ := harmless.tame.runActivities_round
    (drawn_stage.exists_tables compiles).1.wellFormed
    (fun leaf listed => (legal.childless leaf listed).1) holds_onStage queueSound_onStage
  have traced := trace_of_carryOut done
  rw [show kernel.definition.sections.round [2, 3, 4] = _ from round] at traced
  have greedy : compiled.definition.sections.Greedy [2, 3, 4] _ :=
    Sections.round_greedy legal.nodup
  rw [round] at greedy
  refine ⟨compiled, compiles, legal, after, ran, traced, greedy, below, ?_⟩
  rw [traced]
  decide

end

end Statechart.Kernel
