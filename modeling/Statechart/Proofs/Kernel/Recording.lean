/-
# What a life records

Which leaf holds which slot is told by an instance's life: a leaf that is entered takes the
slot behind the others, one that is left gives up its own, and an overflow clears them all
(`Trace.seats`). So a life tells what was recorded for a state when it was last left, by the
leaves that were active when that transition set out (`Rom.Sections.Recorded`).

This stays in the slot of the state, whatever else is entered and left, until some state that
shares the slot is left (`Retains`). Nothing is assumed about who shares it.
-/

import Statechart.Proofs.Kernel.Exchanging
import Statechart.Proofs.Kernel.Recounting

namespace Statechart

open Rom (Sections noIndex rootIndex)

/-! ### Leaf slots in a life -/

namespace Trace

variable {sections : Sections} {leaves : List UInt16} {state : UInt16} {life more : List Entry}

/-- The leaf slots after a step: a leaf that is entered takes the slot behind the others, and one
that is left gives up its own. -/
def reseat (sections : Sections) (leaves : List UInt16) : Entry → List UInt16
  | .enter state => if (sections.record state).isLeaf then leaves ++ [state] else leaves
  | .exit state => leaves.filter fun leaf => leaf ≠ state
  | .rtcOverflow _ => []
  | _ => leaves

/-- The leaves that are active at the end of a life, in the order of their slots. -/
def seats (sections : Sections) (life : List Entry) : List UInt16 :=
  life.foldl (reseat sections) []

theorem seats_append :
    seats sections (life ++ more) = more.foldl (reseat sections) (seats sections life) :=
  List.foldl_append

theorem reseat_of_still {entry : Entry} (still : entry.Still) :
    reseat sections leaves entry = leaves := by
  cases entry with
  | enter _ => cases still
  | exit _ => cases still
  | rtcOverflow _ => cases still
  | _ => rfl

theorem foldl_reseat_of_still (still : ∀ entry ∈ more, entry.Still) :
    more.foldl (reseat sections) leaves = leaves := by
  induction more with
  | nil => rfl
  | cons entry rest ih =>
    obtain ⟨first, others⟩ := List.forall_mem_cons.1 still
    rw [List.foldl_cons, reseat_of_still first]
    exact ih others

theorem seats_append_of_still (still : ∀ entry ∈ more, entry.Still) :
    seats sections (life ++ more) = seats sections life :=
  seats_append.trans (foldl_reseat_of_still still)

/-- States that are entered in turn seat the leaves among them. -/
theorem foldl_reseat_arrivals (entered : List UInt16) :
    (entered.flatMap (Kernel.arrivalSteps sections)).foldl (reseat sections) leaves =
      leaves ++ sections.leaves entered := by
  induction entered generalizing leaves with
  | nil => exact (List.append_nil _).symm
  | cons state rest ih =>
    have still : ∀ entry ∈ (Kernel.arrivalSteps sections state).tail, entry.Still := by
      intro entry listed
      rcases List.mem_append.1 listed with armed | acted
      · split at armed
        · exact List.mem_singleton.1 armed ▸ trivial
        · cases armed
      · split at acted
        · cases acted
        · exact List.mem_singleton.1 acted ▸ trivial
    have arrived : (Kernel.arrivalSteps sections state).foldl (reseat sections) leaves =
        reseat sections leaves (.enter state) := foldl_reseat_of_still still
    rw [List.flatMap_cons, List.foldl_append, arrived, ih, reseat]
    split
    · next childless =>
      rw [Sections.leaves_cons_of_leaf childless, List.append_assoc, List.singleton_append]
    · next inner => rw [Sections.leaves_cons_of_inner (Bool.eq_false_iff.2 inner)]

/-- States that are left in turn give up the slots of the leaves among them. -/
theorem foldl_reseat_departures (departing : List UInt16) :
    (departing.flatMap (Kernel.departureSteps sections)).foldl (reseat sections) leaves =
      leaves.filter fun leaf => leaf ∉ departing := by
  induction departing generalizing leaves with
  | nil => exact (List.filter_eq_self.2 fun _ _ => decide_eq_true List.not_mem_nil).symm
  | cons state rest ih =>
    have still : ∀ entry ∈ (Kernel.departureSteps sections state).tail, entry.Still := by
      intro entry listed
      replace listed : entry ∈ if (sections.record state).exitAction = Name.noId then []
        else [Entry.action .exit (sections.record state).exitAction state] := listed
      split at listed
      · cases listed
      · exact List.mem_singleton.1 listed ▸ trivial
    have departed : (Kernel.departureSteps sections state).foldl (reseat sections) leaves =
        reseat sections leaves (.exit state) := foldl_reseat_of_still still
    rw [List.flatMap_cons, List.foldl_append, departed, ih, reseat, List.filter_filter]
    refine List.filter_congr fun leaf _ => ?_
    rw [Bool.and_comm, ← Bool.decide_and, decide_eq_decide, List.mem_cons, not_or]

end Trace

namespace Kernel

open Rom (Definition TransitionRecord)

variable {User : Type} {pledge : Instance.Pledge} {kernel : Kernel User} {idle : Prop}
  {start : Stays} {past : List Trace.Entry} {sections : Sections} {state top : UInt16}
  {active : List UInt16} {inst : Instance} {progress before middle after : Progress User}

/-! ### What a slot retains -/

/-- What was recorded for a state when it was last left is still in its slot, unless another state
that shares the slot was left since. -/
def Retains (sections : Sections) (state : UInt16) (life : List Trace.Entry) (inst : Instance) :
    Prop :=
  .exit state ∈ life →
    (∀ other, sections.Shares state other → .exit other ∉ Trace.since state life) →
    ∃ saved, inst.history[(sections.record state).historySlot.toNat]? = some saved ∧
      sections.Recorded (Trace.seats sections (Trace.departure state life)) state saved

namespace Retains

/-- The state was not left, and its slot was written only when a state that shares it was left. -/
theorem append {more : List Trace.Entry} {later : Instance}
    (retains : Retains sections state past inst) (stays : .exit state ∉ more)
    (same : (∀ other, sections.Shares state other → .exit other ∉ more) →
      later.history[(sections.record state).historySlot.toNat]? =
        inst.history[(sections.record state).historySlot.toNat]?) :
    Retains sections state (past ++ more) later := by
  intro left alone
  rw [Trace.since_append stays] at alone
  rw [Trace.departure_append stays,
    same fun other shares listed => alone other shares (List.mem_append_right _ listed)]
  exact retains ((List.mem_append.1 left).resolve_right stays)
    fun other shares listed => alone other shares (List.mem_append_left _ listed)

theorem advances (retains : Retains sections state (past ++ before.trace.toList) before.inst)
    (advances : Advances before after) :
    Retains sections state (past ++ after.trace.toList) after.inst := by
  obtain ⟨history, added, grows, stays⟩ := advances
  rw [grows, ← List.append_assoc]
  exact retains.append (stays state) fun _ => by rw [history]

/-- A transition was taken, and what was in its way was left. -/
theorem writes {transition : Trace.Entry} (sets : transition.isTransition = true)
    (retains : Retains kernel.definition.sections state (past ++ before.trace.toList) before.inst)
    (writes : Writes kernel
      (Trace.seats kernel.definition.sections (past ++ before.trace.toList)) state
      (before.note transition) after) :
    Retains kernel.definition.sections state (past ++ after.trace.toList) after.inst := by
  obtain ⟨added, grows, plain, written, unwritten⟩ := writes
  have noted : (before.note transition).trace.toList = before.trace.toList ++ [transition] :=
    Array.toList_push
  have whole : past ++ after.trace.toList =
      (past ++ before.trace.toList) ++ transition :: added := by
    rw [grows, noted]
    simp only [List.append_assoc, List.singleton_append]
  have still : transition.Still := by
    cases transition with
    | transition => trivial
    | _ => cases sets
  rw [whole]
  by_cases left : .exit state ∈ added
  · intro _ alone
    rw [List.append_cons, Trace.since_append_of_exit left] at alone
    rw [Trace.departure_transition sets left plain,
      Trace.seats_append_of_still (List.forall_mem_singleton.2 still)]
    exact written left alone
  · have other : .exit state ≠ transition := by
      rintro rfl
      cases sets
    refine retains.append (fun listed => (List.mem_cons.1 listed).elim other left) fun alone => ?_
    exact unwritten left fun sharer shares listed =>
      alone sharer shares (List.mem_cons_of_mem _ listed)

end Retains

/-- Between two parts of a tick, a life tells the leaf slots and what the slot of a state
retains. -/
structure Recites (sections : Sections) (state : UInt16) (life : List Trace.Entry)
    (inst : Instance) : Prop where
  seated : Holds inst.leaves (Trace.seats sections life)
  retains : Retains sections state life inst

/-- The life up to a moment tells the leaf slots and what the slot of a state retains. -/
abbrev Reciting (kernel : Kernel User) (past : List Trace.Entry) (state : UInt16) :
    Progress User → Prop :=
  Throughlife (Recites kernel.definition.sections state) past

/-- States that are entered seat the leaves among them. -/
theorem Arrives.seated {entered : List UInt16}
    (arrives : Arrives kernel entered (kernel.definition.sections.leaves entered) before after)
    (room : ∀ leaf, .leafOverflow leaf ∉ after.trace)
    (seated : Holds before.inst.leaves
      (Trace.seats kernel.definition.sections (past ++ before.trace.toList))) :
    Holds after.inst.leaves
      (Trace.seats kernel.definition.sections (past ++ after.trace.toList)) := by
  obtain ⟨grows, seats⟩ := arrives.told.resolve_left fun ⟨leaf, full⟩ =>
    room leaf (Array.mem_toList_iff.1 full)
  rw [grows, ← List.append_assoc, Trace.seats_append, Trace.foldl_reseat_arrivals]
  exact seats _ seated

/-- Nothing was entered or left, and the leaf slots are as they were. -/
theorem Idles.seated (idles : Idles before after)
    (leaves : after.inst.leaves = before.inst.leaves)
    (seated : Holds before.inst.leaves (Trace.seats sections (past ++ before.trace.toList))) :
    Holds after.inst.leaves (Trace.seats sections (past ++ after.trace.toList)) := by
  obtain ⟨-, more, grows, still⟩ := idles
  rw [leaves, grows, ← List.append_assoc, Trace.seats_append_of_still still]
  exact seated

theorem Reciting.idles (recites : Reciting kernel past state before) (idles : Idles before after)
    (leaves : after.inst.leaves = before.inst.leaves) : Reciting kernel past state after where
  seated := idles.seated leaves recites.seated
  retains := recites.retains.advances idles.advances

/-- Dropping the configuration clears the leaf slots. -/
theorem Reciting.contain (recites : Reciting kernel past state progress) :
    Reciting kernel past state (kernel.contain progress) := by
  have grows : (kernel.contain progress).trace.toList =
      progress.trace.toList ++ [.rtcOverflow kernel.limits.rtcSteps] := Array.toList_push
  refine ⟨?_, recites.retains.advances ⟨rfl, _, grows, fun _ listed => ?_⟩⟩
  · rw [grows, ← List.append_assoc, Trace.seats_append]
    exact Instance.holds_withActiveLeaves (Nat.zero_le _) nofun
  · cases List.mem_singleton.1 listed

/-- Taking note of a transition. -/
theorem note_transition_idles (transition : TransitionRecord) (event : UInt16)
    (progress : Progress User) :
    Idles progress (progress.note (.transition transition.source transition.target event)) :=
  ⟨rfl, [_], Array.toList_push, List.forall_mem_singleton.2 trivial⟩

namespace Reliable

variable (reliable : Reliable pledge kernel) (spares : kernel.dispatch.Preserves Instance.history)
  (has : kernel.definition.sections.Has state)
  (keeps : (kernel.definition.sections.record state).flags.history = true)

include reliable spares

open Classical in
/-- After a transition has left what was in its way, its life tells which leaves stay. -/
theorem exchange_seated {transition : TransitionRecord} {event : UInt16}
    {left acted : Progress User}
    (known : Keeps pledge kernel idle start (Reciting kernel past state) progress)
    (leaves : kernel.exitBelow top
      (progress.note (.transition transition.source transition.target event)) = .ok left)
    (acts : kernel.runAction .effect transition.action transition.source left = .ok acted) :
    acted.inst.QueueSound ∧ Holds acted.inst.leaves
      (Trace.seats kernel.definition.sections (past ++ acted.trace.toList)) := by
  obtain ⟨active, holds, -, states, -⟩ := known.underway.states reliable.sound.wellFormed
  let noted := progress.note (.transition transition.source transition.target event)
  have seated : Holds noted.inst.leaves
      (Trace.seats kernel.definition.sections (past ++ noted.trace.toList)) :=
    (note_transition_idles transition event progress).seated rfl known.rests.seated
  have kept : Kept pledge kernel progress noted := known.underway.steady.note nofun
  obtain ⟨still, remains⟩ :=
    (reliable.exitBelow_returns (kept.holds holds) states kept.steady).yields.of_eq left leaves
  obtain ⟨departing, departs, grows⟩ := (reliable.exitBelow_departs (kept.holds holds) states
    kept.steady.queueSound).of_eq left leaves
  have stays : active.filter (fun leaf => leaf ∉ departing) =
      active.filter fun leaf => kernel.definition.sections.Beside top leaf := by
    refine List.filter_congr fun leaf listed => decide_eq_decide.2 ?_
    have itself : kernel.definition.sections.Active active leaf :=
      ⟨leaf, listed, .self (states leaf listed)⟩
    rw [departs.mem_iff, beside_iff, and_iff_left itself]
  have leftSeated : Holds left.inst.leaves
      (Trace.seats kernel.definition.sections (past ++ left.trace.toList)) := by
    rw [grows, ← List.append_assoc, Trace.seats_append, Trace.foldl_reseat_departures,
      holds_unique seated holds, stays]
    exact remains
  obtain ⟨sound, same, -⟩ := (reliable.runAction_told
    (show Trace.Cause.effect ≠ .timer by decide) _ _ still.queueSound).of_eq _ acts
  exact ⟨sound, ((runAction_idles spares _ _ _ _).of_eq _ acts).seated same leftSeated⟩

/-- Entering the default configuration. -/
theorem start_recites (branches : (kernel.definition.sections.record rootIndex).isLeaf = false)
    (known : Keeps pledge kernel idle start (Reciting kernel past state) progress)
    (fresh : progress.inst.isStarted = false) :
    Yields (kernel.descend rootIndex progress) (Reciting kernel past state) := by
  have wellFormed := reliable.sound.wellFormed
  have toured : Yields (kernel.descend rootIndex progress)
      (SettledIn kernel [] rootIndex progress) :=
    reliable.descend_touring rootIndex progress wellFormed.has_root known.underway.queueSound
  apply ((reliable.start_underway known.underway fresh).yields.and
    (toured.and (descend_advances spares rootIndex progress))).mono
  rintro after ⟨⟨-, underway⟩, ⟨entered, -, -, arrives⟩, advances⟩
  rw [Rom.Sections.leaves_cons_of_inner branches] at arrives
  exact ⟨arrives.seated underway.steady.untraced known.rests.seated,
    known.rests.retains.advances advances⟩

include has keeps

/-- What a transition leaves records its history, and then the transition's action runs. -/
theorem exchange_retains {transition : TransitionRecord} {event : UInt16}
    {left acted : Progress User}
    (known : Keeps pledge kernel idle start (Reciting kernel past state) progress)
    (leaves : kernel.exitBelow top
      (progress.note (.transition transition.source transition.target event)) = .ok left)
    (acts : kernel.runAction .effect transition.action transition.source left = .ok acted) :
    Retains kernel.definition.sections state (past ++ acted.trace.toList) acted.inst := by
  obtain ⟨active, holds, settled, -, -⟩ := known.underway.states reliable.sound.wellFormed
  have noted : Kept pledge kernel progress
      (progress.note (.transition transition.source transition.target event)) :=
    known.underway.steady.note nofun
  have writing := (reliable.exitBelow_writes spares has keeps noted.steady (noted.holds holds)
    (settled.of_mem reliable.sound.wellFormed)).of_eq left leaves
  rw [← holds_unique known.rests.seated holds] at writing
  exact (Retains.writes rfl known.rests.retains writing).advances
    ((runAction_idles spares _ _ _ _).of_eq _ acts).advances

/-- Taking a transition. -/
theorem fire_recites {transition : TransitionRecord} {event : UInt16}
    (known : Keeps pledge kernel idle start (Reciting kernel past state) progress)
    (poised : Poised pledge kernel idle start transition event progress) :
    Yields (kernel.fire transition event progress) (Reciting kernel past state) := by
  have wellFormed := reliable.sound.wellFormed
  have noted := note_transition_idles transition event progress
  cases kind : transition.flags.isInternal with
  | true =>
    have sound : (progress.note (.transition transition.source transition.target
        event)).inst.QueueSound := known.underway.queueSound
    unfold fire
    simp only [kind, if_true]
    apply ((runAction_idles spares _ _ _ _).and (reliable.runAction_told
      (show Trace.Cause.effect ≠ .timer by decide) _ _ sound)).mono
    rintro after ⟨idles, -, leaves, -⟩
    exact (known.rests.idles noted rfl).idles idles leaves
  | false =>
    obtain ⟨active, -, enabled⟩ := poised.exists_enabled
    have untraced : Yields (kernel.fire transition event progress) fun after =>
        ∀ leaf, .leafOverflow leaf ∉ after.trace :=
      poised.firing.yields.mono fun after fired => fired.2.steady.untraced
    have entering : Yields (kernel.fire transition event progress) fun after =>
        (∀ leaf, .leafOverflow leaf ∉ after.trace) → Reciting kernel past state after := by
      rw [fire_of_external kernel kind]
      apply (reliable.scopeOf_returns enabled kind).yields.bind
      rintro top ⟨-, ⟨beneath, proper⟩, -⟩
      refine (Yields.self _).bind fun left leaves => (Yields.self _).bind fun acted acts => ?_
      obtain ⟨sound, seated⟩ := reliable.exchange_seated spares known leaves acts
      have retains := reliable.exchange_retains spares has keeps known leaves acts
      have advances : Yields
          (kernel.chainTo transition.target >>= fun chain =>
            kernel.definition.state top >>= fun record =>
              kernel.enterPath kernel.descend (chain.drop (record.depth.toNat + 1)) acted)
          (Advances acted) :=
        (Yields.self _).bind fun _ _ => (Yields.self _).bind fun _ _ =>
          enterPath_advances spares (descend_advances spares) _ acted
      apply ((reliable.enterBelow_toured beneath proper sound).and advances).mono
      rintro after ⟨⟨_, _, -, -, -, entered, -, -, arrives⟩, advances⟩ room
      exact ⟨arrives.seated room seated, retains.advances advances⟩
    exact (untraced.and entering).mono fun after both => both.2 both.1

/-- All that a tick does keeps what the life tells. -/
theorem reciting_keeper : Keeper pledge kernel start (Reciting kernel past state)
    (Throughlife (Retains kernel.definition.sections state) past) where
  idles := Reciting.idles
  contains := Reciting.contain
  starts := reliable.start_recites spares
    (reliable.sound.wellFormed.root_branches_of_history has keeps)
  fires := reliable.fire_recites spares has keeps
  begins := Recites.retains
  exchanges := reliable.exchange_retains spares has keeps
  advances := Retains.advances

end Reliable

end Kernel

end Statechart
