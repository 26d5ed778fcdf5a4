/-
# History over ticks

Whatever a tick does, the slot of a state remembers at every moment what the life so far tells
of it. Between the parts of a tick this holds together with what every tick keeps (`Recounts`);
while a transition is taken it holds from where the states in its way were left
(`Reliable.exchange_departs`), since entering writes no history.

`Told` says what is known of each call that is made in the course of a tick. In particular a
call for a state to be settled was made after the slot was last written, in a stretch of the
trace that enters states in order.
-/

import Statechart.Proofs.Kernel.Keeping
import Statechart.Proofs.Kernel.Remembering

namespace Statechart.Kernel

open Rom (Sections TransitionRecord noIndex rootIndex)
open Stays (Nested Alike)

variable {User : Type} {pledge : Instance.Pledge} {kernel : Kernel User} {idle : Prop}
  {start : Stays} {past : List Trace.Entry} {state : UInt16}
  {progress before middle after : Progress User}

/-! ### One transition -/

/-- From one moment to another, the slot of a state is written if the state is left, and remembers
what the life up to the second moment tells. -/
structure Departs (kernel : Kernel User) (past : List Trace.Entry) (state : UInt16)
    (before after : Progress User) : Prop where
  remembers : Remembers kernel.definition.sections state (past ++ after.trace.toList) after.inst
  exists_more : ∃ more, after.trace.toList = before.trace.toList ++ more ∧
    (.exit state ∉ more →
      after.inst.history[(kernel.definition.sections.record state).historySlot.toNat]? =
        before.inst.history[(kernel.definition.sections.record state).historySlot.toNat]?)

theorem Departs.advances (departs : Departs kernel past state before middle)
    (advances : Advances middle after) : Departs kernel past state before after where
  remembers := departs.remembers.advances advances
  exists_more := by
    obtain ⟨more, grows, same⟩ := departs.exists_more
    obtain ⟨history, added, growsOn, -⟩ := advances
    refine ⟨more ++ added, by rw [growsOn, grows, List.append_assoc], fun stays => ?_⟩
    rw [history]
    exact same fun listed => stays (List.mem_append_left _ listed)

/-- Between two parts of a tick, the slot of a state remembers what the life so far tells. -/
structure Recounts (pledge : Instance.Pledge) (kernel : Kernel User) (idle : Prop) (start : Stays)
    (past : List Trace.Entry) (state : UInt16) (progress : Progress User) : Prop where
  underway : Underway pledge kernel idle start progress
  remembers : Remembers kernel.definition.sections state (past ++ progress.trace.toList)
    progress.inst

namespace Reliable

variable (reliable : Reliable pledge kernel) (spares : kernel.dispatch.Preserves Instance.history)
  (own : kernel.definition.sections.KeepsHistory state)
  (alike : start.Alike (Stays.nowhere.replay past))

include reliable spares own alike

/-- What a transition leaves saves its history, and then the transition's action runs. -/
theorem exchange_departs {transition : TransitionRecord} {event top : UInt16}
    {left acted : Progress User} (recounts : Recounts pledge kernel idle start past state progress)
    (leaves : kernel.exitBelow top
      (progress.note (.transition transition.source transition.target event)) = .ok left)
    (acts : kernel.runAction .effect transition.action transition.source left = .ok acted) :
    Departs kernel past state progress acted := by
  have wellFormed := reliable.sound.wellFormed
  let noted := progress.note (.transition transition.source transition.target event)
  have same : noted.stays start = progress.stays start := Progress.stays_note _ _
  obtain ⟨active, holds, settled, has, matched⟩ := recounts.underway.states wellFormed
  have childless : ∀ leaf ∈ active, kernel.definition.sections.Has leaf ∧
      (kernel.definition.sections.record leaf).isLeaf = true := by
    intro leaf listed
    rcases settled with standing | ⟨-, rfl⟩
    · exact standing.of_mem wellFormed listed
    · cases listed
  have other (leaf : UInt16) : Trace.Entry.leafOverflow leaf ≠
      .transition transition.source transition.target event := by
    intro equal
    cases equal
  have steady : Steady pledge kernel noted := (recounts.underway.steady.note other).steady
  have saving : Saves kernel (noted.stays start) state noted left :=
    (reliable.exitBelow_saves spares own steady holds childless
      ⟨same.symm ▸ matched.nested, same.symm ▸ matched.open_iff⟩).of_eq left leaves
  have departs : Departs kernel past state progress left := by
    refine ⟨.saves rfl alike recounts.remembers saving, ?_⟩
    obtain ⟨added, grows, -, -, unsaved⟩ := saving
    refine ⟨.transition transition.source transition.target event :: added, ?_, fun stays => ?_⟩
    · rw [grows]
      refine (congrArg (· ++ _) Array.toList_push).trans ?_
      rw [List.append_assoc, List.singleton_append]
    · exact unsaved fun listed => stays (List.mem_cons_of_mem _ listed)
  exact departs.advances ((runAction_idles spares _ _ _ _).of_eq _ acts).advances

/-- Taking a transition. -/
theorem fire_departs {transition : TransitionRecord} {event : UInt16}
    (recounts : Recounts pledge kernel idle start past state progress) :
    Yields (kernel.fire transition event progress) (Departs kernel past state progress) := by
  cases kind : transition.flags.isInternal with
  | true =>
    have noted : Departs kernel past state progress
        (progress.note (.transition transition.source transition.target event)) :=
      .advances ⟨recounts.remembers, [], (List.append_nil _).symm, fun _ => rfl⟩
        (Idles.advances ⟨rfl, [_], Array.toList_push, List.forall_mem_singleton.2 trivial⟩)
    unfold fire
    simp only [kind, if_true]
    exact (runAction_idles spares _ _ _ _).mono fun _ idles => noted.advances idles.advances
  | false =>
    rw [fire_of_external kernel kind]
    refine (Yields.self _).bind fun top _ => (Yields.self _).bind fun left leaves =>
      (Yields.self _).bind fun acted acts => (Yields.self _).bind fun chain _ =>
        (Yields.self _).bind fun record _ => ?_
    have departs := reliable.exchange_departs spares own alike recounts leaves acts
    exact (enterPath_advances spares (descend_advances spares) _ acted).mono fun _ =>
      departs.advances

end Reliable

/-! ### Between the transitions -/

/-- The slot of a state remembers what the life up to a moment tells. -/
abbrev Remembering (kernel : Kernel User) (past : List Trace.Entry) (state : UInt16) :
    Progress User → Prop :=
  Throughlife (Remembers kernel.definition.sections state) past

theorem Recounts.keeps (recounts : Recounts pledge kernel idle start past state progress) :
    Keeps pledge kernel idle start (Remembering kernel past state) progress :=
  ⟨recounts.underway, recounts.remembers⟩

theorem Keeps.recounts
    (keeps : Keeps pledge kernel idle start (Remembering kernel past state) progress) :
    Recounts pledge kernel idle start past state progress :=
  ⟨keeps.underway, keeps.rests⟩

namespace Reliable

variable (reliable : Reliable pledge kernel) (spares : kernel.dispatch.Preserves Instance.history)
  (own : kernel.definition.sections.KeepsHistory state)
  (alike : start.Alike (Stays.nowhere.replay past))

include reliable spares own alike

/-- All that a tick does keeps what the slot remembers. -/
theorem remembering_keeper :
    Keeper pledge kernel start (Remembering kernel past state) (Remembering kernel past state) where
  idles remembering idles _ := Remembers.advances remembering idles.advances
  contains remembering := Remembers.advances remembering
    ⟨rfl, [_], Array.toList_push, fun _ listed => nomatch List.mem_singleton.1 listed⟩
  starts keeps _ := (descend_advances spares rootIndex _).mono fun _ advances =>
    Remembers.advances keeps.rests advances
  fires keeps _ := (reliable.fire_departs spares own alike keeps.recounts).mono fun _ departs =>
    departs.remembers
  begins := id
  exchanges keeps leaves acts :=
    (reliable.exchange_departs spares own alike keeps.recounts leaves acts).remembers
  advances := Remembers.advances

end Reliable

/-! ### What is known of every call -/

/-- From a moment at which the slot of a state remembers what the life so far tells, states are
entered in order. -/
structure Onset (kernel : Kernel User) (start : Stays) (past : List Trace.Entry) (state : UInt16)
    (before after : Progress User) : Prop where
  remembers : Remembers kernel.definition.sections state (past ++ before.trace.toList) before.inst
  nested : Nested kernel.definition.sections (before.stays start)
  grows : Extends kernel start before after

/-- What is known of a part of a tick when it is called. -/
inductive Told (pledge : Instance.Pledge) (kernel : Kernel User) (start : Stays)
    (past : List Trace.Entry) (state : UInt16) : Call User → Prop
  | tick {delta : UInt32} {scene : Scene User} :
      scene.inst.phase? = some .idle →
      Recounts pledge kernel True start past state (.ofScene scene) →
      Told pledge kernel start past state (.tick delta scene)
  | resume {budget transitions : Nat} {progress : Progress User} :
      Recounts pledge kernel True start past state progress →
      Told pledge kernel start past state (.resume budget transitions progress)
  | serve {budget transitions : Nat} {progress : Progress User} :
      Recounts pledge kernel False start past state progress →
      Told pledge kernel start past state (.serve budget transitions progress)
  | serveEvent {budget transitions : Nat} {event : Event} {progress : Progress User} :
      Recounts pledge kernel False start past state progress →
      Told pledge kernel start past state (.serveEvent budget transitions event progress)
  | complete {remaining steps : Nat} {event : Event} {progress : Progress User} :
      Recounts pledge kernel False start past state progress →
      Told pledge kernel start past state (.complete remaining steps event progress)
  | fire {transition : TransitionRecord} {event : UInt16} {progress : Progress User} :
      Recounts pledge kernel False start past state progress →
      Firing pledge kernel False start transition event progress →
      Told pledge kernel start past state (.fire transition event progress)
  | root {before after : Progress User} :
      Onset kernel start past state before after →
      Runs kernel (.settle rootIndex before) before after →
      Told pledge kernel start past state (.settle rootIndex before)
  | below {call : Call User} {before after : Progress User} :
      Onset kernel start past state before after → Underneath kernel before after call →
      Told pledge kernel start past state call

namespace Reliable

variable (reliable : Reliable pledge kernel) (spares : kernel.dispatch.Preserves Instance.history)
  (own : kernel.definition.sections.KeepsHistory state)
  (alike : start.Alike (Stays.nowhere.replay past))

include reliable spares own alike

/-- After a transition has left what was in its way, states are entered in order. -/
theorem exchange_onset {transition : TransitionRecord} {event top : UInt16}
    {left acted : Progress User} {chain : List UInt16} {record : Rom.StateRecord}
    (recounts : Recounts pledge kernel idle start past state progress)
    (firing : Firing pledge kernel idle start transition event progress)
    (external : transition.flags.isInternal = false) (within : kernel.scopeOf transition = .ok top)
    (leaves : kernel.exitBelow top
      (progress.note (.transition transition.source transition.target event)) = .ok left)
    (acts : kernel.runAction .effect transition.action transition.source left = .ok acted)
    (down : kernel.chainTo transition.target = .ok chain)
    (known : kernel.definition.state top = .ok record) :
    ∃ after, Onset kernel start past state acted after ∧
      Underneath kernel acted after (.enter (chain.drop (record.depth.toNat + 1)) acted) := by
  obtain ⟨after, fires, ⟨more, grows, orderly⟩, -⟩ := firing
  rw [fire_of_external kernel external, within, ok_bind, leaves, ok_bind, acts, ok_bind, down,
    ok_bind, known, ok_bind] at fires
  obtain ⟨remembers, earlier, growsFirst, -⟩ :=
    reliable.exchange_departs spares own alike recounts leaves acts
  obtain ⟨-, later, growsOn, -⟩ :=
    (enterPath_advances spares (descend_advances spares) _ acted).of_eq _ fires
  -- What the transition adds to the trace is in order, and so are its two parts.
  rw [growsOn, growsFirst, List.append_assoc, List.append_cancel_left_eq] at grows
  subst grows
  obtain ⟨first, second⟩ := Stays.orderly_append.1 orderly
  have reached : acted.stays start = (progress.stays start).replay earlier := by
    rw [Progress.stays, growsFirst, Stays.replay_append]
    rfl
  obtain ⟨active, -, matched⟩ := recounts.underway.exists_matched
  refine ⟨after, ⟨remembers, reached ▸ matched.nested.replay first, later, growsOn,
    reached ▸ second⟩, ?_⟩
  exact .enter (.enter fires) (.refl acted) (.refl after)

/-- What is known of a part of a tick is known of the parts it calls. -/
theorem callee_told {call callee : Call User} (told : Told pledge kernel start past state call)
    (calls : kernel.Calls call callee) : Told pledge kernel start past state callee := by
  have keeper : Keeper pledge kernel start (Remembering kernel past state)
      (Remembering kernel past state) := reliable.remembering_keeper spares own alike
  cases told with
  | tick resting recounts =>
    cases calls with
    | idle _ _ ages _ =>
      exact .resume ((reliable.advanceTimers_keeps spares keeper _
        (recounts.keeps.withPhase keeper .idle)).of_eq _ ages).recounts
    | entry _ phase => cases resting.symm.trans phase
    | rtc _ phase => cases resting.symm.trans phase
  | resume recounts =>
    have entry := recounts.keeps.withPhase keeper .entry
    cases calls with
    | started running => exact .serve (entry.started running).recounts
    | start fresh =>
      obtain ⟨after, settles, leads, -⟩ := reliable.start_underway entry.underway fresh
      obtain ⟨active, -, matched⟩ := entry.underway.exists_matched
      exact .root ⟨entry.rests, matched.nested, (leads.path .completion).extends⟩
        (.settle settles)
  | serve recounts =>
    cases calls with
    | putBack taken deferred queued =>
      exact .serve ((recounts.keeps.putBack keeper spares taken deferred).of_eq _ queued).recounts
    | take taken _ => exact .serveEvent (recounts.keeps.take keeper taken).recounts
  | serveEvent recounts =>
    have running := recounts.keeps.withPhase keeper .rtc
    cases calls with
    | run => exact .complete (running.withSteps keeper 0).recounts
    | further ran _ _ =>
      exact .resume (((reliable.runToCompletion_keeps spares keeper _ running).of_eq _
        ran).weaken False.elim).recounts
  | complete recounts =>
    cases calls with
    | fire selects =>
      obtain ⟨chosen, poised⟩ :=
        (reliable.select_keeps spares keeper _ recounts.keeps).of_eq _ selects
      exact .fire chosen.recounts (poised _ rfl).firing
    | again selects fires =>
      obtain ⟨chosen, poised⟩ :=
        (reliable.select_keeps spares keeper _ recounts.keeps).of_eq _ selects
      exact .complete (((chosen.fire keeper (poised _ rfl)).of_eq _ fires).withSteps keeper
        _).recounts
  | fire recounts firing =>
    cases calls with
    | exchange external within leaves acts down known =>
      obtain ⟨after, onset, underneath⟩ := reliable.exchange_onset spares own alike recounts firing
        external within leaves acts down known
      exact .below onset underneath
  | root onset runs => exact .below onset (runs.callee spares calls)
  | below onset underneath => exact .below onset (underneath.callee spares calls)

/-- So it is known of every part of a tick. -/
theorem within_told {call callee : Call User} (told : Told pledge kernel start past state call)
    (within : kernel.Within call callee) : Told pledge kernel start past state callee := by
  induction within with
  | refl => exact told
  | tail _ calls ih => exact reliable.callee_told spares own alike ih calls

end Reliable

end Statechart.Kernel
