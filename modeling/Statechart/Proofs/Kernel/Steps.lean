/-
# What a tick is made of

Once time has passed, a tick is a path of small steps: a callback is called, something is
noted, an event is taken from the queue, a transition is taken on it, a state is entered or
left, a leaf slot is written. `Step` lists them all, each with what it does to the instance
and to the trace. Whatever every step keeps is kept by every tick, so an invariant of ticks
needs one argument per step and nothing about the recursion of the kernel.

Along every path the trace grows at its end, and what is added enters and leaves states in
the order of the tree, given what was active at the start of the tick (`Path.extends`).
-/

import Mathlib.Logic.Relation
import Statechart.Proofs.Kernel.Stays
import Statechart.Proofs.Kernel.Steady
import Statechart.Proofs.Yields

namespace Statechart

namespace Trace.Entry

/-- A record of a step that leaves no mark in the configuration, the timers or the queue. -/
def Aside : Trace.Entry → Prop
  | .eventDropped _ | .guard .. | .activity .. | .conflict .. => True
  | .action cause _ _ => cause ≠ .timer
  | _ => False

theorem Aside.still {entry : Trace.Entry} (aside : entry.Aside) : entry.Still := by
  cases entry with
  | enter _ => cases aside
  | exit _ => cases aside
  | rtcOverflow _ => cases aside
  | _ => trivial

end Trace.Entry

namespace Kernel

open Rom (Definition Sections StateRecord TransitionRecord noIndex rootIndex)

variable {User : Type} {kernel : Kernel User} {start : Stays}

/-- What a registered callback can make of an instance. -/
inductive Dispatch.Touches (dispatch : Dispatch User) : Instance → Instance → Prop
  | action {registration : Registration (Action User)} {before after : Scene User} :
      registration ∈ dispatch.actions.registrations →
      registration.callback before = .ok after → Touches dispatch before.inst after.inst
  | guard {registration : Registration (Guard User)} {event : UInt16} {before after : Instance}
      {user changed : User} {passed : Bool} :
      registration ∈ dispatch.guards.registrations →
      registration.callback event before user = .ok (passed, after, changed) →
      Touches dispatch before after

/-- No callback changes some part of the instance. -/
def Dispatch.Preserves {Part : Type} (part : Instance → Part) (dispatch : Dispatch User) : Prop :=
  ∀ before after, dispatch.Touches before after → part after = part before

theorem Dispatch.preserves_empty {Part : Type} (part : Instance → Part) :
    Dispatch.Preserves part (.empty : Dispatch User) := by
  intro before after touches
  cases touches with
  | action listed _ => cases listed
  | guard listed _ => cases listed

/-! ### Leaving a state, part by part -/

/-- Save the history of a state that is left. -/
def remember (kernel : Kernel User) (state : UInt16) (record : StateRecord) (inst : Instance) :
    Except Fault Instance :=
  if record.flags.history && record.historySlot != noIndex then do
    match ← kernel.activeDescendant? state record.flags.deepHistory inst with
    | some saved => inst.setHistory record.historySlot.toNat saved
    | none => return inst
  else .ok inst

/-- Disarm the timer of a state that is left. -/
def disarm (record : StateRecord) (inst : Instance) : Except Fault Instance :=
  if record.hasTimer then inst.setTimer record.timerSlot.toNat 0 else .ok inst

/-- Leaving a state saves its history, disarms its timer and runs its exit action. -/
theorem exitState_eq (kernel : Kernel User) (state : UInt16) (progress : Progress User) :
    kernel.exitState state progress = (do
      let record ← kernel.definition.state state
      let inst ← kernel.remember state record progress.inst
      let inst ← disarm record inst
      kernel.runAction .exit record.exitAction state
        ((progress.withInst inst).note (.exit state))) := by
  unfold exitState
  congr 1
  funext record
  unfold remember
  by_cases remembers : (record.flags.history && record.historySlot != noIndex) = true
  · simp only [remembers, if_true]
    cases kernel.activeDescendant? state record.flags.deepHistory progress.inst with
    | error fault => rfl
    | ok saved =>
      cases saved with
      | none =>
        simp only [ok_bind, disarm]
        split <;> rfl
      | some saved =>
        simp only [ok_bind, disarm]
        congr 1
        funext inst
        split <;> rfl
  · simp only [if_neg remembers, ok_bind, disarm]
    split <;> rfl

/-! ### Steps -/

/-- How far a tick has come, and the event that is being served. -/
structure Stage (User : Type) where
  serving : Event
  progress : Progress User

/-- The states that are active after the steps so far, given those at the start. -/
def Progress.stays (start : Stays) (progress : Progress User) : Stays :=
  start.replay progress.trace.toList

@[simp]
theorem Progress.stays_note (progress : Progress User) (entry : Trace.Entry) :
    (progress.note entry).stays start = (progress.stays start).step entry := by
  show start.replay (progress.trace.push entry).toList = _
  rw [Array.toList_push, Stays.replay_append]
  rfl

/-- A transition that may be taken on an event. -/
inductive Chosen (definition : Definition) (event : Event) (transition : TransitionRecord) : Prop
  | anywhere : transition ∈ definition.sections.globals → transition.event = event.id →
      Chosen definition event transition
  | locally : transition.flags.isGlobal = false →
      awaits transition.source transition event = true → Chosen definition event transition

/-- One step of a tick after its timers. -/
inductive Step (kernel : Kernel User) (start : Stays) : Stage User → Stage User → Prop
  /-- A callback is called. -/
  | called {event : Event} {progress after : Progress User} :
      kernel.dispatch.Touches progress.inst after.inst → after.trace = progress.trace →
      Step kernel start ⟨event, progress⟩ ⟨event, after⟩
  | noted {event : Event} {progress : Progress User} {entry : Trace.Entry} : entry.Aside →
      Step kernel start ⟨event, progress⟩ ⟨event, progress.note entry⟩
  /-- The phase or the count of transitions is written. -/
  | paced {event : Event} {progress : Progress User} (phaseByte microStep : UInt8) :
      Step kernel start ⟨event, progress⟩
        ⟨event, progress.withInst { progress.inst with phaseByte, microStep }⟩
  /-- An event is taken from the queue. -/
  | taken {event next : Event} {progress : Progress User} {inst : Instance} :
      progress.inst.dequeue = .ok (some next, inst) → next.flags.deferred = false →
      Step kernel start ⟨event, progress⟩
        ⟨next, (progress.withInst inst).note (.event next.id next.priority)⟩
  /-- A deferred event is taken from the queue and put back. -/
  | putBack {event next : Event} {progress after : Progress User} {inst : Instance} :
      progress.inst.dequeue = .ok (some next, inst) → next.flags.deferred = true →
      requeue next (progress.withInst inst) = .ok after →
      Step kernel start ⟨event, progress⟩ ⟨event, after⟩
  /-- A transition is taken, and completion is served next. -/
  | fired {event : Event} {progress : Progress User} {transition : TransitionRecord} :
      Chosen kernel.definition event transition →
      Step kernel start ⟨event, progress⟩ ⟨.completion,
        progress.note (.transition transition.source transition.target event.id)⟩
  /-- A state is entered and its timer is armed. -/
  | entered {event : Event} {progress after : Progress User} {state : UInt16} :
      (progress.stays start).Enterable kernel.definition.sections state →
      armTimer state (kernel.definition.sections.record state) (progress.note (.enter state)) =
        .ok after →
      Step kernel start ⟨event, progress⟩ ⟨event, after⟩
  /-- The history of a state is saved, its timer is disarmed and it is left. -/
  | left {event : Event} {progress : Progress User} {state : UInt16} {saved inst : Instance} :
      (progress.stays start).Leavable kernel.definition.sections state →
      kernel.remember state (kernel.definition.sections.record state) progress.inst = .ok saved →
      disarm (kernel.definition.sections.record state) saved = .ok inst →
      Step kernel start ⟨event, progress⟩ ⟨event, (progress.withInst inst).note (.exit state)⟩
  /-- A leaf is given a slot, if there is one. -/
  | seated {event : Event} {progress after : Progress User} {state : UInt16} :
      addLeaf state progress = .ok after →
      Step kernel start ⟨event, progress⟩ ⟨event, after⟩
  /-- The leaves of the states that were left are taken away. -/
  | vacated {event : Event} {progress : Progress User} (beside : List UInt16) :
      Step kernel start ⟨event, progress⟩
        ⟨event, progress.withInst (progress.inst.withActiveLeaves beside)⟩
  /-- The configuration is dropped. -/
  | contained {event : Event} {progress : Progress User} :
      Step kernel start ⟨event, progress⟩ ⟨event, kernel.contain progress⟩

/-- The steps of a tick after its timers, one after the other. -/
abbrev Path (kernel : Kernel User) (start : Stays) : Stage User → Stage User → Prop :=
  Relation.ReflTransGen (Step kernel start)

/-! ### Traces of paths -/

/-- The trace grows at its end, by steps that are in order. -/
def Extends (kernel : Kernel User) (start : Stays) (before after : Progress User) : Prop :=
  ∃ more, after.trace.toList = before.trace.toList ++ more ∧
    (before.stays start).Orderly kernel.definition.sections more

namespace Extends

variable {before middle after : Progress User}

theorem same (same : after.trace = before.trace) : Extends kernel start before after :=
  ⟨[], by rw [same, List.append_nil], trivial⟩

theorem note {entry : Trace.Entry}
    (inOrder : (before.stays start).InOrder kernel.definition.sections entry) :
    Extends kernel start before (before.note entry) :=
  ⟨[entry], Array.toList_push, inOrder, trivial⟩

theorem trans (first : Extends kernel start before middle)
    (second : Extends kernel start middle after) : Extends kernel start before after := by
  obtain ⟨more, grows, orderly⟩ := first
  obtain ⟨others, growsOn, orderlyOn⟩ := second
  refine ⟨more ++ others, by rw [growsOn, grows, List.append_assoc], ?_⟩
  refine Stays.orderly_append.2 ⟨orderly, ?_⟩
  rw [Progress.stays, grows, Stays.replay_append] at orderlyOn
  exact orderlyOn

end Extends

/-- A queued event leaves a trace only where there is no room for it. -/
theorem enqueueOrNote_yields (event : Event) (priority : Priority) (progress : Progress User) :
    Yields (enqueueOrNote event priority progress) fun after => ∃ accepted inst,
      progress.inst.enqueue event priority = .ok (accepted, inst) ∧ after =
        if accepted = true then progress.withInst inst
        else (progress.withInst inst).note (.eventDropped event.id) := by
  apply (Yields.self _).bind
  intro answer queued
  exact .pure ⟨answer.1, answer.2, queued, rfl⟩

theorem armTimer_yields (state : UInt16) (record : StateRecord) (progress : Progress User) :
    Yields (armTimer state record progress) fun after =>
      record.hasTimer = false ∧ after = progress ∨
        record.hasTimer = true ∧ ∃ inst,
          progress.inst.setTimer record.timerSlot.toNat (max record.timerMs 1).toUInt32 =
            .ok inst ∧
          after = (progress.withInst inst).note
            (.timerArmed record.timerSlot state (max record.timerMs 1)) := by
  unfold armTimer
  split
  · next runs =>
    apply (Yields.self _).bind
    intro inst armed
    exact .pure (.inr ⟨runs, inst, armed, rfl⟩)
  · next runs => exact .ok (.inl ⟨Bool.eq_false_iff.2 runs, rfl⟩)

theorem addLeaf_yields (state : UInt16) (progress : Progress User) :
    Yields (addLeaf state progress) fun after =>
      (∃ slot inst, progress.inst.leaves.findIdx? (fun leaf => leaf == noIndex) = some slot ∧
        progress.inst.setLeaf slot state = .ok inst ∧ after = progress.withInst inst) ∨
      progress.inst.leaves.findIdx? (fun leaf => leaf == noIndex) = none ∧
        after = (progress.withInst { progress.inst with
          status := { progress.inst.status with leafOverflow := true } }).note
            (.leafOverflow state) := by
  unfold addLeaf
  split
  · next slot free =>
    apply (Yields.self _).map
    intro inst written
    exact .inl ⟨slot, inst, free, written, rfl⟩
  · next full => exact .ok (.inr ⟨full, rfl⟩)

theorem Step.extends {first second : Stage User} (step : Step kernel start first second) :
    Extends kernel start first.progress second.progress := by
  cases step with
  | called _ same => exact .same same
  | noted aside => exact .note (Stays.inOrder_of_still aside.still)
  | paced _ _ => exact .same rfl
  | @taken _ _ _ inst _ _ => exact .note trivial
  | @putBack _ next progress after inst _ _ queued =>
    obtain ⟨accepted, queue, _, rfl⟩ := (enqueueOrNote_yields _ _ _).of_eq _ queued
    split
    · exact .same rfl
    · exact .note trivial
  | fired _ => exact .note trivial
  | @entered _ progress _ state enterable armed =>
    have entering : Extends kernel start progress (progress.note (.enter state)) :=
      .note enterable
    rcases (armTimer_yields _ _ _).of_eq _ armed with ⟨_, rfl⟩ | ⟨_, inst, _, rfl⟩
    · exact entering
    · exact entering.trans (.note trivial)
  | left leavable _ _ => exact .note leavable
  | seated added =>
    rcases (addLeaf_yields _ _).of_eq _ added with ⟨_, _, _, _, rfl⟩ | ⟨_, rfl⟩
    · exact .same rfl
    · exact .note trivial
  | vacated _ => exact .same rfl
  | contained => exact .note trivial

/-- What a path adds to the trace enters and leaves states in order. -/
theorem Path.extends {first second : Stage User} (path : Path kernel start first second) :
    Extends kernel start first.progress second.progress := by
  induction path with
  | refl => exact .same rfl
  | tail _ step ih => exact ih.trans step.extends

end Kernel

end Statechart
