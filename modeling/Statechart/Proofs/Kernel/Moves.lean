/-
# Moves

Whatever a tick does between two events and two transitions is a row of small moves: a callback
is called, something is noted, a slot or a mark of the instance is written. None of them writes
the queue, unless a callback does, and none of them traces an event, a timer that runs out or a
transition.

Nothing is assumed here of the definition, the callbacks or the configuration. So what every
move keeps is kept by choosing, leaving, entering and going on, for whatever tables a blob may
hold, as far as they return at all. Choosing, leaving and entering let no activity go on
(`Errands`).
-/

import Statechart.Proofs.Instance.Waiting
import Statechart.Proofs.Kernel.Calls
import Statechart.Proofs.Kernel.Closing
import Statechart.Proofs.Kernel.Countdown

namespace Statechart

/-- A record of a step below the level of events and transitions. -/
def Trace.Entry.Inner : Trace.Entry → Prop
  | .event .. | .eventDropped _ | .timerFired .. | .transition .. | .rtcOverflow _ => False
  | _ => True

/-- Whether a step is the going on of an activity. -/
def Trace.Entry.isActivity : Trace.Entry → Bool
  | .activity .. => true
  | _ => false

namespace Kernel

open Rom (Definition StateRecord TransitionRecord noIndex rootIndex)

variable {User : Type} {kernel : Kernel User} {progress before middle after : Progress User}
  {settle : Settle User}

/-- One move of a tick. -/
inductive Move (kernel : Kernel User) : Progress User → Progress User → Prop
  /-- A callback is called, or there was none to call. -/
  | called {before after : Progress User} : after.trace = before.trace →
      (after.inst = before.inst ∨ kernel.dispatch.Touches before.inst after.inst) →
      Move kernel before after
  | noted {progress : Progress User} {entry : Trace.Entry} : entry.Inner →
      Move kernel progress (progress.note entry)
  /-- Something is written that has no part in the queue. -/
  | written {progress : Progress User} {inst : Instance} : inst.queue = progress.inst.queue →
      Move kernel progress (progress.withInst inst)

/-- Moves, one after the other. -/
abbrev Moves (kernel : Kernel User) : Progress User → Progress User → Prop :=
  Relation.ReflTransGen (Move kernel)

namespace Moves

theorem note {entry : Trace.Entry} (inner : entry.Inner) :
    Moves kernel progress (progress.note entry) :=
  .single (.noted inner)

theorem write {inst : Instance} (same : inst.queue = progress.inst.queue) :
    Moves kernel progress (progress.withInst inst) :=
  .single (.written same)

end Moves

/-! ### Moves without activities -/

/-- The activities that went on so far. -/
def Progress.activities (progress : Progress User) : List Trace.Entry :=
  progress.trace.toList.filter Trace.Entry.isActivity

theorem Progress.activities_note (progress : Progress User) {entry : Trace.Entry}
    (other : entry.isActivity = false) :
    (progress.note entry).activities = progress.activities := by
  simp [activities, note, other]

/-- There were moves, and no activity went on. -/
structure Errands (kernel : Kernel User) (before after : Progress User) : Prop where
  moves : Moves kernel before after
  activities_eq : after.activities = before.activities

namespace Errands

theorem refl : Errands kernel progress progress :=
  ⟨.refl, rfl⟩

theorem trans (first : Errands kernel before middle) (second : Errands kernel middle after) :
    Errands kernel before after :=
  ⟨first.moves.trans second.moves, second.activities_eq.trans first.activities_eq⟩

theorem called (traced : after.trace = before.trace)
    (became : after.inst = before.inst ∨ kernel.dispatch.Touches before.inst after.inst) :
    Errands kernel before after :=
  ⟨.single (.called traced became), by rw [Progress.activities, traced, Progress.activities]⟩

theorem note {entry : Trace.Entry} (inner : entry.Inner) (other : entry.isActivity = false) :
    Errands kernel progress (progress.note entry) :=
  ⟨.note inner, progress.activities_note other⟩

theorem write {inst : Instance} (same : inst.queue = progress.inst.queue) :
    Errands kernel progress (progress.withInst inst) :=
  ⟨.write same, rfl⟩

theorem writeAndNote {inst : Instance} {entry : Trace.Entry}
    (same : inst.queue = progress.inst.queue) (inner : entry.Inner)
    (other : entry.isActivity = false) :
    Errands kernel progress ((progress.withInst inst).note entry) :=
  (write same).trans (note inner other)

end Errands

/-- A loop whose turns are errands. -/
theorem foldlM_errands {Entry : Type}
    {step : Progress User → Entry → Except Fault (Progress User)}
    (each : ∀ progress entry, Yields (step progress entry) (Errands kernel progress))
    (entries : List Entry) (progress : Progress User) :
    Yields (entries.foldlM step progress) (Errands kernel progress) :=
  .foldlM_keeps (fun entry middle _ reached =>
    (each middle entry).mono fun _ more => reached.trans more) .refl

/-! ### Callbacks -/

theorem invoke_errands (action : UInt16) (progress : Progress User) :
    Yields (kernel.invoke action progress) (Errands kernel progress) :=
  (invoke_yields action progress).mono fun _ became => .called became.1 became.2

theorem runAction_errands (cause : Trace.Cause) (action state : UInt16) (progress : Progress User) :
    Yields (kernel.runAction cause action state progress) (Errands kernel progress) := by
  unfold runAction
  split
  · exact .ok .refl
  · exact (invoke_errands action _).mono fun _ => (Errands.note (by trivial) rfl).trans

theorem checkGuard_errands (guard event : UInt16) (progress : Progress User) :
    Yields (kernel.checkGuard guard event progress) fun answer =>
      Errands kernel progress answer.2 := by
  have asked : Yields (kernel.dispatch.check guard event progress.inst progress.user)
      fun answer => answer.2.1 = progress.inst ∨
        kernel.dispatch.Touches progress.inst answer.2.1 := by
    rcases kernel.dispatch.check_cases guard with ⟨registration, listed, calls⟩ | passes
    · rw [calls]
      exact ⟨fun _ ran => .inr (.guard listed ran)⟩
    · rw [passes]
      exact .ok (.inl rfl)
  unfold checkGuard
  split
  · exact .ok .refl
  · apply asked.bind
    intro answer became
    let called : Progress User := { progress with inst := answer.2.1, user := answer.2.2 }
    have calling : Errands kernel progress called := .called rfl became
    exact .pure (calling.trans (.note trivial rfl))

/-! ### Choosing a transition -/

theorem selectGlobal_errands (event : Event) (globals : List TransitionRecord)
    (progress : Progress User) :
    Yields (kernel.selectGlobal event globals progress) fun found =>
      Errands kernel progress found.2 := by
  induction globals generalizing progress with
  | nil => exact .ok .refl
  | cons transition rest ih =>
    unfold selectGlobal
    split
    · apply (checkGuard_errands _ _ progress).bind
      intro answer asked
      show Yields (if answer.1 = true then _ else _) _
      split
      · exact .pure asked
      · exact (ih answer.2).mono fun _ => asked.trans
    · exact ih progress

theorem selectOwn_errands (event : Event) (state : UInt16) (indices : List Nat)
    (found : Option TransitionRecord × Progress User) :
    Yields (kernel.selectOwn event state indices found) fun next =>
      Errands kernel found.2 next.2 := by
  induction indices generalizing found with
  | nil => exact .ok .refl
  | cons index rest ih =>
    obtain ⟨best, progress⟩ := found
    unfold selectOwn
    apply (Yields.self _).bind
    intro transition _
    split
    · exact ih (best, progress)
    · split
      · exact .pure .refl
      · apply (checkGuard_errands _ _ progress).bind
        intro answer asked
        show Yields (if answer.1 = true then _ else _) _
        split
        · exact .pure asked
        · exact (ih (best, answer.2)).mono fun _ => asked.trans

theorem selectLocal_errands (event : Event) (slots : List Nat)
    (found : Option TransitionRecord × Progress User) :
    Yields (kernel.selectLocal event slots found) fun next => Errands kernel found.2 next.2 := by
  induction slots generalizing found with
  | nil => exact .ok .refl
  | cons slot rest ih =>
    obtain ⟨best, progress⟩ := found
    unfold selectLocal
    apply (Yields.self _).bind
    intro leaf _
    split
    · exact .pure .refl
    · refine (climb_yields (fun _ next => Errands kernel progress next.2) ?_ .refl).bind ?_
      · intro state next _ reached _
        exact (selectOwn_errands event state _ next).mono fun _ => reached.trans
      · rintro next ⟨_, reached, _⟩
        exact (ih next).mono fun _ => reached.trans

/-- Looking for a transition. -/
theorem select_errands (event : Event) (progress : Progress User) :
    Yields (kernel.select event progress) fun found => Errands kernel progress found.2 := by
  unfold select
  apply (selectGlobal_errands event _ progress).bind
  rintro ⟨global, reached⟩ errands
  cases global with
  | some transition => exact .pure errands
  | none => exact (selectLocal_errands event _ (none, reached)).mono fun _ => errands.trans

/-! ### Entering states -/

theorem armTimer_errands (state : UInt16) (record : StateRecord) (progress : Progress User) :
    Yields (armTimer state record progress) (Errands kernel progress) := by
  apply (armTimer_yields state record progress).mono
  rintro after (⟨_, rfl⟩ | ⟨_, inst, written, rfl⟩)
  · exact .refl
  · exact Errands.writeAndNote ((Instance.setTimer_queue _).of_eq _ written) trivial rfl

theorem addLeaf_errands (state : UInt16) (progress : Progress User) :
    Yields (addLeaf state progress) (Errands kernel progress) := by
  apply (addLeaf_yields state progress).mono
  rintro after (⟨slot, inst, _, written, rfl⟩ | ⟨_, rfl⟩)
  · obtain ⟨_, rfl⟩ := (Instance.setLeaf_yields _).of_eq _ written
    exact Errands.write rfl
  · exact Errands.writeAndNote rfl trivial rfl

theorem enterState_errands (state : UInt16) (progress : Progress User) :
    Yields (kernel.enterState state progress) (Errands kernel progress) := by
  unfold enterState
  apply (Yields.self _).bind
  intro record _
  apply (armTimer_errands state record _).bind
  intro armed errands
  exact (runAction_errands _ _ _ armed).mono fun _ more =>
    (Errands.note (by trivial) rfl).trans (errands.trans more)

/-- `settle` runs errands and nothing else. -/
def Moving (kernel : Kernel User) (settle : Settle User) : Prop :=
  ∀ state progress, Yields (settle state progress) (Errands kernel progress)

namespace Moving

variable (moving : Moving kernel settle)

include moving

theorem enterAndSettle : Moving kernel (kernel.enterAndSettle settle) := fun state progress =>
  (enterState_errands state progress).bind fun entered errands =>
    (moving state entered).mono fun _ => errands.trans

theorem enterPath (path : List UInt16) (progress : Progress User) :
    Yields (kernel.enterPath settle path progress) (Errands kernel progress) := by
  induction path generalizing progress with
  | nil => exact .ok .refl
  | cons state rest ih =>
    cases rest with
    | nil => exact moving.enterAndSettle state progress
    | cons next rest =>
      have beside (progress : Progress User) (child : UInt16) :
          Yields (kernel.enterBeside settle next rest progress child)
            (Errands kernel progress) := by
        unfold enterBeside
        split
        · exact ih progress
        · exact moving.enterAndSettle child progress
      rw [enterPath_cons_cons]
      apply (enterState_errands state progress).bind
      intro entered errands
      apply (Yields.self _).bind
      intro record _
      split
      · exact (foldlM_errands beside _ entered).mono fun _ => errands.trans
      · exact (ih entered).mono fun _ => errands.trans

theorem enterBeside (next : UInt16) (rest : List UInt16) (progress : Progress User)
    (child : UInt16) :
    Yields (kernel.enterBeside settle next rest progress child) (Errands kernel progress) := by
  unfold Kernel.enterBeside
  split
  · exact moving.enterPath _ progress
  · exact moving.enterAndSettle child progress

theorem descendBy : Moving kernel (kernel.descendBy settle) := by
  intro state progress
  unfold Kernel.descendBy
  apply (Yields.self _).bind
  intro record _
  split
  · exact addLeaf_errands state progress
  · split
    · exact foldlM_errands (fun progress child => moving.enterAndSettle child progress) _ progress
    · apply (Yields.self _).bind
      intro named _
      cases named with
      | none => exact moving.enterAndSettle _ progress
      | some saved =>
        simp only [enterNamed]
        split
        · exact (Yields.self _).bind fun path _ => moving.enterPath path progress
        · exact moving.enterAndSettle saved progress

end Moving

theorem descendFrom_errands (levels : Nat) : Moving kernel (kernel.descendFrom levels) := by
  induction levels with
  | zero => exact fun _ _ => .error
  | succ levels ih => exact ih.descendBy

/-- Settling a state. -/
theorem descend_errands : Moving kernel kernel.descend :=
  descendFrom_errands maxLevels

/-! ### Leaving states -/

theorem remember_queue (state : UInt16) (record : StateRecord) (inst : Instance) :
    Yields (kernel.remember state record inst) fun saved => saved.queue = inst.queue := by
  unfold remember
  split
  · apply (Yields.self _).bind
    intro named _
    cases named with
    | none => exact .pure rfl
    | some saved =>
      apply (Instance.setHistory_yields saved).mono
      rintro after ⟨_, rfl⟩
      rfl
  · exact .ok rfl

theorem disarm_queue (record : StateRecord) (inst : Instance) :
    Yields (disarm record inst) fun after => after.queue = inst.queue := by
  unfold disarm
  split
  · exact Instance.setTimer_queue 0
  · exact .ok rfl

theorem exitState_errands (state : UInt16) (progress : Progress User) :
    Yields (kernel.exitState state progress) (Errands kernel progress) := by
  rw [exitState_eq]
  apply (Yields.self _).bind
  intro record _
  apply (remember_queue state record progress.inst).bind
  intro saved remembered
  apply (disarm_queue record saved).bind
  intro inst disarmed
  have left : Errands kernel progress ((progress.withInst inst).note (.exit state)) :=
    Errands.writeAndNote (disarmed.trans remembered) trivial rfl
  exact (runAction_errands _ _ _ _).mono fun _ => left.trans

theorem exitBelow_errands (top : UInt16) (progress : Progress User) :
    Yields (kernel.exitBelow top progress) (Errands kernel progress) := by
  unfold exitBelow
  apply (Yields.self _).bind
  intro exiting _
  apply (Yields.self _).bind
  intro ordered _
  apply (foldlM_errands (fun progress state => exitState_errands state progress) ordered
    progress).bind
  intro left errands
  apply (Yields.self _).bind
  intro beside _
  exact .pure (errands.trans (Errands.write rfl))

/-- Taking a transition, once it is noted. -/
theorem fire_errands (transition : TransitionRecord) (event : UInt16) (progress : Progress User) :
    Yields (kernel.fire transition event progress) (Errands kernel
      (progress.note (.transition transition.source transition.target event))) := by
  cases internal : transition.flags.isInternal with
  | true =>
    unfold fire
    rw [internal]
    exact runAction_errands _ _ _ _
  | false =>
    rw [fire_of_external kernel internal]
    apply (Yields.self _).bind
    intro top _
    apply (exitBelow_errands top _).bind
    intro left leaving
    apply (runAction_errands _ _ _ left).bind
    intro acted acting
    apply (Yields.self _).bind
    intro chain _
    apply (Yields.self _).bind
    intro record _
    exact (descend_errands.enterPath _ acted).mono fun _ entering =>
      leaving.trans (acting.trans entering)

/-! ### Activities -/

theorem continueActivity_moves (state action : UInt16) (progress : Progress User) :
    Yields (kernel.continueActivity state action progress) (Moves kernel progress) := by
  unfold continueActivity
  split
  · exact .ok .refl
  · exact (invoke_errands action _).mono fun _ errands =>
      (Moves.note (by trivial)).trans errands.moves

theorem runActivitiesFrom_moves (slots : List Nat) (claims : List Claim)
    (progress : Progress User) :
    Yields (kernel.runActivitiesFrom slots claims progress) (Moves kernel progress) := by
  induction slots generalizing claims progress with
  | nil => exact .ok .refl
  | cons slot rest ih =>
    unfold runActivitiesFrom
    apply (Yields.self _).bind
    intro leaf _
    split
    · exact .pure .refl
    · apply (Yields.self _).bind
      intro record _
      show Yields (if _ then _ else _) _
      split
      · exact (ih _ _).mono fun _ => (Moves.note (by trivial)).trans
      · refine (climb_yields (fun _ reached => Moves kernel progress reached) ?_ .refl).bind ?_
        · intro state reached _ moves _
          exact (continueActivity_moves _ _ reached).mono fun _ => moves.trans
        · rintro reached ⟨_, moves, _⟩
          exact (ih _ reached).mono fun _ => moves.trans

theorem runActivities_moves (progress : Progress User) :
    Yields (kernel.runActivities progress) (Moves kernel progress) :=
  runActivitiesFrom_moves _ [] progress

end Kernel

end Statechart
