/-
# Quiet parts of a tick

Callbacks, the choice of a transition and the activities lead from one moment of a tick to
another without entering or leaving any state and without writing a leaf slot (`Quiet`).
What is chosen waits for the event that is being served (`select_quiet`).

Nothing is assumed here of the configuration: that a tick reads what is there is known
from the values it has read.
-/

import Statechart.Proofs.Kernel.Steps

namespace Statechart.Kernel

open Rom (Definition StateRecord TransitionRecord noIndex)

variable {User : Type} {pledge : Instance.Pledge} {kernel : Kernel User} {start : Stays}
  {progress before middle after : Progress User}

/-- Whatever event is being served, a path leads on, and the queue stays sound. -/
structure Leads (kernel : Kernel User) (start : Stays) (before after : Progress User) : Prop where
  path (event : Event) : Path kernel start ⟨event, before⟩ ⟨event, after⟩
  queueSound : after.inst.QueueSound

/-- A path leads on and leaves the configuration alone. -/
structure Quiet (kernel : Kernel User) (start : Stays) (before after : Progress User) : Prop
    extends Leads kernel start before after where
  leaves_eq : after.inst.leaves = before.inst.leaves
  exists_still : ∃ more, after.trace.toList = before.trace.toList ++ more ∧
    ∀ entry ∈ more, entry.Still

namespace Leads

theorem refl (sound : progress.inst.QueueSound) : Leads kernel start progress progress :=
  ⟨fun _ => .refl, sound⟩

theorem trans (first : Leads kernel start before middle)
    (second : Leads kernel start middle after) :
    Leads kernel start before after :=
  ⟨fun event => (first.path event).trans (second.path event), second.queueSound⟩

theorem step (step : ∀ event, Step kernel start ⟨event, before⟩ ⟨event, after⟩)
    (sound : after.inst.QueueSound) : Leads kernel start before after :=
  ⟨fun event => .single (step event), sound⟩

end Leads

namespace Quiet

theorem stays_eq (quiet : Quiet kernel start before after) :
    after.stays start = before.stays start := by
  obtain ⟨more, grows, still⟩ := quiet.exists_still
  rw [Progress.stays, grows, Stays.replay_append]
  exact Stays.replay_of_still still

theorem refl (sound : progress.inst.QueueSound) : Quiet kernel start progress progress :=
  ⟨.refl sound, rfl, [], (List.append_nil _).symm, List.forall_mem_nil _⟩

theorem trans (first : Quiet kernel start before middle)
    (second : Quiet kernel start middle after) :
    Quiet kernel start before after where
  toLeads := first.toLeads.trans second.toLeads
  leaves_eq := second.leaves_eq.trans first.leaves_eq
  exists_still := by
    obtain ⟨more, grows, still⟩ := first.exists_still
    obtain ⟨others, growsOn, stillOn⟩ := second.exists_still
    refine ⟨more ++ others, by rw [growsOn, grows, List.append_assoc], fun entry listed => ?_⟩
    exact (List.mem_append.1 listed).elim (still entry) (stillOn entry)

/-- A path of one step that leaves no trace. -/
theorem untraced (step : ∀ event, Step kernel start ⟨event, before⟩ ⟨event, after⟩)
    (sound : after.inst.QueueSound) (leaves : after.inst.leaves = before.inst.leaves)
    (same : after.trace = before.trace) : Quiet kernel start before after where
  toLeads := .step step sound
  leaves_eq := leaves
  exists_still := ⟨[], by rw [same, List.append_nil], List.forall_mem_nil _⟩

theorem note (sound : progress.inst.QueueSound) {entry : Trace.Entry} (aside : entry.Aside) :
    Quiet kernel start progress (progress.note entry) where
  toLeads := .step (fun _ => .noted aside) sound
  leaves_eq := rfl
  exists_still := ⟨[entry], Array.toList_push, List.forall_mem_singleton.2 aside.still⟩

theorem withPhase (sound : progress.inst.QueueSound) (phase : Phase) :
    Quiet kernel start progress (progress.withPhase phase) :=
  .untraced (fun _ => .paced phase.toByte progress.inst.microStep) (sound.of_ring_eq rfl) rfl rfl

theorem withSteps (sound : progress.inst.QueueSound) (steps : Nat) :
    Quiet kernel start progress (withSteps steps progress) :=
  .untraced (fun _ => .paced progress.inst.phaseByte (UInt8.ofNat (min steps 255)))
    (sound.of_ring_eq rfl) rfl rfl

/-- What a callback makes of an instance that it spares. -/
theorem called (sound : progress.inst.QueueSound)
    (touches : kernel.dispatch.Touches progress.inst after.inst)
    (spares : progress.inst.Spares pledge after.inst) (same : after.trace = progress.trace) :
    Quiet kernel start progress after :=
  .untraced (fun _ => .called touches same) (spares.queueSound sound) spares.leaves_eq same

end Quiet

/-! ### Walks -/

/-- A climb that ends has kept what each of its steps keeps. It ends where it was to, or
above the root. -/
theorem climb_yields {definition : Definition} {Found : Type} (holds : UInt16 → Found → Prop)
    {done : UInt16 → Found → Except Fault Bool}
    {visit : UInt16 → StateRecord → Found → Except Fault Found}
    (step : ∀ state found, definition.sections.Has state → holds state found →
      done state found = .ok false →
        Yields (visit state (definition.sections.record state) found)
          (holds (definition.sections.record state).parent))
    {state : UInt16} {found : Found} (begins : holds state found) :
    Yields (climb definition state done visit found) fun found =>
      ∃ last, holds last found ∧ (last = noIndex ∨ done last found = .ok true) := by
  unfold climb
  generalize definition.stateCount + 1 = steps
  induction steps generalizing state found with
  | zero =>
    unfold climbFrom
    split
    · next absent => exact .pure ⟨state, begins, .inl absent⟩
    · apply (Yields.self _).bind
      intro stop asked
      cases stop with
      | true => exact .pure ⟨state, begins, .inr asked⟩
      | false => exact .error
  | succ steps ih =>
    unfold climbFrom
    split
    · next absent => exact .pure ⟨state, begins, .inl absent⟩
    · apply (Yields.self _).bind
      intro stop asked
      cases stop with
      | true => exact .pure ⟨state, begins, .inr asked⟩
      | false =>
        apply (definition.state_yields state).bind
        intro record known
        obtain ⟨has, rfl⟩ := known
        exact (step state found has begins asked).bind fun _ still => ih still

namespace Reliable

variable (reliable : Reliable pledge kernel)

include reliable

/-! ### Callbacks -/

theorem invoke_quiet (action : UInt16) (sound : progress.inst.QueueSound) :
    Yields (kernel.invoke action progress) (Quiet kernel start progress) := by
  have called : Yields (kernel.dispatch.invoke action progress.toScene) fun after =>
      Quiet kernel start progress { after with trace := progress.trace } := by
    rcases kernel.dispatch.invoke_cases action with ⟨registration, listed, calls⟩ | nothing
    · rw [calls]
      have promised := (reliable.harmless.action registration listed progress.toScene sound).yields
      refine ⟨fun after ran => ?_⟩
      exact .called sound (.action listed ran) (promised.of_eq after ran) rfl
    · rw [nothing]
      exact .ok (.refl sound)
  exact called.bind fun _ quiet => .pure quiet

theorem runAction_quiet {cause : Trace.Cause} (other : cause ≠ .timer) (action state : UInt16)
    (sound : progress.inst.QueueSound) :
    Yields (kernel.runAction cause action state progress) (Quiet kernel start progress) := by
  unfold runAction
  split
  · exact .ok (.refl sound)
  · have noted : Quiet kernel start progress (progress.note (.action cause action state)) :=
      .note sound other
    exact (reliable.invoke_quiet action noted.queueSound).mono fun _ quiet => noted.trans quiet

theorem checkGuard_quiet (guard event : UInt16) (sound : progress.inst.QueueSound) :
    Yields (kernel.checkGuard guard event progress) fun answer =>
      Quiet kernel start progress answer.2 := by
  have asked : Yields (kernel.dispatch.check guard event progress.inst progress.user)
      fun answer => Quiet kernel start progress
        { progress with inst := answer.2.1, user := answer.2.2 } := by
    rcases kernel.dispatch.check_cases guard with ⟨registration, listed, calls⟩ | passes
    · rw [calls]
      have promised := (reliable.harmless.guard registration listed event progress.inst
        progress.user sound).yields
      refine ⟨fun answer ran => ?_⟩
      exact .called sound (.guard listed ran) (promised.of_eq answer ran) rfl
    · rw [passes]
      exact .ok (.refl sound)
  unfold checkGuard
  split
  · exact .ok (.refl sound)
  · apply asked.bind
    intro answer quiet
    exact .pure (quiet.trans (.note quiet.queueSound trivial))

/-! ### Choosing a transition -/

/-- What was found so far: the instance was left alone, and the best transition may be
taken on the event. -/
structure Found (kernel : Kernel User) (start : Stays) (event : Event) (before : Progress User)
    (found : Option TransitionRecord × Progress User) : Prop where
  quiet : Quiet kernel start before found.2
  chosen : ∀ transition, found.1 = some transition → Chosen kernel.definition event transition

theorem selectGlobal_quiet (event : Event) {globals : List TransitionRecord}
    (listed : ∀ transition ∈ globals, transition ∈ kernel.definition.sections.globals)
    (sound : progress.inst.QueueSound) :
    Yields (kernel.selectGlobal event globals progress) (Found kernel start event progress) := by
  induction globals generalizing progress with
  | nil => exact .ok ⟨.refl sound, nofun⟩
  | cons transition rest ih =>
    have later := fun other member => listed other (List.mem_cons_of_mem transition member)
    unfold selectGlobal
    split
    · next awaited =>
      apply (reliable.checkGuard_quiet _ _ sound).bind
      intro answer quiet
      show Yields (if answer.1 = true then _ else _) _
      split
      · refine .pure ⟨quiet, fun chosen same => ?_⟩
        obtain rfl := Option.some.inj same
        exact .anywhere (listed transition (List.mem_cons_self ..)) awaited
      · exact (ih later quiet.queueSound).mono fun _ found =>
          ⟨quiet.trans found.quiet, found.chosen⟩
    · exact ih later sound

theorem selectOwn_quiet (event : Event) {state : UInt16}
    (has : kernel.definition.sections.Has state) {indices : List Nat}
    (own : ∀ index ∈ indices, index ∈ (kernel.definition.sections.record state).transitions.toList)
    {best : Option TransitionRecord} (found : Found kernel start event before (best, progress)) :
    Yields (kernel.selectOwn event state indices (best, progress))
      (Found kernel start event before) := by
  induction indices generalizing progress with
  | nil => exact .ok found
  | cons index rest ih =>
    have later := fun other member => own other (List.mem_cons_of_mem index member)
    obtain ⟨transition, entry, source, isLocal⟩ :=
      reliable.sound.wellFormed.own has (own index (List.mem_cons_self ..))
    have looked : kernel.definition.transition index = .ok transition := by
      unfold Definition.transition Definition.entry
      rw [entry]
    unfold selectOwn
    simp only [looked, ok_bind]
    split
    · exact ih later found
    · next waits =>
      split
      · exact .pure found
      · apply (reliable.checkGuard_quiet _ _ found.quiet.queueSound).bind
        intro answer quiet
        show Yields (if answer.1 = true then _ else _) _
        split
        · refine .pure ⟨found.quiet.trans quiet, fun chosen same => ?_⟩
          obtain rfl := Option.some.inj same
          refine .locally isLocal ?_
          rw [source]
          simpa using waits
        · exact ih later ⟨found.quiet.trans quiet, found.chosen⟩

theorem selectLocal_quiet (event : Event) {slots : List Nat}
    {found : Option TransitionRecord × Progress User}
    (searched : Found kernel start event before found) :
    Yields (kernel.selectLocal event slots found) (Found kernel start event before) := by
  induction slots generalizing found with
  | nil => exact .ok searched
  | cons slot rest ih =>
    unfold selectLocal
    apply (Yields.self _).bind
    intro leaf _
    split
    · exact .pure searched
    · refine (climb_yields (fun _ => Found kernel start event before) ?_ searched).bind ?_
      · intro state found has searched _
        exact reliable.selectOwn_quiet event has (fun _ => id) searched
      · intro found ended
        obtain ⟨_, searched, _⟩ := ended
        exact ih searched

/-- Looking for a transition leaves the configuration alone, and what is found may be taken
on the event. -/
theorem select_quiet (event : Event) (sound : progress.inst.QueueSound) :
    Yields (kernel.select event progress) (Found kernel start event progress) := by
  unfold select
  apply (reliable.selectGlobal_quiet event (fun _ => Array.mem_toList_iff.1) sound).bind
  intro answer found
  obtain ⟨global, after⟩ := answer
  cases global with
  | some transition => exact .pure found
  | none =>
    exact reliable.selectLocal_quiet event ⟨found.quiet, nofun⟩

/-! ### Activities -/

theorem continueActivity_quiet (state action : UInt16) (sound : progress.inst.QueueSound) :
    Yields (kernel.continueActivity state action progress) (Quiet kernel start progress) := by
  unfold continueActivity
  split
  · exact .ok (.refl sound)
  · have noted : Quiet kernel start progress (progress.note (.activity action state)) :=
      .note sound trivial
    exact (reliable.invoke_quiet action noted.queueSound).mono fun _ quiet => noted.trans quiet

theorem runActivitiesFrom_quiet {slots : List Nat} {claims : List Claim}
    (quiet : Quiet kernel start before progress) :
    Yields (kernel.runActivitiesFrom slots claims progress) (Quiet kernel start before) := by
  induction slots generalizing progress claims with
  | nil => exact .ok quiet
  | cons slot rest ih =>
    unfold runActivitiesFrom
    apply (Yields.self _).bind
    intro leaf _
    split
    · exact .pure quiet
    · apply (Yields.self _).bind
      intro record _
      show Yields (if _ then _ else _) _
      split
      · exact ih (quiet.trans (.note quiet.queueSound trivial))
      · refine (climb_yields (fun _ => Quiet kernel start before) ?_ quiet).bind ?_
        · intro state after _ quiet _
          exact (reliable.continueActivity_quiet _ _ quiet.queueSound).mono fun _ more =>
            quiet.trans more
        · intro after ended
          obtain ⟨_, quiet, _⟩ := ended
          exact ih quiet

/-- Letting activities go on leaves the configuration alone. -/
theorem runActivities_quiet (sound : progress.inst.QueueSound) :
    Yields (kernel.runActivities progress) (Quiet kernel start progress) :=
  reliable.runActivitiesFrom_quiet (.refl sound)

end Reliable

end Statechart.Kernel
