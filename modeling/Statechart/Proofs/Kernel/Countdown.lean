/-
# Counting timers down

At the start of a tick every timer slot is counted down in its turn. `Tock` lists what can
become of one slot: it was not armed, it goes on with less time, or it runs out; and if it
runs out, an active state may own it, whose timer action is run and for which an event is
queued. `Elapses` strings the slots of an instance together.

The owner of a slot that has run out is an active state whose timer uses the slot
(`timerOwner?_yields`).
-/

import Statechart.Proofs.Instance.Slots
import Statechart.Proofs.Kernel.Activity
import Statechart.Proofs.Kernel.Steps
import Statechart.Proofs.Kernel.Quiet
import Statechart.Proofs.Rom.Legal

namespace Statechart.Kernel

open Rom (Definition StateRecord noIndex)

variable {User : Type} {kernel : Kernel User} {start : Stays} {delta : UInt32}
  {progress before middle after : Progress User}

/-- What can become of a timer slot while time passes. -/
inductive Tock (kernel : Kernel User) (delta : UInt32) (slot : Nat) (before : Progress User) :
    Progress User → Prop
  | unarmed : before.inst.timers[slot]? = some 0 → Tock kernel delta slot before before
  | waned {remaining : UInt32} {inst : Instance} : before.inst.timers[slot]? = some remaining →
      delta < remaining → before.inst.setTimer slot (remaining - delta) = .ok inst →
      Tock kernel delta slot before (before.withInst inst)
  /-- The timer runs out, and nobody owns it. -/
  | lapsed {remaining : UInt32} {inst : Instance} : before.inst.timers[slot]? = some remaining →
      remaining ≠ 0 → remaining ≤ delta → before.inst.setTimer slot 0 = .ok inst →
      timerOwner? kernel.definition (UInt16.ofNat slot) inst.activeLeaves = .ok none →
      Tock kernel delta slot before (before.withInst inst)
  /-- The timer of an active state runs out. -/
  | expired {remaining : UInt32} {inst : Instance} {owner : UInt16}
      {acted after : Progress User} : before.inst.timers[slot]? = some remaining →
      remaining ≠ 0 → remaining ≤ delta → before.inst.setTimer slot 0 = .ok inst →
      timerOwner? kernel.definition (UInt16.ofNat slot) inst.activeLeaves = .ok (some owner) →
      kernel.runAction .timer (kernel.definition.sections.record owner).timerAction owner
        ((before.withInst inst).note (.timerFired (UInt16.ofNat slot) owner)) = .ok acted →
      enqueueOrNote (Event.timer (UInt16.ofNat slot) owner) .normal acted = .ok after →
      Tock kernel delta slot before after

/-- Time passes for some slots, one after the other. -/
inductive Elapses (kernel : Kernel User) (delta : UInt32) :
    List Nat → Progress User → Progress User → Prop
  | nil {progress : Progress User} : Elapses kernel delta [] progress progress
  | cons {slot : Nat} {slots : List Nat} {before middle after : Progress User} :
      Tock kernel delta slot before middle → Elapses kernel delta slots middle after →
      Elapses kernel delta (slot :: slots) before after

theorem advanceTimer_yields (progress : Progress User) (slot : Nat) :
    Yields (kernel.advanceTimer delta progress slot) (Tock kernel delta slot progress) := by
  unfold advanceTimer
  apply Instance.timer_yields.bind
  intro remaining found
  split
  · next absent => exact .pure (.unarmed (absent ▸ found))
  · next armed =>
    split
    · next more =>
      apply (Yields.self _).bind
      intro inst written
      exact .pure (.waned found more written)
    · next enough =>
      apply (Yields.self _).bind
      intro inst written
      unfold expire
      apply (Yields.self _).bind
      intro owner asked
      cases owner with
      | none => exact .pure (.lapsed found armed (UInt32.not_lt.1 enough) written asked)
      | some owner =>
        apply (kernel.definition.state_yields owner).bind
        intro record known
        obtain ⟨_, rfl⟩ := known
        apply (Yields.self _).bind
        intro acted ran
        exact ⟨fun after queued =>
          .expired found armed (UInt32.not_lt.1 enough) written asked ran queued⟩

theorem foldlM_advanceTimer_yields (slots : List Nat) :
    ∀ progress, Yields (slots.foldlM (kernel.advanceTimer delta) progress)
      (Elapses kernel delta slots progress) := by
  induction slots with
  | nil => exact fun progress => .pure .nil
  | cons slot rest ih =>
    intro progress
    rw [List.foldlM_cons]
    apply (advanceTimer_yields progress slot).bind
    intro middle tock
    exact (ih middle).mono fun _ more => .cons tock more

/-- Time passes for all slots in their order, or not at all. -/
theorem advanceTimers_yields (progress : Progress User) :
    Yields (kernel.advanceTimers delta progress) fun after => delta = 0 ∧ after = progress ∨
      delta ≠ 0 ∧
        Elapses kernel delta (List.range progress.inst.tier.timerCapacity) progress after := by
  unfold advanceTimers
  split
  · next still => exact .ok (.inl ⟨still, rfl⟩)
  · next passes =>
    exact (foldlM_advanceTimer_yields _ progress).mono fun _ elapses => .inr ⟨passes, elapses⟩

/-! ### Owners -/

theorem timerOwnerAbove?_yields {definition : Definition}
    (wellFormed : definition.sections.WellFormed) {leaf : UInt16}
    (has : definition.sections.Has leaf) (slot : UInt16) :
    Yields (timerOwnerAbove? definition slot leaf) fun owner =>
      (∀ state, owner = some state →
        definition.sections.Beneath state leaf ∧ definition.sections.RunsIn state slot.toNat) ∧
      (owner = none → ∀ state, definition.sections.Beneath state leaf →
        ¬ definition.sections.RunsIn state slot.toNat) := by
  -- On the way up, no state below the current one uses the slot unless an owner was found.
  let holds (current : UInt16) (owner : Option UInt16) : Prop :=
    (definition.sections.Has current → definition.sections.Beneath current leaf) ∧
      (∀ state, owner = some state →
        definition.sections.Beneath state leaf ∧ definition.sections.RunsIn state slot.toNat) ∧
      (owner = none → ∀ state, definition.sections.Beneath state leaf →
        definition.sections.RunsIn state slot.toNat → definition.sections.Has current ∧
          definition.sections.Beneath state current)
  have begins : holds leaf none :=
    ⟨fun _ => .self has, nofun, fun _ state beneath _ => ⟨has, beneath⟩⟩
  refine (climb_yields holds ?_ begins).mono ?_
  · intro current owner known invariant asked
    obtain ⟨upper, found, passed⟩ := invariant
    have met := upper known
    have none : owner = none := by
      cases owner with
      | none => rfl
      | some _ => cases asked
    have lifted := fun hasParent => wellFormed.beneath_parent met hasParent
    apply Yields.ok
    show holds _ (if _ then _ else _)
    split
    · next uses =>
      simp only [Bool.and_eq_true, decide_eq_true_eq] at uses
      refine ⟨lifted, ?_, nofun⟩
      intro state same
      cases same
      exact ⟨met, uses.1, congrArg UInt16.toNat uses.2⟩
    · next other =>
      simp only [Bool.and_eq_true, decide_eq_true_eq] at other
      refine ⟨lifted, nofun, fun _ state beneath uses => ?_⟩
      cases (passed none state beneath uses).2 with
      | self _ => exact absurd ⟨uses.runs, UInt16.toNat_inj.1 uses.slot_eq⟩ other
      | under above linked =>
        rw [linked.parent_eq]
        exact ⟨wellFormed.has_of_child linked, above⟩
  · intro owner ended
    obtain ⟨last, ⟨_, found, passed⟩, stopped⟩ := ended
    refine ⟨found, fun none state beneath uses => ?_⟩
    rcases stopped with absent | asked
    · exact wellFormed.not_has_noIndex (absent ▸ (passed none state beneath uses).1)
    · subst none
      cases asked

/-- The owner of a slot is an active state whose timer uses it, and there is one if any
active state's timer does. -/
theorem timerOwner?_yields {definition : Definition}
    (wellFormed : definition.sections.WellFormed) {active : List UInt16}
    (states : ∀ leaf ∈ active, definition.sections.Has leaf) (slot : UInt16) :
    Yields (timerOwner? definition slot active) fun owner =>
      (∀ state, owner = some state →
        definition.sections.Active active state ∧ definition.sections.RunsIn state slot.toNat) ∧
      (owner = none → ∀ state, definition.sections.Active active state →
        ¬ definition.sections.RunsIn state slot.toNat) := by
  induction active with
  | nil =>
    refine .ok ⟨nofun, ?_⟩
    rintro _ state ⟨leaf, listed, _⟩
    cases listed
  | cons leaf rest ih =>
    have first := List.mem_cons_self (a := leaf) (l := rest)
    apply (timerOwnerAbove?_yields wellFormed (states leaf first) slot).bind
    intro owner known
    cases owner with
    | some owner =>
      refine .pure ⟨fun state same => ?_, nofun⟩
      obtain ⟨beneath, uses⟩ := known.1 state same
      exact ⟨⟨leaf, first, beneath⟩, uses⟩
    | none =>
      apply (ih fun other later => states other (List.mem_cons_of_mem _ later)).mono
      intro owner later
      refine ⟨fun state same => ?_, fun none state isActive => ?_⟩
      · obtain ⟨⟨other, listed, beneath⟩, uses⟩ := later.1 state same
        exact ⟨⟨other, List.mem_cons_of_mem _ listed, beneath⟩, uses⟩
      · obtain ⟨other, listed, beneath⟩ := isActive
        rcases List.mem_cons.1 listed with rfl | others
        · exact known.2 rfl state beneath
        · exact later.2 none state ⟨other, others, beneath⟩

/-! ### What is traced -/

/-- Running an action without tracing it calls what is registered for it, if anything is. -/
theorem invoke_yields (action : UInt16) (progress : Progress User) :
    Yields (kernel.invoke action progress) fun after => after.trace = progress.trace ∧
      (after.inst = progress.inst ∨ kernel.dispatch.Touches progress.inst after.inst) := by
  have asked : Yields (kernel.dispatch.invoke action progress.toScene) fun after =>
      after.inst = progress.inst ∨ kernel.dispatch.Touches progress.inst after.inst := by
    rcases kernel.dispatch.invoke_cases action with ⟨registration, listed, calls⟩ | nothing
    · rw [calls]
      exact ⟨fun _ ran => .inr (.action listed ran)⟩
    · rw [nothing]
      exact .ok (.inl rfl)
  exact asked.bind fun _ became => .pure ⟨rfl, became⟩

/-- Running an action notes it, and calls what is registered for it. -/
theorem runAction_yields (cause : Trace.Cause) (action state : UInt16) (progress : Progress User) :
    Yields (kernel.runAction cause action state progress) fun after =>
      after.trace.toList = progress.trace.toList ++
        (if action = Name.noId then [] else [.action cause action state]) ∧
      (after.inst = progress.inst ∨ kernel.dispatch.Touches progress.inst after.inst) := by
  unfold runAction
  split
  · exact .ok ⟨(List.append_nil _).symm, .inl rfl⟩
  · apply (invoke_yields _ _).mono
    rintro after ⟨same, became⟩
    refine ⟨?_, became⟩
    rw [same]
    exact Array.toList_push

/-- An action keeps what no callback changes. -/
theorem runAction_preserves {Part : Type} {part : Instance → Part}
    (spares : kernel.dispatch.Preserves part) (cause : Trace.Cause) (action state : UInt16)
    (progress : Progress User) : Yields (kernel.runAction cause action state progress) fun after =>
      part after.inst = part progress.inst := by
  apply (runAction_yields cause action state progress).mono
  rintro after ⟨_, same | touches⟩
  · exact congrArg part same
  · exact spares _ _ touches

/-- What the timer of a state leaves in the trace when it runs out. -/
def expirySteps (definition : Definition) (slot owner : UInt16) : List Trace.Entry :=
  let action := (definition.sections.record owner).timerAction
  .timerFired slot owner :: if action = Name.noId then [] else [.action .timer action owner]

theorem mem_expirySteps {slot owner : UInt16} {entry : Trace.Entry}
    {definition : Definition} (listed : entry ∈ expirySteps definition slot owner) :
    entry = .timerFired slot owner ∨ entry = .action .timer
      (definition.sections.record owner).timerAction owner := by
  rcases List.mem_cons.1 listed with fired | acted
  · exact .inl fired
  · split at acted
    · cases acted
    · exact .inr (List.mem_singleton.1 acted)

/-- An expiry leaves its steps in the trace, and the loss of the event if there was no room
for it. -/
theorem expiry_trace {slot owner : UInt16} {acted : Progress User}
    (ran : kernel.runAction .timer (kernel.definition.sections.record owner).timerAction owner
      (before.note (.timerFired slot owner)) = .ok acted)
    (queued : enqueueOrNote (Event.timer slot owner) .normal acted = .ok after) :
    ∃ lost, (∀ entry ∈ lost, entry = .eventDropped Event.timerId) ∧
      after.trace.toList =
        before.trace.toList ++ (expirySteps kernel.definition slot owner ++ lost) := by
  obtain ⟨traced, _⟩ := (runAction_yields _ _ _ _).of_eq _ ran
  obtain ⟨accepted, inst, _, rfl⟩ := (enqueueOrNote_yields _ _ _).of_eq _ queued
  have noted : acted.trace.toList =
      before.trace.toList ++ expirySteps kernel.definition slot owner := by
    rw [traced]
    show (before.trace.push _).toList ++ _ = _
    rw [Array.toList_push, List.append_assoc]
    rfl
  split
  · refine ⟨[], nofun, ?_⟩
    rw [List.append_nil]
    exact noted
  · refine ⟨[.eventDropped Event.timerId], fun _ only => List.mem_singleton.1 only, ?_⟩
    rw [← List.append_assoc, ← noted]
    exact Array.toList_push

/-- Time passing enters and leaves no state. -/
theorem Tock.exists_still {slot : Nat} (tock : Tock kernel delta slot before after) :
    ∃ more, after.trace.toList = before.trace.toList ++ more ∧ ∀ entry ∈ more, entry.Still := by
  cases tock with
  | unarmed _ => exact ⟨[], (List.append_nil _).symm, List.forall_mem_nil _⟩
  | waned _ _ _ => exact ⟨[], (List.append_nil _).symm, List.forall_mem_nil _⟩
  | lapsed _ _ _ _ _ => exact ⟨[], (List.append_nil _).symm, List.forall_mem_nil _⟩
  | expired _ _ _ _ _ ran queued =>
    obtain ⟨lost, dropped, grows⟩ := expiry_trace ran queued
    refine ⟨_, grows, fun entry listed => ?_⟩
    rcases List.mem_append.1 listed with own | gone
    · rcases mem_expirySteps own with rfl | rfl <;> trivial
    · exact dropped entry gone ▸ trivial

theorem Tock.extends {slot : Nat} (tock : Tock kernel delta slot before after) :
    Extends kernel start before after ∧ after.stays start = before.stays start := by
  obtain ⟨more, grows, still⟩ := tock.exists_still
  refine ⟨⟨more, grows, Stays.orderly_of_still still⟩, ?_⟩
  rw [Progress.stays, grows, Stays.replay_append]
  exact Stays.replay_of_still still

theorem Elapses.extends {slots : List Nat} (elapses : Elapses kernel delta slots before after) :
    Extends kernel start before after ∧ after.stays start = before.stays start := by
  induction elapses with
  | nil => exact ⟨.same rfl, rfl⟩
  | @cons _ _ before middle _ tock _ ih =>
    have first : Extends kernel start before middle ∧ middle.stays start = before.stays start :=
      tock.extends
    exact ⟨first.1.trans ih.1, ih.2.trans first.2⟩

theorem advanceTimers_extends (progress : Progress User) :
    Yields (kernel.advanceTimers delta progress) fun after =>
      Extends kernel start progress after ∧ after.stays start = progress.stays start := by
  apply (advanceTimers_yields progress).mono
  rintro after (⟨_, rfl⟩ | ⟨_, elapses⟩)
  · exact ⟨.same rfl, rfl⟩
  · exact elapses.extends

end Statechart.Kernel
