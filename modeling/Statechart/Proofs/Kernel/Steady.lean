/-
# What every part of a tick keeps

A kernel is `Reliable` if its definition is sound and its callbacks keep their promise:
they return, and they write neither the leaf slots nor the ring's cursors out of bounds.
Everything else an instance holds is theirs to change.

`Steady` is what a tick relies on at every moment: the instance is of a sufficient tier, its
queue is sound, and nothing so far has overflowed the leaf slots. The parts of a tick that
run callbacks, write slots or queue events keep it, and keep the leaf slots as they are
(`Kept`). Climbing from a state to the root keeps whatever its visits keep, and never
reaches its bound.
-/

import Statechart.Kernel.Tick
import Statechart.Proofs.Ends
import Statechart.Proofs.Instance.Leaves
import Statechart.Proofs.Rom.Configuration

namespace Statechart.Kernel

open Rom (Definition Sections StateRecord noIndex)

variable {User : Type}

/-- Callbacks that return, leave the leaf slots and the soundness of the queue alone, and
keep what is pledged. -/
structure Dispatch.Harmless (pledge : Instance.Pledge) (dispatch : Dispatch User) : Prop where
  action : ∀ registration ∈ dispatch.actions.registrations, ∀ scene : Scene User,
    scene.inst.QueueSound →
      Returns (registration.callback scene) fun after => scene.inst.Spares pledge after.inst
  guard : ∀ registration ∈ dispatch.guards.registrations, ∀ event inst user,
    inst.QueueSound →
      Returns (registration.callback event inst user) fun answer => inst.Spares pledge answer.2.1

/-- A kernel that keeps its promises if the instances keep theirs. -/
structure Reliable (pledge : Instance.Pledge) (kernel : Kernel User) : Prop where
  sound : kernel.definition.Sound
  harmless : kernel.dispatch.Harmless pledge

/-- What a tick relies on beside the leaf slots. -/
structure Steady (pledge : Instance.Pledge) (kernel : Kernel User) (progress : Progress User) :
    Prop where
  room : kernel.definition.tier ≤ progress.inst.tier
  queueSound : progress.inst.QueueSound
  pledged : pledge.Of progress.inst
  untraced : ∀ state, Trace.Entry.leafOverflow state ∉ progress.trace

/-- The leaf slots are the same, and what a tick relies on is still so. -/
structure Kept (pledge : Instance.Pledge) (kernel : Kernel User) (before after : Progress User) :
    Prop where
  leaves_eq : after.inst.leaves = before.inst.leaves
  steady : Steady pledge kernel after

variable {pledge : Instance.Pledge} {kernel : Kernel User}
  {progress before middle after : Progress User}

namespace Kept

theorem trans (first : Kept pledge kernel before middle)
    (second : Kept pledge kernel middle after) : Kept pledge kernel before after :=
  ⟨second.leaves_eq.trans first.leaves_eq, second.steady⟩

/-- The active leaves are the same, too. -/
theorem holds (kept : Kept pledge kernel before after) {active : List UInt16}
    (holds : Holds before.inst.leaves active) : Holds after.inst.leaves active :=
  kept.leaves_eq.symm ▸ holds

end Kept

namespace Steady

theorem refl (steady : Steady pledge kernel progress) : Kept pledge kernel progress progress :=
  ⟨rfl, steady⟩

/-- An operation on the instance that spares it. -/
theorem spare (steady : Steady pledge kernel progress) (same : after.trace = progress.trace)
    (spares : progress.inst.Spares pledge after.inst) : Kept pledge kernel progress after where
  leaves_eq := spares.leaves_eq
  steady := {
    room := (Instance.tier_eq_of_leaves spares.leaves_eq).symm ▸ steady.room
    queueSound := spares.queueSound steady.queueSound
    pledged := spares.pledged steady.pledged
    untraced := fun state => same.symm ▸ steady.untraced state }

/-- Writing the active leaves anew changes nothing else. -/
theorem withActiveLeaves (steady : Steady pledge kernel progress) (active : List UInt16) :
    Steady pledge kernel (progress.withInst (progress.inst.withActiveLeaves active)) where
  room := steady.room
  queueSound := steady.queueSound.of_ring_eq rfl
  pledged := steady.pledged
  untraced := steady.untraced

/-- Tracing a step other than an overflow. -/
theorem note (steady : Steady pledge kernel progress) {entry : Trace.Entry}
    (other : ∀ state, Trace.Entry.leafOverflow state ≠ entry) :
    Kept pledge kernel progress (progress.note entry) where
  leaves_eq := rfl
  steady := {
    room := steady.room
    queueSound := steady.queueSound
    pledged := steady.pledged
    untraced := fun state traced =>
      (Array.mem_push.1 traced).elim (steady.untraced state) (other state) }

end Steady

theorem Steady.enqueueOrNote_returns (event : Event) (priority : Priority)
    (steady : Steady pledge kernel progress) :
    Returns (enqueueOrNote event priority progress) (Kept pledge kernel progress) := by
  have queueing : Returns (progress.inst.enqueue event priority) fun answer =>
      progress.inst.Waits pledge answer.2 := steady.queueSound.enqueue_returns event priority
  apply queueing.bind
  intro answer waits
  apply Returns.pure
  have queued : Kept pledge kernel progress (progress.withInst answer.2) :=
    steady.spare rfl waits.toSpares
  split
  · exact queued
  · exact queued.trans (queued.steady.note nofun)

/-! ### Callbacks -/

namespace Reliable

variable (reliable : Reliable pledge kernel)

include reliable

theorem invoke_returns (action : UInt16) (steady : Steady pledge kernel progress) :
    Returns (kernel.invoke action progress) (Kept pledge kernel progress) := by
  have called : Returns (kernel.dispatch.invoke action progress.toScene) fun after =>
      progress.inst.Spares pledge after.inst := by
    rcases kernel.dispatch.invoke_cases action with ⟨registration, listed, calls⟩ | nothing
    · rw [calls]
      exact reliable.harmless.action registration listed progress.toScene steady.queueSound
    · rw [nothing]
      exact .ok (Instance.Spares.refl _ _)
  exact called.bind fun scene spares => .pure (steady.spare rfl spares)

theorem runAction_returns (cause : Trace.Cause) (action state : UInt16)
    (steady : Steady pledge kernel progress) :
    Returns (kernel.runAction cause action state progress) (Kept pledge kernel progress) := by
  unfold runAction
  split
  · exact .ok steady.refl
  · have noted : Kept pledge kernel progress (progress.note (.action cause action state)) :=
      steady.note nofun
    exact (reliable.invoke_returns action noted.steady).mono fun _ kept => noted.trans kept

theorem checkGuard_returns (guard event : UInt16) (steady : Steady pledge kernel progress) :
    Returns (kernel.checkGuard guard event progress) fun answer =>
      Kept pledge kernel progress answer.2 := by
  have asked : Returns (kernel.dispatch.check guard event progress.inst progress.user)
      fun answer => progress.inst.Spares pledge answer.2.1 := by
    rcases kernel.dispatch.check_cases guard with ⟨registration, listed, calls⟩ | passes
    · rw [calls]
      exact reliable.harmless.guard registration listed event progress.inst progress.user
        steady.queueSound
    · rw [passes]
      exact .ok (Instance.Spares.refl _ _)
  unfold checkGuard
  split
  · exact .ok steady.refl
  · apply asked.bind
    intro answer spares
    apply Returns.pure
    obtain ⟨passed, inst, user⟩ := answer
    have answered : Kept pledge kernel progress { progress with inst, user } :=
      steady.spare rfl spares
    exact answered.trans (answered.steady.note nofun)

end Reliable

/-! ### Climbing -/

section Climbing

variable {definition : Definition} {Found : Type}

/-- A climb keeps what each of its steps keeps, and ends in no other faults than they do. A
step looks at a state and, unless the climb ends there, goes on to the state's parent. -/
theorem climb_ends (wellFormed : definition.sections.WellFormed) {allowed : Fault → Prop}
    (holds : UInt16 → Found → Prop) {done : UInt16 → Found → Except Fault Bool}
    {visit : UInt16 → StateRecord → Found → Except Fault Found}
    (step : ∀ state found, definition.sections.Has state → holds state found →
      Ends allowed (done state found) fun stop => stop = false →
        Ends allowed (visit state (definition.sections.record state) found)
          (holds (definition.sections.record state).parent))
    {state : UInt16} {found : Found} (starts : definition.sections.Has state ∨ state = noIndex)
    (begins : holds state found) :
    Ends allowed (climb definition state done visit found) fun found =>
      ∃ last, holds last found := by
  have climbing (steps : Nat) : ∀ state found, holds state found →
      definition.sections.Has state ∧ state.toNat < steps ∨ state = noIndex →
      Ends allowed (climbFrom definition done visit steps state found) fun found =>
        ∃ last, holds last found := by
    induction steps with
    | zero =>
      intro state found begins enough
      obtain rfl : state = noIndex := enough.resolve_left fun inside =>
        absurd inside.2 (Nat.not_lt_zero _)
      exact .ok ⟨_, begins⟩
    | succ steps ih =>
      intro state found begins enough
      by_cases absent : state = noIndex
      · rw [climbFrom, if_pos absent]
        exact .pure ⟨_, begins⟩
      · obtain ⟨has, below⟩ := enough.resolve_right absent
        rw [climbFrom, if_neg absent]
        apply (step state found has begins).bind
        intro stop goes
        cases stop with
        | true => exact .pure ⟨_, begins⟩
        | false =>
          simp only [Bool.false_eq_true, if_false, Definition.state_eq has, ok_bind]
          refine (goes rfl).bind fun next still => ih _ next still ?_
          by_cases isRoot : state = Rom.rootIndex
          · exact .inr (isRoot ▸ wellFormed.parent_root)
          · obtain ⟨hasParent, linked⟩ := wellFormed.child_of_ne_root has isRoot
            have earlier := wellFormed.lt_of_child linked
            exact .inl ⟨hasParent, by omega⟩
  exact climbing _ state found begins (starts.imp_left fun has => ⟨has, Nat.lt_succ_of_lt has⟩)

/-- A climb returns if each of its steps does. -/
theorem climb_returns (wellFormed : definition.sections.WellFormed)
    (holds : UInt16 → Found → Prop) {done : UInt16 → Found → Except Fault Bool}
    {visit : UInt16 → StateRecord → Found → Except Fault Found}
    (step : ∀ state found, definition.sections.Has state → holds state found →
      Returns (done state found) fun stop => stop = false →
        Returns (visit state (definition.sections.record state) found)
          (holds (definition.sections.record state).parent))
    {state : UInt16} {found : Found} (starts : definition.sections.Has state ∨ state = noIndex)
    (begins : holds state found) :
    Returns (climb definition state done visit found) fun found => ∃ last, holds last found := by
  have ending : Ends (fun _ => False) (climb definition state done visit found) fun found =>
      ∃ last, holds last found := by
    refine climb_ends wellFormed holds (fun state found has is => ?_) starts begins
    exact ((step state found has is).mono fun _ goes ended => (goes ended).ends _).ends _
  exact ending.returns fun _ => id

/-- Asking whether a state is active on account of some slots. -/
theorem isReached_returns (wellFormed : definition.sections.WellFormed) {inst : Instance}
    {active : List UInt16} (holds : Holds inst.leaves active)
    (states : ∀ leaf ∈ active, definition.sections.Has leaf) (state : UInt16) (slots : List Nat)
    (inside : ∀ slot ∈ slots, slot < inst.tier.leafCapacity) :
    Returns (isReached definition inst state slots) fun _ => True := by
  induction slots with
  | nil => exact .ok trivial
  | cons slot rest ih =>
    apply (Instance.leaf_returns holds (inside slot (List.mem_cons_self ..))).bind
    intro leaf found
    have known : definition.sections.Has leaf ∨ leaf = noIndex :=
      found.symm.imp_left (states leaf)
    apply (Definition.isAncestorOrSelf_returns wellFormed known).bind
    intro met _
    cases met with
    | true => exact .pure trivial
    | false => exact ih fun slot later => inside slot (List.mem_cons_of_mem _ later)

end Climbing

end Statechart.Kernel
