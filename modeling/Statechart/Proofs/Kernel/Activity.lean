/-
# Timers and activities leave the configuration alone

At the start of a tick timers are counted down, at its end activities go on. Both run
callbacks of active states and write timer slots or queue events, and both keep the leaf
slots as they are. The states they look at are met on the way up from active leaves, so the
definition has them all.
-/

import Statechart.Proofs.Kernel.Steady

namespace Statechart.Kernel

open Rom (Definition Sections noIndex)

variable {User : Type} {pledge : Instance.Pledge} {kernel : Kernel User} {progress : Progress User}
  {active : List UInt16}

/-! ### Timers -/

/-- Who owns a timer is a state of the definition. -/
theorem timerOwnerAbove?_returns {definition : Definition}
    (wellFormed : definition.sections.WellFormed) {leaf : UInt16}
    (has : definition.sections.Has leaf) (slot : UInt16) :
    Returns (timerOwnerAbove? definition slot leaf) fun owner =>
      ∀ state, owner = some state → definition.sections.Has state := by
  let holds (_ : UInt16) (owner : Option UInt16) : Prop :=
    ∀ state, owner = some state → definition.sections.Has state
  have unknown : holds leaf none := by
    intro state absent
    cases absent
  have climbing : Returns (timerOwnerAbove? definition slot leaf) fun owner =>
      ∃ last, holds last owner := by
    apply climb_returns wellFormed holds _ (.inl has) unknown
    intro state owner known _
    refine .ok fun _ => .ok fun found same => ?_
    split at same
    · exact Option.some.inj same ▸ known
    · cases same
  exact climbing.mono fun _ ended => ended.elim fun _ owned => owned

theorem timerOwner?_returns {definition : Definition}
    (wellFormed : definition.sections.WellFormed)
    (states : ∀ leaf ∈ active, definition.sections.Has leaf) (slot : UInt16) :
    Returns (timerOwner? definition slot active) fun owner =>
      ∀ state, owner = some state → definition.sections.Has state := by
  induction active with
  | nil => exact .ok nofun
  | cons leaf rest ih =>
    apply (timerOwnerAbove?_returns wellFormed (states leaf (List.mem_cons_self ..)) slot).bind
    intro owner known
    cases owner with
    | some state => exact .pure known
    | none => exact ih fun other later => states other (List.mem_cons_of_mem _ later)

namespace Reliable

variable (reliable : Reliable pledge kernel)

include reliable

theorem expire_returns (slot : UInt16) (holds : Holds progress.inst.leaves active)
    (states : ∀ leaf ∈ active, kernel.definition.sections.Has leaf)
    (steady : Steady pledge kernel progress) :
    Returns (kernel.expire slot progress) (Kept pledge kernel progress) := by
  unfold expire
  rw [Instance.activeLeaves_eq holds]
  apply (timerOwner?_returns reliable.sound.wellFormed states slot).bind
  intro owner known
  cases owner with
  | none => exact .pure steady.refl
  | some state =>
    simp only [Definition.state_eq (known state rfl), ok_bind]
    have noted : Kept pledge kernel progress (progress.note (.timerFired slot state)) :=
      steady.note nofun
    apply (reliable.runAction_returns _ _ _ noted.steady).bind
    intro after kept
    apply (kept.steady.enqueueOrNote_returns _ _).mono
    intro last queued
    exact noted.trans (kept.trans queued)

theorem advanceTimer_returns (delta : UInt32) {slot : Nat}
    (inside : slot < progress.inst.tier.timerCapacity) (holds : Holds progress.inst.leaves active)
    (states : ∀ leaf ∈ active, kernel.definition.sections.Has leaf)
    (steady : Steady pledge kernel progress) :
    Returns (kernel.advanceTimer delta progress slot) (Kept pledge kernel progress) := by
  unfold advanceTimer
  apply (Instance.timer_returns inside).bind
  intro remaining _
  have writing (value : UInt32) : Returns (progress.inst.setTimer slot value) fun inst =>
      Kept pledge kernel progress (progress.withInst inst) :=
    (Instance.setTimer_returns pledge inside value).mono fun _ spares => steady.spare rfl spares
  split
  · exact .pure steady.refl
  · split
    · exact (writing _).bind fun _ kept => .pure kept
    · apply (writing 0).bind
      intro inst kept
      exact (reliable.expire_returns _ (kept.holds holds) states kept.steady).mono
        fun _ more => kept.trans more

/-- Letting time pass keeps the leaf slots. -/
theorem advanceTimers_returns (delta : UInt32) (holds : Holds progress.inst.leaves active)
    (states : ∀ leaf ∈ active, kernel.definition.sections.Has leaf)
    (steady : Steady pledge kernel progress) :
    Returns (kernel.advanceTimers delta progress) (Kept pledge kernel progress) := by
  unfold advanceTimers
  split
  · exact .ok steady.refl
  · apply Returns.foldlM_keeps _ steady.refl
    intro slot after listed kept
    have inside : slot < after.inst.tier.timerCapacity := by
      rw [Instance.tier_eq_of_leaves kept.leaves_eq]
      exact List.mem_range.1 listed
    exact (reliable.advanceTimer_returns delta inside (kept.holds holds) states kept.steady).mono
      fun _ more => kept.trans more

/-! ### Activities -/

theorem continueActivity_returns (state action : UInt16) (steady : Steady pledge kernel progress) :
    Returns (kernel.continueActivity state action progress) (Kept pledge kernel progress) := by
  unfold continueActivity
  split
  · exact .ok steady.refl
  · have noted : Kept pledge kernel progress (progress.note (.activity action state)) :=
      steady.note nofun
    exact (reliable.invoke_returns action noted.steady).mono fun _ kept => noted.trans kept

theorem runActivitiesFrom_returns {before : Progress User}
    (holds : Holds before.inst.leaves active)
    (states : ∀ leaf ∈ active, kernel.definition.sections.Has leaf) {slots : List Nat}
    {claims : List Claim} (inside : ∀ slot ∈ slots, slot < before.inst.tier.leafCapacity)
    (claimed : ∀ slot ∈ claims.map Claim.slot, slot < before.inst.tier.leafCapacity)
    (kept : Kept pledge kernel before progress) :
    Returns (kernel.runActivitiesFrom slots claims progress) (Kept pledge kernel before) := by
  have wellFormed := reliable.sound.wellFormed
  induction slots generalizing progress claims with
  | nil => exact .ok kept
  | cons slot rest ih =>
    have first := inside slot (List.mem_cons_self ..)
    have later := fun other member => inside other (List.mem_cons_of_mem slot member)
    have tier {after : Progress User} (kept : Kept pledge kernel before after) :
        after.inst.tier = before.inst.tier := Instance.tier_eq_of_leaves kept.leaves_eq
    unfold runActivitiesFrom
    apply (Instance.leaf_returns (kept.holds holds) ((tier kept).symm ▸ first)).bind
    intro leaf known
    split
    · exact .pure kept
    · next occupied =>
      have has := states leaf (known.resolve_left occupied)
      simp only [Definition.state_eq has, ok_bind]
      split
      · exact ih later claimed (kept.trans (kept.steady.note nofun))
      · apply (climb_returns wellFormed (fun _ => Kept pledge kernel before) _ (.inl has) kept).bind
        · intro after ended
          obtain ⟨_, more⟩ := ended
          apply ih later _ more
          intro other member
          rw [List.map_append] at member
          rcases List.mem_append.1 member with earlier | last
          · exact claimed other earlier
          · exact List.mem_singleton.1 last ▸ first
        · intro state after _ more
          apply (isReached_returns wellFormed (more.holds holds) states state _
            ((tier more).symm ▸ claimed)).mono
          intro reached _ _
          exact (reliable.continueActivity_returns _ _ more.steady).mono fun _ next =>
            more.trans next

/-- Letting activities go on keeps the leaf slots. -/
theorem runActivities_returns (holds : Holds progress.inst.leaves active)
    (states : ∀ leaf ∈ active, kernel.definition.sections.Has leaf)
    (steady : Steady pledge kernel progress) :
    Returns (kernel.runActivities progress) (Kept pledge kernel progress) :=
  reliable.runActivitiesFrom_returns holds states (fun _ => List.mem_range.1) nofun steady.refl

end Reliable

end Statechart.Kernel
