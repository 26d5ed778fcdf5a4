/-
# Choosing keeps the configuration

Looking for a transition asks guards, which may write to the instance but not to its leaf
slots. What is chosen applies to the configuration: it is a global transition, or one of an
active state's own (`Enabled`).
-/

import Statechart.Proofs.Kernel.Steady

namespace Statechart.Kernel

open Rom (Definition Sections StateRecord TransitionRecord noIndex rootIndex)

variable {User : Type} {pledge : Instance.Pledge} {kernel : Kernel User} {progress : Progress User}
  {active : List UInt16} {state leaf : UInt16}

/-- A transition that can be chosen while some leaves are active. -/
inductive Enabled (definition : Definition) (active : List UInt16) : TransitionRecord → Prop
  | anywhere {transition : TransitionRecord} : transition ∈ definition.sections.globals →
      Enabled definition active transition
  | locally {transition : TransitionRecord} {leaf : UInt16} :
      transition ∈ definition.sections.transitions → transition.flags.isGlobal = false →
      leaf ∈ active → definition.sections.Beneath transition.source leaf →
      Enabled definition active transition

/-- What is kept while a transition is looked for, and what is known of the best so far. -/
structure Searched (pledge : Instance.Pledge) (kernel : Kernel User) (active : List UInt16)
    (before : Progress User) (found : Option TransitionRecord × Progress User) : Prop where
  kept : Kept pledge kernel before found.2
  enabled : ∀ transition, found.1 = some transition → Enabled kernel.definition active transition

namespace Reliable

variable (reliable : Reliable pledge kernel)

include reliable

theorem selectGlobal_returns (active : List UInt16) (event : Event)
    {globals : List TransitionRecord}
    (listed : ∀ transition ∈ globals, transition ∈ kernel.definition.sections.globals)
    (steady : Steady pledge kernel progress) :
    Returns (kernel.selectGlobal event globals progress)
      (Searched pledge kernel active progress) := by
  induction globals generalizing progress with
  | nil => exact .ok ⟨steady.refl, nofun⟩
  | cons transition rest ih =>
    have later := fun other member => listed other (List.mem_cons_of_mem transition member)
    unfold selectGlobal
    split
    · apply (reliable.checkGuard_returns _ _ steady).bind
      intro answer kept
      show Returns (if answer.1 = true then _ else _) _
      split
      · refine .pure ⟨kept, fun chosen same => ?_⟩
        obtain rfl := Option.some.inj same
        exact .anywhere (listed transition (List.mem_cons_self ..))
      · exact (ih later kept.steady).mono fun _ found => ⟨kept.trans found.kept, found.enabled⟩
    · exact ih later steady

theorem selectOwn_returns (event : Event) {before : Progress User}
    (has : kernel.definition.sections.Has state) (listed : leaf ∈ active)
    (beneath : kernel.definition.sections.Beneath state leaf) {indices : List Nat}
    (own : ∀ index ∈ indices, index ∈ (kernel.definition.sections.record state).transitions.toList)
    {best : Option TransitionRecord}
    (searched : Searched pledge kernel active before (best, progress)) :
    Returns (kernel.selectOwn event state indices (best, progress))
      (Searched pledge kernel active before) := by
  induction indices generalizing progress with
  | nil => exact .ok searched
  | cons index rest ih =>
    have later := fun other member => own other (List.mem_cons_of_mem index member)
    obtain ⟨transition, found, source, isLocal⟩ :=
      reliable.sound.wellFormed.own has (own index (List.mem_cons_self ..))
    have looked : kernel.definition.transition index = .ok transition := by
      unfold Definition.transition Definition.entry
      rw [found]
    unfold selectOwn
    simp only [looked, ok_bind]
    split
    · exact ih later searched
    · split
      · exact .pure searched
      · apply (reliable.checkGuard_returns _ _ searched.kept.steady).bind
        intro answer kept
        show Returns (if answer.1 = true then _ else _) _
        split
        · refine .pure ⟨searched.kept.trans kept, fun chosen same => ?_⟩
          obtain rfl := Option.some.inj same
          exact .locally (Array.mem_of_getElem? found) isLocal listed (source ▸ beneath)
        · exact ih later ⟨searched.kept.trans kept, searched.enabled⟩

/-- Looking at one state on the way from an active leaf to the root. -/
theorem selectAt_returns (event : Event) {before : Progress User}
    (holds : Holds before.inst.leaves active)
    (states : ∀ leaf ∈ active, kernel.definition.sections.Has leaf) {slots : List Nat}
    (inside : ∀ slot ∈ slots, slot < before.inst.tier.leafCapacity) (listed : leaf ∈ active)
    (beneath : kernel.definition.sections.Beneath state leaf)
    {found : Option TransitionRecord × Progress User}
    (searched : Searched pledge kernel active before found) :
    Returns (isReached kernel.definition found.2.inst state slots) fun stop =>
      stop = false → Returns
        (kernel.selectOwn event state
          (kernel.definition.sections.record state).transitions.toList found) fun next =>
        (kernel.definition.sections.Has (kernel.definition.sections.record state).parent →
          kernel.definition.sections.Beneath (kernel.definition.sections.record state).parent
            leaf) ∧ Searched pledge kernel active before next := by
  have wellFormed := reliable.sound.wellFormed
  rw [← Instance.tier_eq_of_leaves searched.kept.leaves_eq] at inside
  apply (isReached_returns wellFormed (searched.kept.holds holds) states state slots inside).mono
  intro _ _ _
  apply (reliable.selectOwn_returns event beneath.has_top listed beneath (fun _ => id)
    searched).mono
  exact fun next more => ⟨wellFormed.beneath_parent beneath, more⟩

theorem selectLocal_returns (event : Event) {before : Progress User}
    (holds : Holds before.inst.leaves active)
    (states : ∀ leaf ∈ active, kernel.definition.sections.Has leaf) {slots : List Nat}
    (inside : ∀ slot ∈ slots, slot < before.inst.tier.leafCapacity)
    {found : Option TransitionRecord × Progress User}
    (searched : Searched pledge kernel active before found) :
    Returns (kernel.selectLocal event slots found) (Searched pledge kernel active before) := by
  have wellFormed := reliable.sound.wellFormed
  induction slots generalizing found with
  | nil => exact .ok searched
  | cons slot rest ih =>
    have later := fun other member => inside other (List.mem_cons_of_mem slot member)
    have first := inside slot (List.mem_cons_self ..)
    have earlier : ∀ other ∈ List.range slot, other < before.inst.tier.leafCapacity :=
      fun other member => Nat.lt_trans (List.mem_range.1 member) first
    rw [← Instance.tier_eq_of_leaves searched.kept.leaves_eq] at first
    unfold selectLocal
    apply (Instance.leaf_returns (searched.kept.holds holds) first).bind
    intro leaf known
    split
    · exact .pure searched
    · next occupied =>
      have listed := known.resolve_left occupied
      have has := states leaf listed
      -- Every state that is visited has the leaf beneath it.
      let holdsAt (state : UInt16) (found : Option TransitionRecord × Progress User) : Prop :=
        (kernel.definition.sections.Has state → kernel.definition.sections.Beneath state leaf) ∧
          Searched pledge kernel active before found
      apply (climb_returns wellFormed holdsAt _ (.inl has) ⟨fun _ => .self has, searched⟩).bind
      · intro found ended
        obtain ⟨_, _, searched⟩ := ended
        exact ih later searched
      · intro state found has invariant
        exact reliable.selectAt_returns event holds states earlier listed (invariant.1 has)
          invariant.2

/-- A transition that is chosen is enabled. -/
theorem select_returns (event : Event) (holds : Holds progress.inst.leaves active)
    (states : ∀ leaf ∈ active, kernel.definition.sections.Has leaf)
    (steady : Steady pledge kernel progress) :
    Returns (kernel.select event progress) (Searched pledge kernel active progress) := by
  unfold select
  apply (reliable.selectGlobal_returns active event (fun _ => Array.mem_toList_iff.1) steady).bind
  intro found searched
  obtain ⟨chosen, after⟩ := found
  cases chosen with
  | some transition => exact .pure searched
  | none =>
    refine (reliable.selectLocal_returns event (searched.kept.holds holds) states
      (fun _ => List.mem_range.1) ⟨searched.kept.steady.refl, nofun⟩).mono fun _ more => ?_
    exact ⟨searched.kept.trans more.kept, more.enabled⟩

end Reliable

end Statechart.Kernel
