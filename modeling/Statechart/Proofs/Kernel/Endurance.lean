/-
# Ticks come to an end

Callbacks that may rewrite the leaf slots, and queue what they like, can lead a tick anywhere, but
they cannot keep it from ending. All that is asked of them is that a leaf slot goes on naming a
state or nothing (`Viable`). The walks along parents end at the root, a descent goes strictly
deeper with every state it settles, and events and transitions have their budgets.

Where the ring's cursors point into the ring, a tick returns. Where they do not, an access to the
ring can fail, but no walk goes on forever (`Tolerated`).
-/

import Mathlib.Data.List.TakeWhile
import Statechart.Proofs.Kernel.Calls
import Statechart.Proofs.Kernel.Safety
import Statechart.Proofs.Kernel.Steps

namespace Statechart

open Rom (Definition noIndex)

namespace Instance

variable {inst : Instance}

/-! ### Queues in disorder -/

theorem cellEvent_ends (index : UInt8) :
    Ends (· = .outOfBounds) (inst.cellEvent index) fun _ => True := by
  unfold cellEvent
  split
  · exact .ok trivial
  · exact .error rfl

theorem setCell_ends (index : UInt8) (event : Event) :
    Ends (· = .outOfBounds) (inst.setCell index event) fun after => after.leaves = inst.leaves := by
  unfold setCell
  split
  · exact .ok rfl
  · exact .error rfl

/-- Wherever the cursors point, taking an event out writes no leaf slot, and no more can go wrong
than that there is no cell. -/
theorem dequeue_ends : Ends (· = .outOfBounds) inst.dequeue fun answer =>
    answer.2.leaves = inst.leaves := by
  have looking : Ends (· = .outOfBounds) inst.peek fun _ => True := by
    unfold peek
    split
    · exact .ok trivial
    · split
      · exact .ok trivial
      · exact (cellEvent_ends _).map fun _ _ => trivial
  unfold dequeue
  apply looking.bind
  intro next _
  cases next with
  | none => exact .pure rfl
  | some event =>
    show Ends _ (if _ then _ else _) _
    split
    · exact .pure rfl
    · unfold dropHead
      simp only
      split <;> exact .pure rfl

theorem enqueueSingle_ends (event : Event) :
    Ends (· = .outOfBounds) (inst.enqueueSingle event) fun answer =>
      answer.2.leaves = inst.leaves := by
  have filling : Ends (· = .outOfBounds)
      (inst.setCell 0 event >>= fun filled => pure (true, { filled with count := 1 }))
      fun answer => answer.2.leaves = inst.leaves :=
    (setCell_ends 0 event).bind fun _ same => .pure same
  unfold enqueueSingle
  split
  · apply (cellEvent_ends 0).bind
    intro _ _
    split
    · exact .pure rfl
    · exact filling
  · exact filling

theorem enqueueRing_ends (event : Event) :
    Ends (· = .outOfBounds) (inst.enqueueRing event) fun answer =>
      answer.2.leaves = inst.leaves := by
  unfold enqueueRing
  simp only
  split
  · exact .pure rfl
  · exact (setCell_ends _ event).bind fun _ same => .pure same

/-- Wherever the cursors point, putting an event in writes no leaf slot, and no more can go wrong
than that there is no cell. -/
theorem enqueue_ends (event : Event) (priority : Priority) :
    Ends (· = .outOfBounds) (inst.enqueue event priority) fun answer =>
      answer.2.leaves = inst.leaves := by
  have close (accepted : Bool) (after : Instance) (same : after.leaves = inst.leaves) :
      Ends (· = .outOfBounds)
        (if accepted = true then pure (true, after)
        else pure (false, { after with status := { after.status with queueDropped := true } }))
        fun answer => answer.2.leaves = inst.leaves := by
    cases accepted <;> exact .pure same
  unfold enqueue
  split
  · next hasCell =>
    split
    · have same : (inst.enqueueInterrupt { event with priority } hasCell).2.leaves =
          inst.leaves := by
        unfold enqueueInterrupt
        split <;> rfl
      exact close _ _ same
    · exact (enqueueRing_ends _).bind fun answer => close answer.1 answer.2
  · exact (enqueueSingle_ends _).bind fun answer => close answer.1 answer.2

end Instance

namespace Kernel

open Rom (StateRecord TransitionRecord rootIndex maxDepth)

/-- The faults that a tick may end in. Things are not in order then, and even so it does end. -/
def Tolerated (inOrder : Prop) (fault : Fault) : Prop :=
  ¬ inOrder ∧ fault ≠ .endless

/-- An instance of some tier whose leaf slots name states of a definition or nothing. If things
are in order, its queue is sound. -/
structure Viable (definition : Definition) (tier : Tier) (inOrder : Prop) (inst : Instance) :
    Prop where
  tier_eq : inst.tier = tier
  known : ∀ leaf ∈ inst.leaves, definition.sections.Has leaf ∨ leaf = noIndex
  queueSound : inOrder → inst.QueueSound

/-- Callbacks that end, and that leave an instance viable. With a queue in disorder they may fail,
but not for want of an end. -/
structure Dispatch.Careful {User : Type} (definition : Definition) (dispatch : Dispatch User) :
    Prop where
  action : ∀ registration ∈ dispatch.actions.registrations, ∀ (scene : Scene User) inOrder,
    Viable definition scene.inst.tier inOrder scene.inst →
      Ends (Tolerated inOrder) (registration.callback scene) fun after =>
        Viable definition scene.inst.tier inOrder after.inst
  guard : ∀ registration ∈ dispatch.guards.registrations, ∀ event (inst : Instance) user inOrder,
    Viable definition inst.tier inOrder inst →
      Ends (Tolerated inOrder) (registration.callback event inst user) fun answer =>
        Viable definition inst.tier inOrder answer.2.1

/-- A kernel that runs instances of a tier with callbacks that are careful. -/
structure Enduring {User : Type} (kernel : Kernel User) (tier : Tier) : Prop where
  sound : kernel.definition.Sound
  careful : kernel.dispatch.Careful kernel.definition
  room : kernel.definition.tier ≤ tier

variable {User : Type} {kernel : Kernel User} {tier : Tier} {inOrder : Prop}
  {progress : Progress User} {state leaf : UInt16}

namespace Viable

variable {definition : Definition} {inst after : Instance}

/-- Whatever keeps the leaf slots and the soundness of the queue. -/
theorem spare (viable : Viable definition tier inOrder inst) (same : after.leaves = inst.leaves)
    (queue : inst.QueueSound → after.QueueSound) : Viable definition tier inOrder after where
  tier_eq := (Instance.tier_eq_of_leaves same).trans viable.tier_eq
  known := same.symm ▸ viable.known
  queueSound := fun fine => queue (viable.queueSound fine)

/-- Whatever keeps the leaf slots and the cursors. -/
theorem write (viable : Viable definition tier inOrder inst) (leaves : after.leaves = inst.leaves)
    (ring : after.ring = inst.ring) : Viable definition tier inOrder after :=
  viable.spare leaves fun sound => sound.of_ring_eq ring

theorem leaves_length (viable : Viable definition tier inOrder inst) :
    inst.leaves.length = tier.leafCapacity :=
  viable.tier_eq ▸ inst.length_leaves

/-- Active leaves are states. -/
theorem states (viable : Viable definition tier inOrder inst) :
    ∀ leaf ∈ inst.activeLeaves, definition.sections.Has leaf := by
  intro leaf active
  have listed : leaf ∈ inst.leaves := List.takeWhile_subset _ active
  have occupied := List.mem_takeWhile_imp (p := fun leaf => leaf != noIndex) active
  exact (viable.known leaf listed).resolve_right (bne_iff_ne.1 occupied)

theorem few (inst : Instance) : inst.activeLeaves.length ≤ Tier.tier256.leafCapacity := by
  have within : inst.activeLeaves.length ≤ inst.leaves.length :=
    (List.takeWhile_sublist _).length_le
  refine Nat.le_trans within ?_
  rw [inst.length_leaves]
  cases inst.tier <;> decide

theorem leaf_returns (viable : Viable definition tier inOrder inst) {slot : Nat}
    (inside : slot < tier.leafCapacity) :
    Returns (inst.leaf slot) fun leaf => definition.sections.Has leaf ∨ leaf = noIndex :=
  (Instance.slot_returns (viable.leaves_length.symm ▸ inside)).mono viable.known

/-- Giving a leaf slot to a state. -/
theorem setLeaf (viable : Viable definition tier inOrder inst) {slot : Nat} {state : UInt16}
    (inside : slot < inst.leaves.length) (has : definition.sections.Has state) :
    Returns (inst.setLeaf slot state) (Viable definition tier inOrder) := by
  unfold Instance.setLeaf
  rw [if_pos inside]
  refine .ok ⟨viable.tier_eq, fun leaf listed => ?_, fun fine =>
    (viable.queueSound fine).of_ring_eq rfl⟩
  rcases List.mem_or_eq_of_mem_set listed with before | same
  · exact viable.known leaf before
  · exact .inl (same ▸ has)

/-- Writing the active leaves anew. -/
theorem withActiveLeaves (viable : Viable definition tier inOrder inst) {active : List UInt16}
    (states : ∀ leaf ∈ active, definition.sections.Has leaf) :
    Viable definition tier inOrder (inst.withActiveLeaves active) where
  tier_eq := viable.tier_eq
  known := by
    intro leaf listed
    rcases List.mem_append.1 (List.mem_of_mem_take listed) with active | empty
    · exact .inl (states leaf active)
    · exact .inr (List.eq_of_mem_replicate empty)
  queueSound := fun fine => (viable.queueSound fine).of_ring_eq rfl

/-- Queue operations, in order or not. -/
theorem queueing {Answer : Type} {run : Except Fault Answer} {left : Answer → Instance}
    (viable : Viable definition tier inOrder inst)
    (ends : Ends (· = .outOfBounds) run fun answer => (left answer).leaves = inst.leaves)
    (returns : inst.QueueSound → Returns run fun answer =>
      inst.Spares .nothing (left answer)) :
    Ends (Tolerated inOrder) run fun answer => Viable definition tier inOrder (left answer) := by
  by_cases fine : inOrder
  · apply ((returns (viable.queueSound fine)).mono fun answer spares => ?_).ends
    exact viable.spare spares.leaves_eq spares.queueSound
  · apply ends.weaken
    · rintro _ rfl
      exact ⟨fine, nofun⟩
    · intro answer same
      exact ⟨(Instance.tier_eq_of_leaves same).trans viable.tier_eq, same.symm ▸ viable.known,
        fun still => absurd still fine⟩

end Viable

/-- A part of a tick that leaves a viable instance behind, if it ends without fault. -/
abbrev Ending (kernel : Kernel User) (tier : Tier) (inOrder : Prop)
    (run : Except Fault (Progress User)) : Prop :=
  Ends (Tolerated inOrder) run fun after => Viable kernel.definition tier inOrder after.inst

theorem enqueueOrNote_ends (viable : Viable kernel.definition tier inOrder progress.inst)
    (event : Event) (priority : Priority) :
    Ending kernel tier inOrder (enqueueOrNote event priority progress) := by
  have queueing : Ends (Tolerated inOrder) (progress.inst.enqueue event priority) fun answer =>
      Viable kernel.definition tier inOrder answer.2 :=
    viable.queueing (Instance.enqueue_ends event priority) fun sound =>
      (sound.enqueue_returns event priority).mono fun _ waits => waits.toSpares
  apply queueing.bind
  intro answer left
  apply Ends.pure
  split <;> exact left

/-- Asking whether a state is active on account of some slots. -/
theorem isReached_known (wellFormed : kernel.definition.sections.WellFormed)
    (viable : Viable kernel.definition tier inOrder progress.inst) {slots : List Nat}
    (inside : ∀ slot ∈ slots, slot < tier.leafCapacity) (state : UInt16) :
    Returns (isReached kernel.definition progress.inst state slots) fun _ => True := by
  induction slots with
  | nil => exact .ok trivial
  | cons slot rest ih =>
    apply (viable.leaf_returns (inside slot (List.mem_cons_self ..))).bind
    intro leaf known
    apply (Definition.isAncestorOrSelf_returns wellFormed known).bind
    intro met _
    cases met with
    | true => exact .pure trivial
    | false => exact ih fun slot later => inside slot (List.mem_cons_of_mem _ later)

/-- A transition of the tables. The source of one that is not global is a state. -/
inductive Listed (definition : Definition) (transition : TransitionRecord) : Prop
  | globally : transition ∈ definition.sections.globals → Listed definition transition
  | locally : transition ∈ definition.sections.transitions → transition.flags.isGlobal = false →
      definition.sections.Has transition.source → Listed definition transition

/-- What is kept while a transition is looked for. -/
structure Looking (kernel : Kernel User) (tier : Tier) (inOrder : Prop)
    (found : Option TransitionRecord × Progress User) : Prop where
  viable : Viable kernel.definition tier inOrder found.2.inst
  listed : ∀ transition, found.1 = some transition → Listed kernel.definition transition

namespace Enduring

variable (enduring : Enduring kernel tier)

include enduring

/-- What depends on the definition alone is known from kernels without callbacks. -/
theorem plain : Reliable .nothing (bare kernel.definition) :=
  ⟨enduring.sound, .empty _⟩

/-! ### Callbacks -/

theorem invoke_ends (action : UInt16)
    (viable : Viable kernel.definition tier inOrder progress.inst) :
    Ending kernel tier inOrder (kernel.invoke action progress) := by
  have called : Ends (Tolerated inOrder) (kernel.dispatch.invoke action progress.toScene)
      fun after => Viable kernel.definition tier inOrder after.inst := by
    rcases kernel.dispatch.invoke_cases action with ⟨registration, listed, calls⟩ | nothing
    · rw [calls]
      have careful := enduring.careful.action registration listed progress.toScene inOrder
      rw [viable.tier_eq] at careful
      exact careful viable
    · rw [nothing]
      exact .ok viable
  exact called.bind fun scene left => .pure left

theorem runAction_ends (cause : Trace.Cause) (action state : UInt16)
    (viable : Viable kernel.definition tier inOrder progress.inst) :
    Ending kernel tier inOrder (kernel.runAction cause action state progress) := by
  unfold runAction
  split
  · exact .ok viable
  · exact enduring.invoke_ends action viable

theorem checkGuard_ends (guard event : UInt16)
    (viable : Viable kernel.definition tier inOrder progress.inst) :
    Ends (Tolerated inOrder) (kernel.checkGuard guard event progress) fun answer =>
      Viable kernel.definition tier inOrder answer.2.inst := by
  have asked : Ends (Tolerated inOrder)
      (kernel.dispatch.check guard event progress.inst progress.user)
      fun answer => Viable kernel.definition tier inOrder answer.2.1 := by
    rcases kernel.dispatch.check_cases guard with ⟨registration, listed, calls⟩ | passes
    · rw [calls]
      have careful := enduring.careful.guard registration listed event progress.inst
        progress.user inOrder
      rw [viable.tier_eq] at careful
      exact careful viable
    · rw [passes]
      exact .ok viable
  unfold checkGuard
  split
  · exact .ok viable
  · exact asked.bind fun answer left => .pure left

/-! ### Choosing a transition -/

theorem selectGlobal_ends (event : Event) {globals : List TransitionRecord}
    (table : ∀ transition ∈ globals, transition ∈ kernel.definition.sections.globals)
    (viable : Viable kernel.definition tier inOrder progress.inst) :
    Ends (Tolerated inOrder) (kernel.selectGlobal event globals progress)
      (Looking kernel tier inOrder) := by
  induction globals generalizing progress with
  | nil => exact .ok ⟨viable, nofun⟩
  | cons transition rest ih =>
    have later := fun other member => table other (List.mem_cons_of_mem transition member)
    unfold selectGlobal
    split
    · apply (enduring.checkGuard_ends _ _ viable).bind
      intro answer left
      show Ends _ (if answer.1 = true then _ else _) _
      split
      · refine .pure ⟨left, fun chosen same => ?_⟩
        obtain rfl := Option.some.inj same
        exact .globally (table transition (List.mem_cons_self ..))
      · exact ih later left
    · exact ih later viable

theorem selectOwn_ends (event : Event) (has : kernel.definition.sections.Has state)
    {indices : List Nat}
    (own : ∀ index ∈ indices, index ∈ (kernel.definition.sections.record state).transitions.toList)
    {found : Option TransitionRecord × Progress User}
    (looking : Looking kernel tier inOrder found) :
    Ends (Tolerated inOrder) (kernel.selectOwn event state indices found)
      (Looking kernel tier inOrder) := by
  induction indices generalizing found with
  | nil => exact .ok looking
  | cons index rest ih =>
    have later := fun other member => own other (List.mem_cons_of_mem index member)
    obtain ⟨best, progress⟩ := found
    obtain ⟨transition, stored, source, isLocal⟩ :=
      enduring.sound.wellFormed.own has (own index (List.mem_cons_self ..))
    have read : kernel.definition.transition index = .ok transition := by
      unfold Definition.transition Definition.entry
      rw [stored]
    unfold selectOwn
    simp only [read, ok_bind]
    split
    · exact ih later looking
    · split
      · exact .pure looking
      · apply (enduring.checkGuard_ends _ _ looking.viable).bind
        intro answer left
        show Ends _ (if answer.1 = true then _ else _) _
        split
        · refine .pure ⟨left, fun chosen same => ?_⟩
          obtain rfl := Option.some.inj same
          exact .locally (Array.mem_of_getElem? stored) isLocal (source.symm ▸ has)
        · exact ih later ⟨left, looking.listed⟩

theorem selectLocal_ends (event : Event) {slots : List Nat}
    (inside : ∀ slot ∈ slots, slot < tier.leafCapacity)
    {found : Option TransitionRecord × Progress User}
    (looking : Looking kernel tier inOrder found) :
    Ends (Tolerated inOrder) (kernel.selectLocal event slots found)
      (Looking kernel tier inOrder) := by
  have wellFormed := enduring.sound.wellFormed
  induction slots generalizing found with
  | nil => exact .ok looking
  | cons slot rest ih =>
    have later := fun other member => inside other (List.mem_cons_of_mem slot member)
    have first := inside slot (List.mem_cons_self ..)
    have earlier : ∀ other ∈ List.range slot, other < tier.leafCapacity :=
      fun other member => Nat.lt_trans (List.mem_range.1 member) first
    obtain ⟨best, progress⟩ := found
    unfold selectLocal
    apply ((looking.viable.leaf_returns first).ends _).bind
    intro leaf known
    split
    · exact .pure looking
    · refine (climb_ends wellFormed (fun _ => Looking kernel tier inOrder) ?_ known looking).bind ?_
      · intro state next has looking
        apply ((isReached_known wellFormed looking.viable earlier state).ends _).mono
        intro _ _ _
        exact enduring.selectOwn_ends event has (fun _ => id) looking
      · rintro next ⟨_, ended⟩
        exact ih later ended

theorem select_ends (event : Event)
    (viable : Viable kernel.definition tier inOrder progress.inst) :
    Ends (Tolerated inOrder) (kernel.select event progress) (Looking kernel tier inOrder) := by
  unfold select
  apply (enduring.selectGlobal_ends event (fun _ => Array.mem_toList_iff.1) viable).bind
  rintro ⟨chosen, after⟩ looking
  cases chosen with
  | some transition => exact .pure looking
  | none =>
    have inside : ∀ slot ∈ List.range after.inst.tier.leafCapacity, slot < tier.leafCapacity := by
      rw [looking.viable.tier_eq]
      exact fun _ => List.mem_range.1
    exact enduring.selectLocal_ends event inside looking

/-! ### Entering states -/

theorem armTimer_ends (has : kernel.definition.sections.Has state)
    (viable : Viable kernel.definition tier inOrder progress.inst) :
    Ending kernel tier inOrder
      (armTimer state (kernel.definition.sections.record state) progress) := by
  unfold armTimer
  split
  · next runs =>
    have inside := enduring.plain.timerSlot_lt enduring.room has runs
    rw [← viable.tier_eq] at inside
    apply ((Instance.setTimer_returns .nothing inside _).ends _).bind
    intro inst spares
    exact .pure (viable.spare spares.leaves_eq spares.queueSound)
  · exact .ok viable

theorem enterState_ends (has : kernel.definition.sections.Has state)
    (viable : Viable kernel.definition tier inOrder progress.inst) :
    Ending kernel tier inOrder (kernel.enterState state progress) := by
  unfold enterState
  simp only [Definition.state_eq has, ok_bind]
  have noted : Viable kernel.definition tier inOrder (progress.note (.enter state)).inst := viable
  exact (enduring.armTimer_ends has noted).bind fun armed left =>
    enduring.runAction_ends _ _ _ left

omit enduring in
theorem addLeaf_ends (has : kernel.definition.sections.Has state)
    (viable : Viable kernel.definition tier inOrder progress.inst) :
    Ending kernel tier inOrder (addLeaf state progress) := by
  unfold addLeaf
  split
  · next slot free =>
    have inside := (List.findIdx?_eq_some_iff_getElem.1 free).1
    exact ((viable.setLeaf inside has).ends _).map fun _ left => left
  · exact .ok (viable.write rfl rfl)

end Enduring

/-- `settle` ends for every state from some depth on. -/
def SettlesFrom (kernel : Kernel User) (tier : Tier) (inOrder : Prop) (depth : Nat)
    (settle : Settle User) : Prop :=
  ∀ state (progress : Progress User), kernel.definition.sections.Has state →
    depth ≤ (kernel.definition.sections.record state).depth.toNat →
    Viable kernel.definition tier inOrder progress.inst →
    Ending kernel tier inOrder (settle state progress)

namespace Enduring

variable (enduring : Enduring kernel tier) {settle : Settle User} {depth : Nat}

include enduring

theorem enterAndSettle_ends (settles : SettlesFrom kernel tier inOrder depth settle) :
    SettlesFrom kernel tier inOrder depth (kernel.enterAndSettle settle) :=
  fun state _ has deep viable => (enduring.enterState_ends has viable).bind fun entered left =>
    settles state entered has deep left

/-- Entering the states of a way down. -/
theorem enterPath_ends (settles : SettlesFrom kernel tier inOrder depth settle)
    {first target : UInt16} {rest : List UInt16}
    (way : kernel.definition.sections.Way first rest target)
    (has : kernel.definition.sections.Has first)
    (deep : depth ≤ (kernel.definition.sections.record first).depth.toNat)
    (viable : Viable kernel.definition tier inOrder progress.inst) :
    Ending kernel tier inOrder (kernel.enterPath settle (first :: rest) progress) := by
  have wellFormed := enduring.sound.wellFormed
  induction way generalizing progress with
  | @here first _ => exact enduring.enterAndSettle_ends settles first progress has deep viable
  | @down first next target rest linked _ ih =>
    have deeper {child : UInt16} (linked : kernel.definition.sections.Child first child) :
        depth ≤ (kernel.definition.sections.record child).depth.toNat := by
      have below := wellFormed.depth_child linked
      omega
    rw [enterPath_cons_cons]
    apply (enduring.enterState_ends has viable).bind
    intro entered left
    simp only [Definition.state_eq has, ok_bind]
    split
    · refine Ends.foldlM_keeps (fun child middle listed left => ?_) left
      have own := (wellFormed.mem_words has).1 listed
      unfold enterBeside
      split
      · exact ih linked.has (deeper linked) left
      · exact enduring.enterAndSettle_ends settles child middle own.has (deeper own) left
    · exact ih linked.has (deeper linked) left

/-- A descent with as many levels as there are depths left comes to its end. -/
theorem descendFrom_ends (levels : Nat) {depth : Nat} (enough : maxDepth < depth + levels) :
    SettlesFrom kernel tier inOrder depth (kernel.descendFrom levels) := by
  have wellFormed := enduring.sound.wellFormed
  induction levels generalizing depth with
  | zero =>
    intro state progress has deep
    have shallow := wellFormed.depth_le has
    omega
  | succ levels ih =>
    intro state progress has deep viable
    have settles : SettlesFrom kernel tier inOrder
        ((kernel.definition.sections.record state).depth.toNat + 1) (kernel.descendFrom levels) :=
      ih (by omega)
    -- A child is one level further down, and so is whatever history names.
    have entering {child : UInt16} {progress : Progress User}
        (linked : kernel.definition.sections.Child state child)
        (viable : Viable kernel.definition tier inOrder progress.inst) :
        Ending kernel tier inOrder
          (kernel.enterAndSettle (kernel.descendFrom levels) child progress) :=
      enduring.enterAndSettle_ends settles child progress linked.has
        (Nat.le_of_eq (wellFormed.depth_child linked).symm) viable
    rw [descendFrom_succ]
    unfold descendBy
    simp only [Definition.state_eq has, ok_bind]
    split
    · exact addLeaf_ends has viable
    · next branching =>
      have inner := Bool.eq_false_iff.2 branching
      split
      · refine Ends.foldlM_keeps (fun child middle listed left => ?_) viable
        exact entering ((wellFormed.mem_words has).1 listed) left
      · next serial =>
        have alone := Bool.eq_false_iff.2 serial
        have room : kernel.definition.tier ≤ progress.inst.tier := viable.tier_eq ▸ enduring.room
        apply ((enduring.plain.restorable?_returns has room).ends _).bind
        intro named restores
        cases named with
        | none => exact entering (enduring.plain.child_defaultChild has inner alone) viable
        | some saved =>
          obtain ⟨beneath, proper, direct⟩ := restores saved rfl
          simp only [enterNamed]
          split
          · apply ((enduring.plain.restoredPath_returns beneath).ends _).bind
            intro path way
            cases way with
            | here _ => exact absurd rfl proper
            | down linked rest =>
              exact enduring.enterPath_ends settles rest linked.has
                (Nat.le_of_eq (wellFormed.depth_child linked).symm) viable
          · next shallow => exact entering (direct (Bool.eq_false_iff.2 shallow)) viable

theorem descend_ends : SettlesFrom kernel tier inOrder 0 kernel.descend :=
  enduring.descendFrom_ends maxLevels (by decide)

/-! ### Leaving states -/

theorem remember_ends {inst : Instance} (has : kernel.definition.sections.Has state)
    (viable : Viable kernel.definition tier inOrder inst) :
    Ends (Tolerated inOrder)
      (kernel.remember state (kernel.definition.sections.record state) inst)
      (Viable kernel.definition tier inOrder) := by
  unfold remember
  split
  · next remembers =>
    have slot := bne_iff_ne.1 (Bool.and_eq_true_iff.1 remembers).2
    have inside := enduring.plain.historySlot_lt enduring.room has slot
    rw [← viable.tier_eq] at inside
    have found : Returns (kernel.activeDescendant? state
        (kernel.definition.sections.record state).flags.deepHistory inst) fun _ => True :=
      enduring.plain.activeDescendant?_returns viable.states _
    apply (found.ends _).bind
    intro named _
    cases named with
    | none => exact .pure viable
    | some saved =>
      exact ((Instance.setHistory_returns .nothing inside saved).ends _).mono fun _ spares =>
        viable.spare spares.leaves_eq spares.queueSound
  · exact .ok viable

theorem disarm_ends {inst : Instance} (has : kernel.definition.sections.Has state)
    (viable : Viable kernel.definition tier inOrder inst) :
    Ends (Tolerated inOrder) (disarm (kernel.definition.sections.record state) inst)
      (Viable kernel.definition tier inOrder) := by
  unfold disarm
  split
  · next runs =>
    have inside := enduring.plain.timerSlot_lt enduring.room has runs
    rw [← viable.tier_eq] at inside
    exact ((Instance.setTimer_returns .nothing inside 0).ends _).mono fun _ spares =>
      viable.spare spares.leaves_eq spares.queueSound
  · exact .ok viable

theorem exitState_ends (has : kernel.definition.sections.Has state)
    (viable : Viable kernel.definition tier inOrder progress.inst) :
    Ending kernel tier inOrder (kernel.exitState state progress) := by
  rw [exitState_eq]
  simp only [Definition.state_eq has, ok_bind]
  apply (enduring.remember_ends has viable).bind
  intro saved remembered
  apply (enduring.disarm_ends has remembered).bind
  intro inst disarmed
  exact enduring.runAction_ends _ _ _ disarmed

theorem exitBelow_ends (top : UInt16)
    (viable : Viable kernel.definition tier inOrder progress.inst) :
    Ending kernel tier inOrder (kernel.exitBelow top progress) := by
  have wellFormed := enduring.sound.wellFormed
  unfold exitBelow
  apply ((exitingBelow_returns wellFormed viable.states (Viable.few _)).ends _).bind
  intro exiting known
  apply ((exitOrder_returns known).ends _).bind
  intro ordered inside
  have leaving : Ending kernel tier inOrder
      (ordered.foldlM (fun progress state => kernel.exitState state progress) progress) :=
    Ends.foldlM_keeps
      (fun state _ listed left => enduring.exitState_ends (inside state listed) left) viable
  apply leaving.bind
  intro left still
  rw [leavesBeside_eq wellFormed still.states]
  exact .pure (still.withActiveLeaves fun leaf listed =>
    still.states leaf (List.mem_filter.1 listed).1)

/-! ### Taking transitions -/

/-- Taking a transition of the tables. -/
theorem fire_ends (event : UInt16) {transition : TransitionRecord}
    (listed : Listed kernel.definition transition)
    (viable : Viable kernel.definition tier inOrder progress.inst) :
    Ending kernel tier inOrder (kernel.fire transition event progress) := by
  have wellFormed := enduring.sound.wellFormed
  have noted : Viable kernel.definition tier inOrder
      (progress.note (.transition transition.source transition.target event)).inst := viable
  cases external : transition.flags.isInternal with
  | true =>
    unfold fire
    rw [external]
    exact enduring.runAction_ends _ _ _ noted
  | false =>
    have member : transition ∈ kernel.definition.sections.transitions ∨
        transition ∈ kernel.definition.sections.globals := by
      cases listed with
      | globally listed => exact .inr listed
      | locally listed _ _ => exact .inl listed
    obtain ⟨hasTarget, inner⟩ := wellFormed.target member external
    have within : Returns (kernel.scopeOf transition) fun top =>
        kernel.definition.sections.Beneath top transition.target ∧ transition.target ≠ top := by
      unfold scopeOf
      cases listed with
      | globally listed =>
        rw [if_pos (wellFormed.isGlobal listed)]
        exact .ok ⟨wellFormed.beneath_root hasTarget, inner⟩
      | locally _ isLocal hasSource =>
        rw [isLocal]
        exact (scope_returns wellFormed hasSource hasTarget inner).mono fun top found =>
          ⟨found.2.1, found.2.2.1⟩
    rw [fire_of_external kernel external]
    apply (within.ends _).bind
    rintro top ⟨beneath, proper⟩
    apply (enduring.exitBelow_ends top noted).bind
    intro left leaving
    apply (enduring.runAction_ends _ _ _ leaving).bind
    intro acted acting
    apply ((enduring.plain.chainTo_returns beneath).ends _).bind
    intro chain found
    simp only [Definition.state_eq beneath.has_top, ok_bind]
    have way : kernel.definition.sections.Way top
        (chain.drop ((kernel.definition.sections.record top).depth.toNat + 1))
        transition.target := found.2
    generalize chain.drop _ = path at way ⊢
    cases way with
    | here _ => exact absurd rfl proper
    | down linked rest =>
      exact enduring.enterPath_ends enduring.descend_ends rest linked.has (Nat.zero_le _) acting

end Enduring

end Kernel

end Statechart
