/-
# What entering and leaving leave behind

Entering states and settling the last of them is told here in full: which states are entered
and in which order (a `Tour`), that each of them leaves the steps of its own arrival in the
trace and nothing else is traced, and that the leaves among them take the slots behind those
that are taken already (`Toured`). The one exception is a leaf for which there is no slot,
which the trace tells.

States that are left one after the other are told in the same way (`exitAll_departs`).
-/

import Statechart.Proofs.Kernel.Calls
import Statechart.Proofs.Kernel.Closing
import Statechart.Proofs.Kernel.Countdown
import Statechart.Proofs.Rom.Tour

namespace Statechart.Kernel

open Rom (Definition Sections StateRecord noIndex rootIndex)

variable {User : Type} {pledge : Instance.Pledge} {kernel : Kernel User}
  {progress before middle after : Progress User} {settle : Settle User}
  {agenda others entered added passed more : List UInt16} {state child : UInt16}

/-- What entering a state leaves in the trace. -/
def arrivalSteps (sections : Sections) (state : UInt16) : List Trace.Entry :=
  let record := sections.record state
  let armed := [.timerArmed record.timerSlot state (max record.timerMs 1)]
  .enter state :: ((if record.hasTimer then armed else []) ++
    if record.entryAction = Name.noId then [] else [.action .entry record.entryAction state])

/-- What leaving a state leaves in the trace. -/
def departureSteps (sections : Sections) (state : UInt16) : List Trace.Entry :=
  let action := (sections.record state).exitAction
  .exit state :: if action = Name.noId then [] else [.action .exit action state]

/-! ### Arrivals -/

/-- Some states were entered in turn, and some leaves took a slot, unless there was none for
one of them. -/
structure Arrives (kernel : Kernel User) (entered added : List UInt16)
    (before after : Progress User) : Prop where
  queueSound : after.inst.QueueSound
  told : (∃ state, .leafOverflow state ∈ after.trace.toList) ∨
    after.trace.toList =
        before.trace.toList ++ entered.flatMap (arrivalSteps kernel.definition.sections) ∧
      ∀ active, Holds before.inst.leaves active → Holds after.inst.leaves (active ++ added)

theorem Arrives.refl (sound : progress.inst.QueueSound) : Arrives kernel [] [] progress progress :=
  ⟨sound, .inr ⟨(List.append_nil _).symm, fun active holds => by rwa [List.append_nil]⟩⟩

theorem Arrives.append {moreAdded : List UInt16}
    (first : Arrives kernel entered added before middle)
    (second : Arrives kernel more moreAdded middle after) :
    Arrives kernel (entered ++ more) (added ++ moreAdded) before after := by
  refine ⟨second.queueSound, ?_⟩
  rcases second.told with full | ⟨grows, seats⟩
  · exact .inl full
  · rcases first.told with ⟨state, full⟩ | ⟨grew, seated⟩
    · exact .inl ⟨state, grows ▸ List.mem_append_left _ full⟩
    · refine .inr ⟨by rw [grows, grew, List.flatMap_append, List.append_assoc], ?_⟩
      intro active holds
      have both := seats _ (seated active holds)
      rwa [List.append_assoc] at both

/-- The states of an agenda were entered and settled, and those of `passed` were among what was
entered. -/
def Toured (kernel : Kernel User) (passed agenda : List UInt16) (before after : Progress User) :
    Prop :=
  ∃ entered, kernel.definition.sections.Tour agenda entered ∧ passed ⊆ entered ∧
    Arrives kernel entered (kernel.definition.sections.leaves entered) before after

theorem Toured.append (first : Toured kernel passed agenda before middle)
    (second : Toured kernel more others middle after) :
    Toured kernel (passed ++ more) (agenda ++ others) before after := by
  obtain ⟨entered, tour, met, arrives⟩ := first
  obtain ⟨next, tourNext, metNext, arrivesNext⟩ := second
  refine ⟨entered ++ next, tour.append tourNext, ?_, ?_⟩
  · exact List.append_subset.2 ⟨fun _ listed => List.mem_append_left _ (met listed),
      fun _ listed => List.mem_append_right _ (metNext listed)⟩
  · rw [Sections.leaves_append]
    exact arrives.append arrivesNext

/-- A state that was entered before was settled. -/
def SettledIn (kernel : Kernel User) (passed : List UInt16) (state : UInt16)
    (before after : Progress User) : Prop :=
  ∃ entered, kernel.definition.sections.Tour [state] (state :: entered) ∧ passed ⊆ entered ∧
    Arrives kernel entered (kernel.definition.sections.leaves (state :: entered)) before after

/-- Entering a state, and settling it. -/
theorem SettledIn.enter (entered : Arrives kernel [state] [] before middle)
    (settled : SettledIn kernel passed state middle after) :
    Toured kernel (state :: passed) [state] before after := by
  obtain ⟨more, tour, met, arrives⟩ := settled
  exact ⟨state :: more, tour, List.cons_subset_cons _ met, entered.append arrives⟩

/-- A state is settled that hands over to a child. -/
theorem Toured.serial (wellFormed : kernel.definition.sections.WellFormed)
    (alone : (kernel.definition.sections.record state).flags.parallel = false)
    (linked : kernel.definition.sections.Child state child)
    (toured : Toured kernel passed [child] before after) :
    SettledIn kernel passed state before after := by
  obtain ⟨entered, tour, met, arrives⟩ := toured
  refine ⟨entered, .serial alone linked tour, met, ?_⟩
  rwa [Sections.leaves_cons_of_inner (wellFormed.inner_of_child linked)]

/-- A parallel state is settled by entering its children. -/
theorem Toured.parallel (has : kernel.definition.sections.Has state)
    (inner : (kernel.definition.sections.record state).isLeaf = false)
    (parallel : (kernel.definition.sections.record state).flags.parallel = true)
    (toured : Toured kernel passed (kernel.definition.sections.record state).children.words before
      after) : SettledIn kernel passed state before after := by
  obtain ⟨entered, tour, met, arrives⟩ := toured
  refine ⟨entered, .parallel has inner parallel (by rwa [List.append_nil]), met, ?_⟩
  rwa [Sections.leaves_cons_of_inner inner]

/-- What is known to be passed on a tour may be less. -/
theorem SettledIn.mono {fewer : List UInt16} (settled : SettledIn kernel passed state before after)
    (among : fewer ⊆ passed) : SettledIn kernel fewer state before after := by
  obtain ⟨entered, tour, met, arrives⟩ := settled
  exact ⟨entered, tour, List.Subset.trans among met, arrives⟩

/-- `settle` goes on a tour below every state. -/
def Touring (kernel : Kernel User) (settle : Settle User) : Prop :=
  ∀ state progress, kernel.definition.sections.Has state → progress.inst.QueueSound →
    Yields (settle state progress) (SettledIn kernel [] state progress)

/-- States are entered and settled one after the other, and each one passes some states. -/
theorem foldlM_toured {step : Progress User → UInt16 → Except Fault (Progress User)}
    (passes : UInt16 → List UInt16)
    (each : ∀ child ∈ agenda, ∀ progress : Progress User, progress.inst.QueueSound →
      Yields (step progress child) (Toured kernel (passes child) [child] progress))
    (sound : progress.inst.QueueSound) :
    Yields (agenda.foldlM step progress)
      (Toured kernel (agenda.flatMap passes) agenda progress) := by
  induction agenda generalizing progress with
  | nil => exact .ok ⟨[], .nil, List.Subset.refl _, .refl sound⟩
  | cons child rest ih =>
    rw [List.foldlM_cons]
    apply (each child (List.mem_cons_self ..) progress sound).bind
    intro middle toured
    have still : middle.inst.QueueSound := by
      obtain ⟨_, _, _, arrives⟩ := toured
      exact arrives.queueSound
    apply (ih (fun other later => each other (List.mem_cons_of_mem _ later)) still).mono
    exact fun after more => toured.append more

namespace Reliable

variable (reliable : Reliable pledge kernel)

include reliable

/-- An action of a state that is entered or left, or of a transition, takes a step of its own at
most. -/
theorem runAction_told {cause : Trace.Cause} (other : cause ≠ .timer) (action state : UInt16)
    (sound : progress.inst.QueueSound) :
    Yields (kernel.runAction cause action state progress) fun after =>
      after.inst.QueueSound ∧ after.inst.leaves = progress.inst.leaves ∧
        after.trace.toList = progress.trace.toList ++
          if action = Name.noId then [] else [.action cause action state] := by
  have quiet : Yields (kernel.runAction cause action state progress)
      (Quiet kernel .nowhere progress) := reliable.runAction_quiet other action state sound
  apply (quiet.and (runAction_yields cause action state progress)).mono
  rintro after ⟨still, grows, -⟩
  exact ⟨still.queueSound, still.leaves_eq, grows⟩

theorem enterState_arrives (state : UInt16) (sound : progress.inst.QueueSound) :
    Yields (kernel.enterState state progress) (Arrives kernel [state] [] progress) := by
  unfold enterState
  apply (kernel.definition.state_yields state).bind
  intro record known
  obtain ⟨-, rfl⟩ := known
  apply (armTimer_yields _ _ _).bind
  intro armed arms
  have noted : (progress.note (.enter state)).trace.toList =
      progress.trace.toList ++ [.enter state] := Array.toList_push
  have steps : armed.inst.QueueSound ∧ armed.inst.leaves = progress.inst.leaves ∧
      armed.trace.toList = progress.trace.toList ++ .enter state ::
        if (kernel.definition.sections.record state).hasTimer then
          [.timerArmed (kernel.definition.sections.record state).timerSlot state
            (max (kernel.definition.sections.record state).timerMs 1)]
        else [] := by
    rcases arms with ⟨none, rfl⟩ | ⟨runs, inst, written, rfl⟩
    · rw [none]
      exact ⟨sound, rfl, noted⟩
    · obtain ⟨_, rfl⟩ := (Instance.setTimer_yields _).of_eq _ written
      rw [runs]
      refine ⟨sound.of_ring_eq rfl, rfl, Array.toList_push.trans ?_⟩
      exact (congrArg (· ++ [_]) noted).trans (List.append_assoc ..)
  apply (reliable.runAction_told (show Trace.Cause.entry ≠ .timer by decide) _ _ steps.1).mono
  rintro after ⟨sound, leaves, grows⟩
  refine ⟨sound, .inr ⟨?_, fun active holds => ?_⟩⟩
  · rw [grows, steps.2.2, List.flatMap_cons, List.flatMap_nil, List.append_nil, List.append_assoc]
    rfl
  · rw [List.append_nil, leaves, steps.2.1]
    exact holds

theorem addLeaf_arrives (has : kernel.definition.sections.Has state)
    (sound : progress.inst.QueueSound) :
    Yields (addLeaf state progress) (Arrives kernel [] [state] progress) := by
  apply (addLeaf_yields _ _).mono
  rintro after (⟨slot, inst, free, written, rfl⟩ | ⟨-, rfl⟩)
  · obtain ⟨_, rfl⟩ := (Instance.setLeaf_yields _).of_eq _ written
    refine ⟨sound.of_ring_eq rfl, .inr ⟨(List.append_nil _).symm, fun active holds => ?_⟩⟩
    have room := holds.length_lt free
    obtain rfl := Option.some.inj (free.symm.trans (holds.findIdx?_eq room))
    exact holds.set room (reliable.sound.wellFormed.ne_noIndex has)
  · refine ⟨sound.of_ring_eq rfl, .inl ⟨state, ?_⟩⟩
    exact Array.mem_toList_iff.2 Array.mem_push_self

theorem enterAndSettle_toured (touring : Touring kernel settle)
    (has : kernel.definition.sections.Has state) (sound : progress.inst.QueueSound) :
    Yields (kernel.enterAndSettle settle state progress)
      (Toured kernel [state] [state] progress) := by
  apply (reliable.enterState_arrives state sound).bind
  intro middle entered
  exact (touring state middle has entered.queueSound).mono
    fun after settled => settled.enter entered

/-- Entering a path goes on a tour below its first state that passes all others. -/
theorem enterPath_toured (touring : Touring kernel settle) {first target : UInt16}
    {rest : List UInt16} (way : kernel.definition.sections.Way first rest target)
    (has : kernel.definition.sections.Has first) (sound : progress.inst.QueueSound) :
    Yields (kernel.enterPath settle (first :: rest) progress)
      (Toured kernel (first :: rest) [first] progress) := by
  have wellFormed := reliable.sound.wellFormed
  induction way generalizing progress with
  | here _ => exact reliable.enterAndSettle_toured touring has sound
  | @down first next target rest linked _ ih =>
    rw [enterPath_cons_cons]
    apply (reliable.enterState_arrives first sound).bind
    intro middle entered
    simp only [Definition.state_eq has, ok_bind]
    refine Yields.mono ?_ fun after settled => SettledIn.enter entered settled
    split
    · next parallel =>
      let passes (child : UInt16) : List UInt16 := if child = next then next :: rest else [child]
      refine (foldlM_toured passes ?_ entered.queueSound).mono fun after toured =>
        (toured.parallel has (wellFormed.inner_of_child linked) parallel).mono ?_
      · intro child listed progress sound
        have own := (wellFormed.mem_words has).1 listed
        unfold enterBeside
        by_cases same : child = next
        · subst same
          rw [if_pos rfl, show passes child = child :: rest from if_pos rfl]
          exact ih own.has sound
        · rw [if_neg same, show passes child = [child] from if_neg same]
          exact reliable.enterAndSettle_toured touring own.has sound
      · have onward : passes next = next :: rest := if_pos rfl
        intro passed listed
        exact List.mem_flatMap.2 ⟨next, (wellFormed.mem_words has).2 linked, onward ▸ listed⟩
    · next serial =>
      exact (ih linked.has entered.queueSound).mono fun after toured =>
        toured.serial wellFormed (Bool.eq_false_iff.2 serial) linked

/-- A descent goes on a tour below the state that is settled. -/
theorem descendFrom_touring (levels : Nat) : Touring kernel (kernel.descendFrom levels) := by
  have wellFormed := reliable.sound.wellFormed
  induction levels with
  | zero => exact fun _ _ _ _ => .error
  | succ levels ih =>
    intro state progress has sound
    rw [descendFrom_succ, descendBy, Definition.state_eq has, ok_bind]
    split
    · next childless =>
      apply (reliable.addLeaf_arrives has sound).mono
      intro after arrives
      refine ⟨[], .leaf has childless .nil, List.Subset.refl _, ?_⟩
      rwa [Sections.leaves_cons_of_leaf childless]
    · next branching =>
      have inner := Bool.eq_false_iff.2 branching
      split
      · next parallel =>
        refine (foldlM_toured (fun child => [child]) ?_ sound).mono fun after toured =>
          (toured.parallel has inner parallel).mono (List.nil_subset _)
        intro child listed progress sound
        exact reliable.enterAndSettle_toured ih ((wellFormed.mem_words has).1 listed).has sound
      · next serial =>
        have alone := Bool.eq_false_iff.2 serial
        apply (reliable.restorable?_yields state progress.inst).bind
        intro named restores
        have entering {child : UInt16} (linked : kernel.definition.sections.Child state child) :
            Yields (kernel.enterAndSettle (kernel.descendFrom levels) child progress)
              (SettledIn kernel [] state progress) :=
          (reliable.enterAndSettle_toured ih linked.has sound).mono fun after toured =>
            (toured.serial wellFormed alone linked).mono (List.nil_subset _)
        cases named with
        | none => exact entering (reliable.child_defaultChild has inner alone)
        | some saved =>
          obtain ⟨beneath, proper, direct⟩ := restores saved rfl
          simp only [enterNamed]
          split
          · apply (reliable.restoredPath_returns beneath).yields.bind
            intro path way
            cases way with
            | here _ => exact absurd rfl proper
            | down linked rest =>
              exact (reliable.enterPath_toured ih rest linked.has sound).mono fun after toured =>
                (toured.serial wellFormed alone linked).mono (List.nil_subset _)
          · next shallow => exact entering (direct (Bool.eq_false_iff.2 shallow))

/-- Settling a state goes on a tour below it. -/
theorem descend_touring : Touring kernel kernel.descend :=
  reliable.descendFrom_touring maxLevels

/-! ### Departures -/

theorem exitState_departs (state : UInt16) (sound : progress.inst.QueueSound) :
    Yields (kernel.exitState state progress) fun after =>
      after.inst.QueueSound ∧ after.inst.leaves = progress.inst.leaves ∧
        after.trace.toList =
          progress.trace.toList ++ departureSteps kernel.definition.sections state := by
  rw [exitState_eq]
  apply (kernel.definition.state_yields state).bind
  intro record known
  obtain ⟨-, rfl⟩ := known
  apply (remember_yields _ _ _ _).bind
  rintro _ ⟨history, fits, rfl⟩
  apply (disarm_yields _ _).bind
  intro inst disarmed
  have left : inst.QueueSound ∧ inst.leaves = progress.inst.leaves := by
    rcases disarmed with ⟨-, rfl⟩ | ⟨-, -, rfl⟩
    · exact ⟨sound.of_ring_eq rfl, rfl⟩
    · exact ⟨sound.of_ring_eq rfl, rfl⟩
  have noted : ((progress.withInst inst).note (.exit state)).trace.toList =
      progress.trace.toList ++ [.exit state] := Array.toList_push
  apply (reliable.runAction_told (show Trace.Cause.exit ≠ .timer by decide) _ _ left.1).mono
  rintro after ⟨sound, leaves, grows⟩
  refine ⟨sound, leaves.trans left.2, ?_⟩
  rw [grows, noted, List.append_assoc]
  rfl

/-- States are left one after the other. -/
theorem exitAll_departs {ordered : List UInt16} (sound : progress.inst.QueueSound) :
    Yields (ordered.foldlM (fun progress state => kernel.exitState state progress) progress)
      fun after => after.inst.QueueSound ∧ after.inst.leaves = progress.inst.leaves ∧
        after.trace.toList = progress.trace.toList ++
          ordered.flatMap (departureSteps kernel.definition.sections) := by
  induction ordered generalizing progress with
  | nil => exact .ok ⟨sound, rfl, (List.append_nil _).symm⟩
  | cons state rest ih =>
    rw [List.foldlM_cons]
    apply (reliable.exitState_departs state sound).bind
    rintro middle ⟨still, leaves, grows⟩
    apply (ih still).mono
    rintro after ⟨sound, leavesToo, growsOn⟩
    refine ⟨sound, leavesToo.trans leaves, ?_⟩
    rw [growsOn, grows, List.append_assoc, List.flatMap_cons]

end Reliable

end Statechart.Kernel
