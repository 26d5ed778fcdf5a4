/-
# Timers fire on time, and once

For how long a state has been active when a tick begins can be told from the ticks before:
it is what has elapsed since the tick in which the state was last entered, provided that it
was not left since (`past_eq_some_iff`). The timer of the state runs out in the tick in which
this time reaches the timer's duration, and in no other (`timers_punctual`). Between two ticks
a timer slot that is armed is that of exactly one active state.
-/

import Statechart.Proofs.Chart.Sharing
import Statechart.Proofs.Kernel.Chronicle
import Statechart.Proofs.Kernel.Timing

namespace Statechart

open Rom (Definition Sections noIndex rootIndex)
open Kernel (Tick)

/-- A step begins or ends the stay of a state. -/
def Trace.Entry.Moves (state : UInt16) : Trace.Entry → Prop
  | .enter other | .exit other => other = state
  | .rtcOverflow _ => True
  | _ => False

namespace Stays

variable {stays : Stays} {state : UInt16} {time : Nat}

/-! ### Since when a state is active -/

theorem step_of_not_moves {entry : Trace.Entry} (still : ¬ entry.Moves state) :
    stays.step entry state = stays state := by
  cases entry with
  | enter _ => exact Function.update_of_ne (Ne.symm still) ..
  | exit _ => exact Function.update_of_ne (Ne.symm still) ..
  | rtcOverflow _ => exact absurd trivial still
  | _ => rfl

/-- A trace leaves a state alone. -/
def Untouched (state : UInt16) (trace : List Trace.Entry) : Prop :=
  ∀ entry ∈ trace, ¬ entry.Moves state

/-- A state is entered in a trace, and afterwards left alone. -/
def EnteredLast (state : UInt16) (trace : List Trace.Entry) : Prop :=
  ∃ before since, trace = before ++ .enter state :: since ∧ Untouched state since

theorem untouched_concat {trace : List Trace.Entry} {entry : Trace.Entry} :
    Untouched state (trace ++ [entry]) ↔ Untouched state trace ∧ ¬ entry.Moves state := by
  rw [Untouched, List.forall_mem_append, List.forall_mem_singleton]
  rfl

theorem enteredLast_concat {trace : List Trace.Entry} {entry : Trace.Entry} :
    EnteredLast state (trace ++ [entry]) ↔
      entry = .enter state ∨ EnteredLast state trace ∧ ¬ entry.Moves state := by
  constructor
  · rintro ⟨before, since, split, untouched⟩
    rcases List.eq_nil_or_concat' since with rfl | ⟨rest, last, rfl⟩
    · exact .inl (List.singleton_inj.1 (List.append_inj' split rfl).2)
    · rw [← List.cons_append, ← List.append_assoc] at split
      obtain ⟨rfl, ⟨⟩⟩ := List.append_inj' split rfl
      rw [untouched_concat] at untouched
      exact .inr ⟨⟨before, rest, rfl, untouched.1⟩, untouched.2⟩
  · rintro (rfl | ⟨⟨before, since, rfl, untouched⟩, still⟩)
    · exact ⟨trace, [], rfl, nofun⟩
    · refine ⟨before, since ++ [entry], ?_, untouched_concat.2 ⟨untouched, still⟩⟩
      rw [List.append_assoc, List.cons_append]

/-- A state is active after a trace if it was entered there last, or if it was active before
and the trace left it alone. -/
theorem replay_eq_some_iff {trace : List Trace.Entry} : stays.replay trace state = some time ↔
    EnteredLast state trace ∧ time = 0 ∨ Untouched state trace ∧ stays state = some time := by
  induction trace using List.reverseRecOn with
  | nil =>
    refine ⟨fun known => .inr ⟨nofun, known⟩, ?_⟩
    rintro (⟨⟨before, _, split, _⟩, _⟩ | ⟨_, known⟩)
    · exact absurd split.symm (List.append_ne_nil_of_right_ne_nil before (List.cons_ne_nil _ _))
    · exact known
  | append_singleton trace entry ih =>
    rw [replay_append, untouched_concat, enteredLast_concat]
    show (stays.replay trace).step entry state = _ ↔ _
    by_cases moves : entry.Moves state
    · -- The state is entered or left by the last step.
      simp only [moves, not_true, and_false, or_false, false_and]
      cases entry with
      | enter other =>
        obtain rfl : other = state := moves
        rw [step, Function.update_self]
        simp [eq_comm]
      | exit other =>
        obtain rfl : other = state := moves
        rw [step, Function.update_self]
        simp
      | rtcOverflow _ => exact ⟨nofun, fun other => nomatch other.1⟩
      | _ => cases moves
    · have other : entry ≠ .enter state := by
        rintro rfl
        exact moves rfl
      rw [step_of_not_moves moves, ih]
      simp only [moves, other, not_false_eq_true, and_true, false_or]

/-- A state has been active for some time when these ticks are over: it was entered in one of
them and left alone since, and so much time has passed in those that came later. -/
def ActiveFor (ticks : List Tick) (state : UInt16) (time : Nat) : Prop :=
  ∃ before entering since, ticks = before ++ entering :: since ∧
    EnteredLast state entering.trace ∧ (∀ tick ∈ since, Untouched state tick.trace) ∧
    time = (since.map Tick.elapsed).sum

/-- What is kept of the past is since when each state is active. -/
theorem past_eq_some_iff {ticks : List Tick} :
    past ticks state = some time ↔ ActiveFor ticks state time := by
  induction ticks using List.reverseRecOn generalizing time with
  | nil =>
    have none : past [] state = none := rfl
    rw [none]
    refine ⟨nofun, ?_⟩
    rintro ⟨before, entering, since, split, _⟩
    exact absurd split.symm (List.append_ne_nil_of_right_ne_nil before (List.cons_ne_nil _ _))
  | append_singleton ticks tick ih =>
    rw [past_concat, through, replay_eq_some_iff]
    constructor
    · rintro (⟨entered, rfl⟩ | ⟨untouched, known⟩)
      · exact ⟨ticks, tick, [], rfl, entered, List.forall_mem_nil _, rfl⟩
      · obtain ⟨earlier, was, rfl⟩ := Option.map_eq_some_iff.1 known
        obtain ⟨before, entering, since, rfl, entered, alone, rfl⟩ := ih.1 was
        refine ⟨before, entering, since ++ [tick], ?_, entered, ?_, ?_⟩
        · rw [List.append_assoc, List.cons_append]
        · rw [List.forall_mem_append, List.forall_mem_singleton]
          exact ⟨alone, untouched⟩
        · rw [List.map_append, List.sum_append, List.map_singleton, List.sum_singleton]
    · rintro ⟨before, entering, since, split, entered, alone, rfl⟩
      rcases List.eq_nil_or_concat' since with rfl | ⟨rest, last, rfl⟩
      · obtain ⟨rfl, ⟨⟩⟩ := List.append_inj' split rfl
        exact .inl ⟨entered, rfl⟩
      · rw [← List.cons_append, ← List.append_assoc] at split
        obtain ⟨rfl, ⟨⟩⟩ := List.append_inj' split rfl
        rw [List.forall_mem_append, List.forall_mem_singleton] at alone
        refine .inr ⟨alone.2, Option.map_eq_some_iff.2 ⟨_, ih.2 ⟨before, entering, rest, rfl,
          entered, alone.1, rfl⟩, ?_⟩⟩
        rw [List.map_append, List.sum_append, List.map_singleton, List.sum_singleton]

/-! ### Whose time has come -/

/-- The timer of an active state runs out within some time. -/
def Due (sections : Sections) (stays : Stays) (elapsed : Nat) (state : UInt16) : Prop :=
  (sections.record state).hasTimer = true ∧ ∃ time, stays state = some time ∧
    time < sections.duration state ∧ sections.duration state ≤ time + elapsed

/-- The timers that run out while time passes are those that are due. -/
theorem Timed.runsOut_iff {sections : Sections} {timers : List UInt32} {delta : UInt32}
    (timed : Timed sections stays timers)
    (fits : ∀ state, stays.Open state → (sections.record state).hasTimer = true →
      (sections.record state).timerSlot.toNat < timers.length) :
    Kernel.RunsOut sections (stays.age delta.toNat) timers delta (List.range timers.length) state ↔
      Due sections stays delta.toNat state := by
  constructor
  · rintro ⟨isOpen, slot, _, runs, remaining, found, armed, enough⟩
    obtain ⟨time, known⟩ := Option.ne_none_iff_exists'.1 (open_age.1 isOpen)
    have left := timed.remaining known runs found
    have some : remaining.toNat ≠ 0 := fun none => armed (UInt32.toNat_inj.1 none)
    have soon := UInt32.le_iff_toNat_le.1 enough
    exact ⟨runs.runs, time, known, by omega, by omega⟩
  · rintro ⟨runs, time, known, early, late⟩
    have isOpen : stays.Open state := fun none => nomatch none.symm.trans known
    have inside := fits state isOpen runs
    have found := List.getElem?_eq_getElem inside
    have left := timed.remaining known ⟨runs, rfl⟩ found
    refine ⟨open_age.2 isOpen, _, List.mem_range.2 inside, ⟨runs, rfl⟩, _, found, ?_, ?_⟩
    · intro none
      rw [none] at left
      have zero : (0 : UInt32).toNat = 0 := rfl
      omega
    · rw [UInt32.le_iff_toNat_le]
      omega

end Stays

namespace Kernel

variable {User : Type} {pledge : Instance.Pledge} {definition : Definition}

/-- What a tick does to the timers: those that are due leave their steps, the others none, and
afterwards the timers are those of the active states. -/
structure Timely (definition : Definition) (stays : Stays) (tick : Tick) : Prop where
  fires (state : UInt16) : stays.Due definition.sections tick.elapsed state →
    tick.trace.filter (Trace.Entry.isExpiryOf state) =
      expirySteps definition (definition.sections.record state).timerSlot state
  rests (state : UInt16) : ¬ stays.Due definition.sections tick.elapsed state →
    tick.trace.filter (Trace.Entry.isExpiryOf state) = []
  timed : (stays.through tick).Timed definition.sections tick.after.timers

/-- Every tick deals with the timers as it should. -/
theorem Done.timely {kernel : Kernel User} (reliable : Reliable pledge kernel)
    (apart : kernel.definition.sections.TimersApart)
    (spares : kernel.dispatch.Preserves Instance.timers) {stays : Stays} {delta : UInt32}
    {scene : Scene User} {outcome : Outcome} {after : Progress User}
    (done : Done pledge kernel stays delta scene outcome after)
    (timed : stays.Timed kernel.definition.sections scene.inst.timers) :
    Timely kernel.definition stays (.of delta scene.inst outcome after) := by
  rcases done.became with ⟨rfl, rfl⟩ | ⟨ended, course⟩
  · -- A tick that was skipped lets no time pass.
    refine ⟨fun state due => ?_, fun _ _ => rfl, ?_⟩
    · obtain ⟨_, time, _, early, late⟩ := due
      exact absurd late (Nat.not_le.2 early)
    · have unchanged (slot : Nat) :
          scene.inst.timers[slot]? = scene.inst.timers[slot]?.map (Stays.waned 0) := by
        rw [show Stays.waned 0 = id from funext Stays.waned_zero, Option.map_id, id]
      exact timed.age unchanged
  · obtain ⟨aged, passed, lands⟩ := course
    obtain ⟨next, path⟩ := lands.exists_path
    have taken : (Tick.of delta scene.inst outcome after).elapsed = delta.toNat :=
      if_neg ended.taken
    have accounted := done.accounted.age delta.toNat
    have matched : ∃ active, Holds scene.inst.leaves active ∧
        Matched kernel (stays.age delta.toNat) active (.ofScene scene) :=
      accounted.exists_active.imp fun active found => ⟨found.1, accounted.nested, found.2⟩
    have underway := (Reliable.underway_ofScene done.resting.ready done.resting.pledged
      matched).withPhase .idle
    have owned : (stays.age delta.toNat).Owned kernel.definition.sections scene.inst.timers :=
      fun slot remaining found armed => (timed.owned slot remaining found armed).imp
        fun _ both => ⟨Stays.open_age.2 both.1, both.2⟩
    have tells := (reliable.advanceTimers_tells delta apart spares underway owned).of_eq _ passed
    have running := (reliable.advanceTimers_underway delta underway).of_eq _ passed
    obtain ⟨_, same⟩ : Extends kernel (stays.age delta.toNat) _ aged ∧
      aged.stays (stays.age delta.toNat) = stays.age delta.toNat :=
      (advanceTimers_extends _).of_eq _ passed
    -- Afterwards the timers are those of the active states, and none of them runs out any more.
    have left : Stays.Timed kernel.definition.sections (aged.stays (stays.age delta.toNat))
        aged.inst.timers := by
      rw [same]
      exact timed.age tells.timers_waned
    obtain ⟨_, _, nested⟩ := running.exists_matched
    have final := path.timed reliable.sound.wellFormed apart spares nested.nested left
    have fits (state : UInt16) (isOpen : stays.Open state)
        (runs : (kernel.definition.sections.record state).hasTimer = true) :
        (kernel.definition.sections.record state).timerSlot.toNat < scene.inst.timers.length := by
      rw [scene.inst.length_timers]
      exact reliable.timerSlot_lt underway.steady.room (done.accounted.nested.child isOpen).has runs
    have due (state : UInt16) : RunsOut kernel.definition.sections (stays.age delta.toNat)
        scene.inst.timers delta (List.range scene.inst.timers.length) state ↔
          stays.Due kernel.definition.sections delta.toNat state := timed.runsOut_iff fits
    refine ⟨fun state now => ?_, fun state later => ?_, ?_⟩
    · rw [taken] at now
      exact (path.expiries_eq state).trans (tells.fires state ((due state).2 now))
    · rw [taken] at later
      exact (path.expiries_eq state).trans (tells.rests state (mt (due state).1 later))
    · rw [Stays.through, taken]
      exact final

/-- What a tick does to the timers, in terms of the ticks before it. -/
structure Punctual (definition : Definition) (past : List Tick) (tick : Tick) : Prop where
  /-- A timer runs out in the tick in which the time since its state was entered reaches the
  timer's duration. -/
  fires {state : UInt16} {time : Nat} : (definition.sections.record state).hasTimer = true →
    Stays.ActiveFor past state time → time < definition.sections.duration state →
    definition.sections.duration state ≤ time + tick.elapsed →
    tick.trace.filter (Trace.Entry.isExpiryOf state) =
      expirySteps definition (definition.sections.record state).timerSlot state
  /-- It runs out at no other time. -/
  only {state : UInt16} : tick.trace.filter (Trace.Entry.isExpiryOf state) ≠ [] →
    (definition.sections.record state).hasTimer = true ∧
      ∃ time, Stays.ActiveFor past state time ∧ time < definition.sections.duration state ∧
        definition.sections.duration state ≤ time + tick.elapsed
  /-- It does not run out unless its state is active when the tick begins. -/
  active {state : UInt16} : tick.trace.filter (Trace.Entry.isExpiryOf state) ≠ [] →
    ∃ active, Holds tick.before.leaves active ∧ state ≠ rootIndex ∧
      definition.sections.Active active state
  /-- After the tick an armed timer is that of exactly one active state, and has no more than
  the state's duration left. -/
  owned {slot : Nat} {remaining : UInt32} : tick.after.timers[slot]? = some remaining →
    remaining ≠ 0 → ∃ active, Holds tick.after.leaves active ∧ ∃ state,
      (definition.sections.Active active state ∧ definition.sections.RunsIn state slot ∧
        remaining.toNat ≤ definition.sections.duration state) ∧
      ∀ other, definition.sections.Active active other → definition.sections.RunsIn other slot →
        other = state

/-- Armed timers are those of active states, one each. -/
theorem Accounted.exists_owner {stays : Stays} {inst : Instance}
    (accounted : Accounted definition stays inst) (wellFormed : definition.sections.WellFormed)
    (apart : definition.sections.TimersApart)
    (timed : stays.Timed definition.sections inst.timers) {slot : Nat} {remaining : UInt32}
    (found : inst.timers[slot]? = some remaining) (armed : remaining ≠ 0) :
    ∃ active, Holds inst.leaves active ∧ ∃ state,
      (definition.sections.Active active state ∧ definition.sections.RunsIn state slot ∧
        remaining.toNat ≤ definition.sections.duration state) ∧
      ∀ other, definition.sections.Active active other → definition.sections.RunsIn other slot →
        other = state := by
  obtain ⟨nested, active, holds, open_iff⟩ := accounted
  obtain ⟨state, isOpen, runs⟩ := timed.owned slot remaining found armed
  obtain ⟨time, known⟩ := Option.ne_none_iff_exists'.1 isOpen
  have left := timed.remaining known runs found
  refine ⟨active, holds, state, ⟨((open_iff state).1 isOpen).2, runs, by omega⟩, ?_⟩
  intro other isActive otherRuns
  have reached : other = rootIndex ∨ stays.Open other :=
    (em (other = rootIndex)).imp_right fun inner => (open_iff other).2 ⟨inner, isActive⟩
  obtain ⟨_, _, below⟩ := isActive
  exact nested.runsIn_unique wellFormed apart isOpen reached below.has_top runs otherRuns

/-- What a tick does to the timers can be told from the ticks before it. -/
theorem Done.punctual {kernel : Kernel User} {past : List Tick} {delta : UInt32}
    {scene : Scene User} {outcome : Outcome} {after : Progress User}
    (done : Done pledge kernel (.past past) delta scene outcome after)
    (wellFormed : kernel.definition.sections.WellFormed)
    (apart : kernel.definition.sections.TimersApart)
    (timely : Timely kernel.definition (.past past) (.of delta scene.inst outcome after)) :
    Punctual kernel.definition past (.of delta scene.inst outcome after) := by
  -- Whatever runs out is due.
  have due {state : UInt16} (some : (Tick.of delta scene.inst outcome after).trace.filter
      (Trace.Entry.isExpiryOf state) ≠ []) :
      (Stays.past past).Due kernel.definition.sections
        (Tick.of delta scene.inst outcome after).elapsed state :=
    Classical.byContradiction fun early => some (timely.rests state early)
  constructor
  · intro state time runs active early late
    exact timely.fires state ⟨runs, time, Stays.past_eq_some_iff.2 active, early, late⟩
  · intro state some
    obtain ⟨runs, time, known, early, late⟩ := due some
    exact ⟨runs, time, Stays.past_eq_some_iff.1 known, early, late⟩
  · intro state some
    obtain ⟨_, time, known, _⟩ := due some
    obtain ⟨_, active, holds, open_iff⟩ := done.accounted
    exact ⟨active, holds, (open_iff state).1 fun none => nomatch none.symm.trans known⟩
  · intro slot remaining found armed
    exact done.left.exists_owner wellFormed apart timely.timed found armed

/-- No callback of a happening writes a timer. -/
def Happening.KeepsTimers : Happening User → Prop
  | ticked dispatch _ _ _ _ => dispatch.Preserves Instance.timers
  | _ => True

/-- In every run of a compiled machine, a timer runs out in the tick in which the time since
its state was entered reaches the timer's duration, if the state is still active when the tick
begins, and at no other time; and after each tick an armed timer is that of exactly one active
state. -/
theorem timers_punctual {graph : Chart.Graph} {compiled : Chart.Compiled} (drawn : graph.Drawn)
    (compiles : graph.compile = .ok (.ok compiled)) {tier : Tier}
    (room : compiled.definition.tier ≤ tier) (seed : UInt32) (happenings : List (Happening User))
    (harmless : ∀ happening ∈ happenings, happening.Harmless .nothing)
    (spares : ∀ happening ∈ happenings, happening.KeepsTimers) :
    ∃ ticks,
      Happening.chronicle compiled.definition happenings
          (.fresh tier compiled.definition.structureHash seed) = .ok ticks ∧
        ∀ before tick later, ticks = before ++ tick :: later →
          Punctual compiled.definition before tick := by
  have sound := (drawn.sound compiles).1
  have apart := drawn.timersApart compiles
  let invariant (past : List Tick) (inst : Instance) : Prop :=
    (Stays.past past).Timed compiled.definition.sections inst.timers
  have telling : Returns (Happening.chronicle compiled.definition happenings
      (.fresh tier compiled.definition.structureHash seed)) fun ticks =>
        ∀ before tick later, ticks = before ++ tick :: later →
          Punctual compiled.definition ([] ++ before) tick := by
    refine chronicle_returns sound harmless ?_ (fun _ _ _ _ => id) ?_ [] _
      (.fresh room seed trivial) (.fresh tier _ seed)
      (show invariant [] _ from Stays.Timed.nowhere _)
    · intro past inst event priority _ _ timed accepted after queued
      show Stays.Timed _ _ after.timers
      rw [((Instance.enqueue_sameSlots event priority).of_eq _ queued).timers_eq]
      exact timed
    · intro past dispatch limits delta scene outcome after listed timed done
      have reliable : Reliable .nothing
          (⟨compiled.definition, dispatch, limits⟩ : Kernel User) := ⟨sound, harmless _ listed⟩
      have timely := done.timely reliable apart (spares _ listed) timed
      refine ⟨done.punctual sound.wellFormed apart timely, ?_⟩
      show Stays.Timed _ _ _
      rw [Stays.past_concat]
      exact timely.timed
  exact telling

theorem keepsTimers_twoTicks : ∀ happening ∈ twoTicks, happening.KeepsTimers := by
  intro happening listed
  rcases List.mem_cons.1 listed with rfl | listed
  · exact Dispatch.preserves_empty _
  rcases List.mem_cons.1 listed with rfl | listed
  · trivial
  · obtain rfl := List.mem_singleton.1 listed
    exact Dispatch.preserves_empty _

theorem timers_punctual_clock :
    ∃ compiled, Chart.Graph.clock.compile = .ok (.ok compiled) ∧ ∃ ticks,
      Happening.chronicle compiled.definition twoTicks
          (.fresh .tier256 compiled.definition.structureHash 1) = .ok ticks ∧
        ∀ before tick later, ticks = before ++ tick :: later →
          Punctual compiled.definition before tick := by
  obtain ⟨compiled, compiles⟩ := Chart.Graph.exists_compiled_clock
  exact ⟨compiled, compiles, timers_punctual Chart.Graph.drawn_clock compiles (Tier.le_tier256 _) 1
    twoTicks (harmless_twoTicks _) keepsTimers_twoTicks⟩

end Kernel

end Statechart
