/-
# Timers and the states that run them

The timer of a state is armed when the state is entered and disarmed when it is left, and
in between it is counted down. So a slot holds what is left of the duration of the active
state whose timer uses it, and nothing if there is none (`Timed`). States that may be active
together have different slots, so what one of them does to its slot is nothing to the others.

Every step of a tick keeps this as long as no callback writes a timer (`Path.timed`). When
time passes, exactly the timers whose time has come run out, and each leaves its steps in the
trace once (`Reliable.advanceTimers_tell`).
-/

import Statechart.Proofs.Kernel.Course

namespace Statechart

open Rom (Definition Sections StateRecord noIndex rootIndex)

/-- How many milliseconds the timer of a state runs. -/
def Rom.Sections.duration (sections : Sections) (state : UInt16) : Nat :=
  (max (sections.record state).timerMs 1).toNat

namespace Stays

variable {sections : Sections} {stays : Stays} {timers next : List UInt32} {state other : UInt16}

/-- An armed timer is that of an active state. -/
def Owned (sections : Sections) (stays : Stays) (timers : List UInt32) : Prop :=
  ∀ slot remaining, timers[slot]? = some remaining → remaining ≠ 0 →
    ∃ state, stays.Open state ∧ sections.RunsIn state slot

/-- The timer of an active state has what is left of its duration, and no other is armed. -/
structure Timed (sections : Sections) (stays : Stays) (timers : List UInt32) : Prop where
  remaining {state : UInt16} {slot time : Nat} {remaining : UInt32} : stays state = some time →
    sections.RunsIn state slot → timers[slot]? = some remaining →
    remaining.toNat = sections.duration state - time
  owned : Owned sections stays timers

/-- What is left of a timer when time has passed. -/
def waned (delta remaining : UInt32) : UInt32 :=
  if delta < remaining then remaining - delta else 0

theorem toNat_waned (delta remaining : UInt32) :
    (waned delta remaining).toNat = remaining.toNat - delta.toNat := by
  unfold waned
  split
  · next more => exact UInt32.toNat_sub_of_le _ _ (UInt32.le_of_lt more)
  · next enough => exact (Nat.sub_eq_zero_of_le (UInt32.not_lt.1 enough)).symm

@[simp]
theorem waned_zero (remaining : UInt32) : waned 0 remaining = remaining :=
  UInt32.toNat_inj.1 (toNat_waned 0 remaining)

theorem ne_zero_of_waned {delta remaining : UInt32} (some : waned delta remaining ≠ 0) :
    remaining ≠ 0 := by
  rintro rfl
  have none : waned delta 0 = 0 := if_neg (UInt32.not_lt_zero)
  exact some none

namespace Nested

/-- Of the active states one timer slot is used by one at most, and not by the root besides. -/
theorem runsIn_unique (nested : Nested sections stays) (wellFormed : sections.WellFormed)
    (apart : sections.TimersApart) {slot : Nat} (isOpen : stays.Open state)
    (reached : other = rootIndex ∨ stays.Open other) (has : sections.Has other)
    (runs : sections.RunsIn state slot) (otherRuns : sections.RunsIn other slot) :
    other = state :=
  apart other state slot
    (nested.coActive_of_beneath (wellFormed.beneath_root has) reached
      (wellFormed.beneath_root (nested.child isOpen).has) isOpen)
    otherRuns runs

end Nested

namespace Timed

theorem nowhere (count : Nat) : Timed sections nowhere (List.replicate count 0) where
  remaining known := nomatch known
  owned slot remaining found armed := by
    obtain rfl := List.eq_of_mem_replicate (List.mem_of_getElem? found)
    exact absurd rfl armed

/-- The stay of one state and its slot are written, and no other active state uses the slot. -/
theorem update (timed : Timed sections stays timers) {stay : Option Nat} {left : UInt32}
    (lone : ∀ other slot, other ≠ state → stays.Open other → sections.RunsIn state slot →
      ¬ sections.RunsIn other slot)
    (fits : ∀ time, stay = some time → left.toNat = sections.duration state - time)
    (armed : left ≠ 0 → stay ≠ none)
    (written : (sections.record state).hasTimer = false ∧ next = timers ∨
      (sections.record state).hasTimer = true ∧
        next = timers.set (sections.record state).timerSlot.toNat left) :
    Timed sections (Function.update stays state stay) next := by
  constructor
  · intro other slot time remaining known runs found
    by_cases same : other = state
    · subst same
      rw [Function.update_self] at known
      rcases written with ⟨none, _⟩ | ⟨_, rfl⟩
      · exact absurd runs.runs (Bool.eq_false_iff.1 none)
      · rw [runs.slot_eq, List.getElem?_set_self'] at found
        obtain ⟨_, _, rfl⟩ := Option.map_eq_some_iff.1 found
        exact fits time known
    · rw [Function.update_of_ne same] at known
      have isOpen : stays.Open other := fun none => nomatch none.symm.trans known
      rcases written with ⟨_, rfl⟩ | ⟨own, rfl⟩
      · exact timed.remaining known runs found
      · have differ : (sections.record state).timerSlot.toNat ≠ slot := fun together =>
          lone other slot same isOpen ⟨own, together⟩ runs
        rw [List.getElem?_set_ne differ] at found
        exact timed.remaining known runs found
  · intro slot remaining found some
    -- The owner of a slot that is not the state's is another state, and stays its owner.
    have still (unwritten : timers[slot]? = Option.some remaining)
        (differs : ¬ sections.RunsIn state slot) :
        ∃ owner, Open (Function.update stays state stay) owner ∧ sections.RunsIn owner slot := by
      obtain ⟨owner, isOpen, runs⟩ := timed.owned slot remaining unwritten some
      have other : owner ≠ state := by
        rintro rfl
        exact differs runs
      exact ⟨owner, by rwa [Open, Function.update_of_ne other], runs⟩
    rcases written with ⟨none, rfl⟩ | ⟨own, rfl⟩
    · exact still found fun runs => Bool.eq_false_iff.1 none runs.runs
    · by_cases here : (sections.record state).timerSlot.toNat = slot
      · rw [here, List.getElem?_set_self'] at found
        obtain ⟨_, _, rfl⟩ := Option.map_eq_some_iff.1 found
        exact ⟨state, by rw [Open, Function.update_self]; exact armed some, own, here⟩
      · rw [List.getElem?_set_ne here] at found
        exact still found fun runs => here runs.slot_eq

/-- Entering a state arms its timer, if it has one. -/
theorem enter (timed : Timed sections stays timers) (wellFormed : sections.WellFormed)
    (apart : sections.TimersApart) (nested : Nested sections (stays.step (.enter state)))
    (armed : (sections.record state).hasTimer = false ∧ next = timers ∨
      (sections.record state).hasTimer = true ∧
        next = timers.set (sections.record state).timerSlot.toNat
          (max (sections.record state).timerMs 1).toUInt32) :
    Timed sections (stays.step (.enter state)) next := by
  have isOpen : (stays.step (.enter state)).Open state := open_enter.2 (.inr rfl)
  refine timed.update ?_ ?_ (fun _ => nofun) armed
  · intro other slot differs otherOpen runs otherRuns
    have stillOpen : (stays.step (.enter state)).Open other := open_enter.2 (.inl otherOpen)
    exact differs (nested.runsIn_unique wellFormed apart isOpen (.inr stillOpen)
      (nested.child stillOpen).has runs otherRuns)
  · rintro _ ⟨⟩
    exact UInt16.toNat_toUInt32 _

/-- Leaving a state disarms its timer, if it has one. -/
theorem exit (timed : Timed sections stays timers) (wellFormed : sections.WellFormed)
    (apart : sections.TimersApart) (nested : Nested sections stays) (isOpen : stays.Open state)
    (disarmed : (sections.record state).hasTimer = false ∧ next = timers ∨
      (sections.record state).hasTimer = true ∧
        next = timers.set (sections.record state).timerSlot.toNat 0) :
    Timed sections (stays.step (.exit state)) next := by
  refine timed.update ?_ nofun (absurd rfl) disarmed
  intro other slot differs otherOpen runs otherRuns
  exact differs (nested.runsIn_unique wellFormed apart isOpen (.inr otherOpen)
    (nested.child otherOpen).has runs otherRuns)

/-- Time passes for the states and for their timers alike. -/
theorem age (timed : Timed sections stays timers) {delta : UInt32}
    (passed : ∀ slot : Nat, next[slot]? = timers[slot]?.map (waned delta)) :
    Timed sections (stays.age delta.toNat) next := by
  constructor
  · intro state slot time remaining known runs found
    obtain ⟨before, was, rfl⟩ := Option.map_eq_some_iff.1 known
    rw [passed] at found
    obtain ⟨left, here, rfl⟩ := Option.map_eq_some_iff.1 found
    rw [toNat_waned, timed.remaining was runs here, Nat.sub_sub]
  · intro slot remaining found some
    rw [passed] at found
    obtain ⟨left, here, rfl⟩ := Option.map_eq_some_iff.1 found
    obtain ⟨owner, isOpen, runs⟩ := timed.owned slot left here (ne_zero_of_waned some)
    exact ⟨owner, open_age.2 isOpen, runs⟩

end Timed

end Stays

/-! ### The steps of a tick -/

/-- Whether a step is the running out of a state's timer, or what the state does then. -/
def Trace.Entry.isExpiryOf (state : UInt16) : Trace.Entry → Bool
  | .timerFired _ owner => owner = state
  | .action .timer _ owner => owner = state
  | _ => false

theorem Trace.Entry.Aside.isExpiryOf_eq {entry : Trace.Entry} (aside : entry.Aside)
    (state : UInt16) : entry.isExpiryOf state = false := by
  cases entry with
  | action cause _ _ =>
    cases cause with
    | timer => exact absurd rfl aside
    | _ => rfl
  | timerFired _ _ => cases aside
  | _ => rfl

namespace Kernel

open Stays (Timed Owned waned)

variable {User : Type} {pledge : Instance.Pledge} {idle : Prop} {kernel : Kernel User}
  {start : Stays} {delta : UInt32} {progress before after : Progress User}

/-- A step keeps the timers with their states. -/
theorem Step.timed {first second : Stage User} (step : Step kernel start first second)
    (wellFormed : kernel.definition.sections.WellFormed)
    (apart : kernel.definition.sections.TimersApart)
    (spares : kernel.dispatch.Preserves Instance.timers)
    (nested : (first.progress.stays start).Nested kernel.definition.sections)
    (timed : Timed kernel.definition.sections (first.progress.stays start)
      first.progress.inst.timers) :
    Timed kernel.definition.sections (second.progress.stays start)
      second.progress.inst.timers := by
  -- Most steps enter and leave no state, and write no timer.
  have still {progress after : Progress User}
      (timed : Timed kernel.definition.sections (progress.stays start) progress.inst.timers)
      (same : after.stays start = progress.stays start)
      (unwritten : after.inst.timers = progress.inst.timers) :
      Timed kernel.definition.sections (after.stays start) after.inst.timers := by
    rw [same, unwritten]
    exact timed
  cases step with
  | called touches same =>
    exact still timed (by rw [Progress.stays, same]; rfl) (spares _ _ touches)
  | noted aside =>
    exact still timed ((Progress.stays_note _ _).trans (Stays.step_of_still aside.still)) rfl
  | paced _ _ => exact still timed rfl rfl
  | taken taken _ =>
    exact still timed (Progress.stays_note _ _) (Instance.dequeue_sameSlots.of_eq _ taken).timers_eq
  | @putBack _ next progress after inst taken _ queued =>
    obtain ⟨accepted, queue, put, rfl⟩ := (enqueueOrNote_yields _ _ _).of_eq _ queued
    have unwritten : queue.timers = progress.inst.timers :=
      ((Instance.enqueue_sameSlots _ _).of_eq _ put).timers_eq.trans
        (Instance.dequeue_sameSlots.of_eq _ taken).timers_eq
    split
    · exact still timed rfl unwritten
    · exact still timed (Progress.stays_note _ _) unwritten
  | fired _ => exact still timed (Progress.stays_note _ _) rfl
  | @entered _ progress _ state enterable armed =>
    have entering := nested.enter enterable
    rcases (armTimer_yields _ _ _).of_eq _ armed with ⟨none, rfl⟩ | ⟨runs, inst, written, rfl⟩
    · rw [Progress.stays_note]
      exact timed.enter wellFormed apart entering (.inl ⟨none, rfl⟩)
    · obtain ⟨_, rfl⟩ := (Instance.setTimer_yields _).of_eq _ written
      rw [Progress.stays_note]
      show Timed _ ((progress.note (.enter state)).stays start) _
      rw [Progress.stays_note]
      exact timed.enter wellFormed apart entering (.inr ⟨runs, rfl⟩)
  | @left _ progress state saved inst leavable remembered disarmed =>
    obtain ⟨history, fits, rfl⟩ := (remember_yields _ _ _ _).of_eq _ remembered
    rw [Progress.stays_note]
    apply timed.exit wellFormed apart nested leavable.isOpen
    rcases (disarm_yields _ _).of_eq _ disarmed with ⟨none, rfl⟩ | ⟨runs, _, rfl⟩
    · exact .inl ⟨none, rfl⟩
    · exact .inr ⟨runs, rfl⟩
  | seated added =>
    rcases (addLeaf_yields _ _).of_eq _ added with ⟨_, inst, _, written, rfl⟩ | ⟨_, rfl⟩
    · obtain ⟨_, rfl⟩ := (Instance.setLeaf_yields _).of_eq _ written
      exact still timed rfl rfl
    · exact still timed (Progress.stays_note _ _) rfl
  | vacated _ => exact still timed rfl rfl
  | @contained _ progress =>
    have dropped : (kernel.contain progress).stays start = Stays.nowhere := Progress.stays_note _ _
    rw [dropped]
    exact .nowhere _

/-- Along a path the timers stay with their states. -/
theorem Path.timed {first second : Stage User} (path : Path kernel start first second)
    (wellFormed : kernel.definition.sections.WellFormed)
    (apart : kernel.definition.sections.TimersApart)
    (spares : kernel.dispatch.Preserves Instance.timers)
    (nested : (first.progress.stays start).Nested kernel.definition.sections)
    (timed : Timed kernel.definition.sections (first.progress.stays start)
      first.progress.inst.timers) :
    Timed kernel.definition.sections (second.progress.stays start)
      second.progress.inst.timers := by
  induction path with
  | refl => exact timed
  | @tail middle last path step ih =>
    obtain ⟨more, grows, orderly⟩ := Path.extends path
    have still : (middle.progress.stays start).Nested kernel.definition.sections := by
      rw [Progress.stays, grows, Stays.replay_append]
      exact nested.replay orderly
    exact step.timed wellFormed apart spares still ih

/-! ### What runs out -/

/-- The steps so far in which a state's timer ran out. -/
def Progress.expiries (state : UInt16) (progress : Progress User) : List Trace.Entry :=
  progress.trace.toList.filter (Trace.Entry.isExpiryOf state)

theorem Progress.expiries_note (state : UInt16) (progress : Progress User)
    {entry : Trace.Entry} (other : entry.isExpiryOf state = false) :
    (progress.note entry).expiries state = progress.expiries state := by
  show (progress.trace.push entry).toList.filter _ = _
  rw [Array.toList_push, List.filter_append, List.filter_singleton, other]
  exact List.append_nil _

/-- After time has passed no timer runs out any more. -/
theorem Step.expiries_eq {first second : Stage User} (step : Step kernel start first second)
    (state : UInt16) : second.progress.expiries state = first.progress.expiries state := by
  cases step with
  | called _ same => rw [Progress.expiries, same]; rfl
  | noted aside => exact Progress.expiries_note state _ (aside.isExpiryOf_eq state)
  | paced _ _ => rfl
  | taken _ _ => exact Progress.expiries_note state _ rfl
  | putBack _ _ queued =>
    obtain ⟨accepted, queue, _, rfl⟩ := (enqueueOrNote_yields _ _ _).of_eq _ queued
    split
    · rfl
    · exact Progress.expiries_note state _ rfl
  | fired _ => exact Progress.expiries_note state _ rfl
  | @entered _ progress _ other _ armed =>
    have entering : (progress.note (.enter other)).expiries state = progress.expiries state :=
      Progress.expiries_note state _ rfl
    rcases (armTimer_yields _ _ _).of_eq _ armed with ⟨_, rfl⟩ | ⟨_, inst, _, rfl⟩
    · exact entering
    · exact (Progress.expiries_note state _ rfl).trans entering
  | left _ _ _ => exact Progress.expiries_note state _ rfl
  | seated added =>
    rcases (addLeaf_yields _ _).of_eq _ added with ⟨_, _, _, _, rfl⟩ | ⟨_, rfl⟩
    · rfl
    · exact Progress.expiries_note state _ rfl
  | vacated _ => rfl
  | contained => exact Progress.expiries_note state _ rfl

theorem Path.expiries_eq {first second : Stage User} (path : Path kernel start first second)
    (state : UInt16) : second.progress.expiries state = first.progress.expiries state := by
  induction path with
  | refl => rfl
  | tail _ step ih => exact (step.expiries_eq state).trans ih

theorem filter_expirySteps {definition : Definition} {slot owner : UInt16} (state : UInt16) :
    (expirySteps definition slot owner).filter (Trace.Entry.isExpiryOf state) =
      if owner = state then expirySteps definition slot owner else [] := by
  split
  · next same =>
    refine List.filter_eq_self.2 fun entry listed => ?_
    rcases mem_expirySteps listed with rfl | rfl <;> exact decide_eq_true same
  · next other =>
    refine List.filter_eq_nil_iff.2 fun entry listed => ?_
    rcases mem_expirySteps listed with rfl | rfl <;>
      exact fun own => other (of_decide_eq_true own)

/-- The timer of an active state runs in one of these slots, and its time has come. -/
def RunsOut (sections : Sections) (stays : Stays) (timers : List UInt32) (delta : UInt32)
    (slots : List Nat) (state : UInt16) : Prop :=
  stays.Open state ∧ ∃ slot ∈ slots, sections.RunsIn state slot ∧
    ∃ remaining, timers[slot]? = some remaining ∧ remaining ≠ 0 ∧ remaining ≤ delta

namespace RunsOut

variable {sections : Sections} {stays : Stays} {timers : List UInt32} {slot : Nat}
  {slots : List Nat} {state : UInt16}

/-- A timer runs out in the first slot or in one of the others. -/
theorem cons_iff : RunsOut sections stays timers delta (slot :: slots) state ↔
    RunsOut sections stays timers delta [slot] state ∨
      RunsOut sections stays timers delta slots state := by
  simp only [RunsOut, List.mem_cons, List.not_mem_nil, or_false, ← and_or_left, or_and_right,
    exists_or]

/-- The timer of a state runs in one slot only. -/
theorem once (now : RunsOut sections stays timers delta [slot] state) (absent : slot ∉ slots) :
    ¬ RunsOut sections stays timers delta slots state := by
  obtain ⟨_, _, listed, runs, _⟩ := now
  rintro ⟨_, _, others, again, _⟩
  rw [← again.slot_eq, runs.slot_eq, List.mem_singleton.1 listed] at others
  exact absent others

end RunsOut

/-- Time has passed for some slots: they have what is left, and each timer that has run out
has left its steps. -/
structure Tells (kernel : Kernel User) (start : Stays) (delta : UInt32) (slots : List Nat)
    (before after : Progress User) : Prop where
  timers_eq (slot : Nat) : after.inst.timers[slot]? = before.inst.timers[slot]?.map fun remaining =>
    if slot ∈ slots then waned delta remaining else remaining
  fires (state : UInt16) :
    RunsOut kernel.definition.sections (before.stays start) before.inst.timers delta slots state →
    after.expiries state = before.expiries state ++
      expirySteps kernel.definition (kernel.definition.sections.record state).timerSlot state
  rests (state : UInt16) :
    ¬ RunsOut kernel.definition.sections (before.stays start) before.inst.timers delta slots
      state → after.expiries state = before.expiries state

namespace Tells

variable {middle : Progress User} {slot : Nat} {slots : List Nat}

theorem nil : Tells kernel start delta [] progress progress where
  timers_eq slot := by simp
  fires state runsOut := by
    obtain ⟨_, _, listed, _⟩ := runsOut
    cases listed
  rests state _ := rfl

/-- If time has passed for all slots, all timers have what is left. -/
theorem timers_waned
    (tells : Tells kernel start delta (List.range before.inst.timers.length) before after)
    (slot : Nat) : after.inst.timers[slot]? = before.inst.timers[slot]?.map (waned delta) := by
  rw [tells.timers_eq]
  cases found : before.inst.timers[slot]? with
  | none => rfl
  | some remaining =>
    have inside := List.mem_range.2 (List.getElem?_eq_some_iff.1 found).1
    simp only [Option.map_some, if_pos inside]

/-- Time passes for one slot and then for others. -/
theorem cons (first : Tells kernel start delta [slot] before middle)
    (second : Tells kernel start delta slots middle after) (absent : slot ∉ slots)
    (same : middle.stays start = before.stays start) :
    Tells kernel start delta (slot :: slots) before after := by
  -- A state whose timer runs in a later slot finds it there as it was before.
  have later (state : UInt16) :
      RunsOut kernel.definition.sections (middle.stays start) middle.inst.timers delta slots
          state ↔
        RunsOut kernel.definition.sections (before.stays start) before.inst.timers delta slots
          state := by
    rw [same]
    refine and_congr_right fun _ => exists_congr fun other => and_congr_right fun listed => ?_
    have differs : other ∉ [slot] := by
      rintro (_ | ⟨_, ⟨⟩⟩)
      exact absent listed
    simp only [first.timers_eq, if_neg differs, Option.map_id']
  constructor
  · intro other
    rw [second.timers_eq, first.timers_eq, Option.map_map]
    congr 1
    funext remaining
    by_cases here : other = slot
    · subst here
      simp [absent]
    · simp [here]
  · intro state runsOut
    rcases RunsOut.cons_iff.1 runsOut with now | soon
    · rw [second.rests state (mt (later state).1 (now.once absent)), first.fires state now]
    · rw [second.fires state ((later state).2 soon),
        first.rests state fun now => now.once absent soon]
  · intro state rests
    rw [RunsOut.cons_iff, not_or] at rests
    rw [second.rests state (mt (later state).1 rests.2), first.rests state rests.1]

end Tells

/-- An armed slot is asked for its owner: that is the active state whose timer runs in it. -/
theorem timerOwner?_owned (wellFormed : kernel.definition.sections.WellFormed)
    (apart : kernel.definition.sections.TimersApart) {active : List UInt16}
    (has : ∀ leaf ∈ active, kernel.definition.sections.Has leaf)
    (matched : Matched kernel start active progress)
    (owned : Owned kernel.definition.sections (progress.stays start) progress.inst.timers)
    {slot : Nat} (small : slot < 65536) {remaining : UInt32}
    (found : progress.inst.timers[slot]? = some remaining) (armed : remaining ≠ 0) :
    Yields (timerOwner? kernel.definition (UInt16.ofNat slot) active) fun answer =>
      ∃ owner, answer = some owner ∧ (progress.stays start).Open owner ∧
        kernel.definition.sections.RunsIn owner slot := by
  obtain ⟨state, isOpen, runs⟩ := owned slot remaining found armed
  have number : (UInt16.ofNat slot).toNat = slot := UInt16.toNat_ofNat_of_lt' small
  apply (timerOwner?_yields wellFormed has _).mono
  intro answer told
  rw [number] at told
  cases answer with
  | none => exact absurd runs (told.2 rfl state ((matched.open_iff state).1 isOpen).2)
  | some owner =>
    obtain ⟨isActive, uses⟩ := told.1 owner rfl
    have reached : owner = rootIndex ∨ (progress.stays start).Open owner :=
      (em (owner = rootIndex)).imp_right fun inner => (matched.open_iff owner).2 ⟨inner, isActive⟩
    obtain ⟨_, _, below⟩ := isActive
    obtain rfl :=
      matched.nested.runsIn_unique wellFormed apart isOpen reached below.has_top runs uses
    exact ⟨owner, rfl, isOpen, runs⟩

/-- The timer of an active state runs out: its steps are traced, and no timer is written
besides. -/
theorem Tells.of_expiry (wellFormed : kernel.definition.sections.WellFormed)
    (apart : kernel.definition.sections.TimersApart)
    (spares : kernel.dispatch.Preserves Instance.timers)
    (nested : (before.stays start).Nested kernel.definition.sections) {slot : Nat} {owner : UInt16}
    {remaining : UInt32} {inst : Instance} {acted : Progress User}
    (isOpen : (before.stays start).Open owner) (runs : kernel.definition.sections.RunsIn owner slot)
    (found : before.inst.timers[slot]? = some remaining) (armed : remaining ≠ 0)
    (enough : remaining ≤ delta) (written : inst.timers = before.inst.timers.set slot 0)
    (ran : kernel.runAction .timer (kernel.definition.sections.record owner).timerAction owner
      ((before.withInst inst).note (.timerFired (UInt16.ofNat slot) owner)) = .ok acted)
    (queued : enqueueOrNote (Event.timer (UInt16.ofNat slot) owner) .normal acted = .ok after) :
    Tells kernel start delta [slot] before after := by
  have slotEq : UInt16.ofNat slot = (kernel.definition.sections.record owner).timerSlot := by
    rw [← runs.slot_eq, UInt16.ofNat_toNat]
  have noticed (state : UInt16) : after.expiries state = before.expiries state ++
      if owner = state then expirySteps kernel.definition (UInt16.ofNat slot) owner else [] := by
    obtain ⟨lost, dropped, grows⟩ := expiry_trace ran queued
    have gone : lost.filter (Trace.Entry.isExpiryOf state) = [] := by
      refine List.filter_eq_nil_iff.2 fun entry listed => ?_
      rw [dropped entry listed]
      exact Bool.false_ne_true
    rw [Progress.expiries, grows, List.filter_append, List.filter_append, gone,
      filter_expirySteps, List.append_nil]
    rfl
  have final : after.inst.timers = before.inst.timers.set slot 0 := by
    have acting : acted.inst.timers = inst.timers :=
      (runAction_preserves spares _ _ _ _).of_eq _ ran
    obtain ⟨accepted, queue, put, rfl⟩ := (enqueueOrNote_yields _ _ _).of_eq _ queued
    have queueing : queue.timers = before.inst.timers.set slot 0 :=
      ((Instance.enqueue_sameSlots _ _).of_eq _ put).timers_eq.trans (acting.trans written)
    split <;> exact queueing
  refine ⟨fun other => ?_, fun state runsOut => ?_, fun state rests => ?_⟩
  · rw [final]
    by_cases same : other = slot
    · subst same
      rw [List.getElem?_set_self', found]
      simp [Stays.waned, UInt32.not_lt.2 enough]
    · rw [List.getElem?_set_ne (Ne.symm same)]
      simp [same]
  · obtain ⟨stateOpen, other, listed, stateRuns, _⟩ := runsOut
    obtain rfl := List.mem_singleton.1 listed
    obtain rfl : state = owner := nested.runsIn_unique wellFormed apart isOpen (.inr stateOpen)
      (nested.child stateOpen).has runs stateRuns
    rw [noticed, if_pos rfl, slotEq]
  · have other : owner ≠ state := by
      rintro rfl
      exact rests ⟨isOpen, slot, List.mem_singleton.2 rfl, runs, remaining, found, armed, enough⟩
    rw [noticed, if_neg other, List.append_nil]

/-- A timer that has not run out leaves nothing in the trace. -/
theorem Tells.of_early {slot : Nat} {remaining : UInt32}
    (found : before.inst.timers[slot]? = some remaining)
    (early : remaining = 0 ∨ delta < remaining) (same : after.trace = before.trace)
    (written : after.inst.timers = before.inst.timers.set slot (waned delta remaining)) :
    Tells kernel start delta [slot] before after := by
  refine ⟨fun other => ?_, fun state runsOut => ?_, fun state _ => ?_⟩
  · rw [written]
    by_cases here : other = slot
    · subst here
      rw [List.getElem?_set_self', found]
      simp
    · rw [List.getElem?_set_ne (Ne.symm here)]
      simp [here]
  · obtain ⟨_, other, listed, _, _, here, armed, enough⟩ := runsOut
    rw [List.mem_singleton.1 listed, found] at here
    cases here
    rcases early with none | more
    · exact absurd none armed
    · exact absurd enough (UInt32.not_le.2 more)
  · rw [Progress.expiries, same]
    rfl

/-- What time does to one slot. -/
theorem Tock.tells {slot : Nat} (tock : Tock kernel delta slot before after)
    (wellFormed : kernel.definition.sections.WellFormed)
    (apart : kernel.definition.sections.TimersApart)
    (spares : kernel.dispatch.Preserves Instance.timers) (small : slot < 65536)
    (underway : Underway pledge kernel idle start before)
    (owned : Owned kernel.definition.sections (before.stays start) before.inst.timers) :
    Tells kernel start delta [slot] before after := by
  obtain ⟨active, holds, _, has, matched⟩ := underway.states wellFormed
  -- Whoever is asked for the owner of an armed slot finds the same leaves.
  have owner {remaining : UInt32} {inst : Instance}
      (found : before.inst.timers[slot]? = some remaining) (armed : remaining ≠ 0)
      (written : before.inst.setTimer slot 0 = .ok inst) :
      inst.timers = before.inst.timers.set slot 0 ∧
        Yields (timerOwner? kernel.definition (UInt16.ofNat slot) inst.activeLeaves) fun answer =>
          ∃ owner, answer = some owner ∧ (before.stays start).Open owner ∧
            kernel.definition.sections.RunsIn owner slot := by
    obtain ⟨_, wrote⟩ := (Instance.setTimer_yields _).of_eq _ written
    have leaves : inst.leaves = before.inst.leaves := by rw [wrote]
    refine ⟨by rw [wrote], ?_⟩
    rw [Instance.activeLeaves_eq (leaves.symm ▸ holds)]
    exact timerOwner?_owned wellFormed apart has matched owned small found armed
  cases tock with
  | unarmed found =>
    refine .of_early found (.inl rfl) rfl ?_
    obtain ⟨inside, here⟩ := List.getElem?_eq_some_iff.1 found
    have same : Stays.waned delta 0 = before.inst.timers[slot] :=
      (if_neg UInt32.not_lt_zero).trans here.symm
    rw [same, List.set_getElem_self]
  | waned found more written =>
    obtain ⟨_, rfl⟩ := (Instance.setTimer_yields _).of_eq _ written
    refine .of_early found (.inr more) rfl ?_
    rw [Stays.waned, if_pos more]
    rfl
  | lapsed found armed enough written asked =>
    obtain ⟨_, none, _⟩ := (owner found armed written).2.of_eq _ asked
    cases none
  | expired found armed enough written asked ran queued =>
    obtain ⟨unwritten, owning⟩ := owner found armed written
    obtain ⟨_, ⟨⟩, isOpen, runs⟩ := owning.of_eq _ asked
    exact .of_expiry wellFormed apart spares matched.nested isOpen runs found armed enough
      unwritten ran queued

namespace Reliable

variable (reliable : Reliable pledge kernel)

include reliable

/-- What passes for one slot leaves the configuration as it is. -/
theorem tock_kept {slot : Nat} (tock : Tock kernel delta slot before after)
    (steady : Steady pledge kernel before) : Kept pledge kernel before after := by
  have writes {value : UInt32} {inst : Instance}
      (written : before.inst.setTimer slot value = .ok inst) :
      Kept pledge kernel before (before.withInst inst) := by
    obtain ⟨_, rfl⟩ := (Instance.setTimer_yields _).of_eq _ written
    exact steady.spare rfl ⟨rfl, fun sound => sound.of_ring_eq rfl, id⟩
  cases tock with
  | unarmed _ => exact steady.refl
  | waned _ _ written => exact writes written
  | lapsed _ _ _ written _ => exact writes written
  | @expired _ inst owner _ _ _ _ _ written _ ran queued =>
    have wrote := writes written
    have noted : Kept pledge kernel before
        ((before.withInst inst).note (.timerFired (UInt16.ofNat slot) owner)) :=
      wrote.trans (wrote.steady.note nofun)
    have acting := (reliable.runAction_returns _ _ _ noted.steady).yields.of_eq _ ran
    have queueing := (acting.steady.enqueueOrNote_returns _ _).yields.of_eq _ queued
    exact (noted.trans acting).trans queueing

theorem tock_underway {slot : Nat} (tock : Tock kernel delta slot before after)
    (underway : Underway pledge kernel idle start before) :
    Underway pledge kernel idle start after := by
  have kept := reliable.tock_kept tock underway.steady
  obtain ⟨active, holds, matched⟩ := underway.exists_matched
  have same : after.stays start = before.stays start := tock.extends.2
  exact ⟨underway.configured.of_kept kept, active, kept.holds holds,
    same.symm ▸ matched.nested, same.symm ▸ matched.open_iff⟩

/-- What time does to some slots. -/
theorem elapses_tells {slots : List Nat} (elapses : Elapses kernel delta slots before after)
    (apart : kernel.definition.sections.TimersApart)
    (spares : kernel.dispatch.Preserves Instance.timers) (once : slots.Nodup)
    (small : ∀ slot ∈ slots, slot < 65536) (underway : Underway pledge kernel idle start before)
    (owned : Owned kernel.definition.sections (before.stays start) before.inst.timers) :
    Tells kernel start delta slots before after := by
  induction elapses with
  | nil => exact .nil
  | @cons slot slots before middle after tock elapses ih =>
    obtain ⟨absent, onceMore⟩ := List.nodup_cons.1 once
    have wellFormed := reliable.sound.wellFormed
    have first := tock.tells wellFormed apart spares (small slot (List.mem_cons_self ..)) underway
      owned
    have same : middle.stays start = before.stays start := tock.extends.2
    have still : Owned kernel.definition.sections (middle.stays start) middle.inst.timers := by
      intro other remaining found armed
      rw [first.timers_eq] at found
      obtain ⟨was, here, rfl⟩ := Option.map_eq_some_iff.1 found
      rw [same]
      refine owned other was here ?_
      split at armed
      · exact Stays.ne_zero_of_waned armed
      · exact armed
    exact first.cons (ih onceMore (fun other later => small other (List.mem_cons_of_mem _ later))
      (reliable.tock_underway tock underway) still) absent same

/-- What time does to the timers of an instance. -/
theorem advanceTimers_tells (delta : UInt32) (apart : kernel.definition.sections.TimersApart)
    (spares : kernel.dispatch.Preserves Instance.timers)
    (underway : Underway pledge kernel idle start progress)
    (owned : Owned kernel.definition.sections (progress.stays start) progress.inst.timers) :
    Yields (kernel.advanceTimers delta progress)
      (Tells kernel start delta (List.range progress.inst.timers.length) progress) := by
  rw [progress.inst.length_timers]
  apply (advanceTimers_yields progress).mono
  rintro after (⟨rfl, rfl⟩ | ⟨_, elapses⟩)
  · -- No time passes, and no timer that is armed runs out.
    refine ⟨fun slot => by simp, fun state runsOut => ?_, fun _ _ => rfl⟩
    obtain ⟨_, _, _, _, _, _, armed, none⟩ := runsOut
    exact absurd (UInt32.le_zero_iff.1 none) armed
  · refine reliable.elapses_tells elapses apart spares List.nodup_range ?_ underway owned
    intro slot listed
    refine Nat.lt_trans (List.mem_range.1 listed) ?_
    cases progress.inst.tier <;> decide

end Reliable

end Kernel

end Statechart
