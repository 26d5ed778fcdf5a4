/-
# Entering goes forward

Entering and settling states leaves no state and writes no history (`Advances`). So while a
path is entered, or a state is settled, every state that is settled on the way finds the
history that was there at the beginning, and the trace so far is part of the trace at the end.
As whatever is called returns if its caller returns (`Runs.callee`), this is known of
every call on the way (`Underneath.callee`).

A state that is settled was entered just before. In an orderly trace it is entered when nothing
below it is active (`Enters.closed`).
-/

import Statechart.Proofs.Kernel.Calls
import Statechart.Proofs.Kernel.Closing
import Statechart.Proofs.Kernel.Countdown

namespace Statechart

open Rom (Sections noIndex rootIndex)

/-- A record of a step that enters and leaves no state is none of leaving. -/
theorem Trace.Entry.Still.ne_exit {entry : Trace.Entry} (still : entry.Still) (state : UInt16) :
    entry ≠ .exit state := by
  rintro rfl
  exact still

/-- A state saves its history in a slot when it is left. -/
def Rom.Sections.SavesIn (sections : Sections) (slot : Nat) (state : UInt16) : Prop :=
  (sections.record state).flags.history = true ∧
    (sections.record state).historySlot.toNat = slot

namespace Kernel

open Stays (Nested)
open Rom (StateRecord)

variable {User : Type} {kernel : Kernel User} {start : Stays}
  {progress before middle after : Progress User} {settle : Settle User} {state : UInt16}

/-- No state is entered or left, and no history is written. -/
structure Idles (before after : Progress User) : Prop where
  history_eq : after.inst.history = before.inst.history
  exists_still : ∃ more, after.trace.toList = before.trace.toList ++ more ∧
    ∀ entry ∈ more, entry.Still

/-- No state is left, and no history is written. -/
structure Advances (before after : Progress User) : Prop where
  history_eq : after.inst.history = before.inst.history
  exists_added : ∃ added, after.trace.toList = before.trace.toList ++ added ∧
    ∀ state, .exit state ∉ added

namespace Idles

theorem advances (idles : Idles before after) : Advances before after := by
  obtain ⟨history, more, grows, still⟩ := idles
  exact ⟨history, more, grows, fun state listed => (still _ listed).ne_exit state rfl⟩

theorem untraced (history : after.inst.history = before.inst.history)
    (trace : after.trace = before.trace) : Idles before after :=
  ⟨history, [], by rw [trace, List.append_nil], List.forall_mem_nil _⟩

theorem stays_eq (idles : Idles before after) : after.stays start = before.stays start := by
  obtain ⟨-, more, grows, still⟩ := idles
  rw [Progress.stays, grows, Stays.replay_append, Stays.replay_of_still still]
  rfl

theorem trans (first : Idles before middle) (second : Idles middle after) :
    Idles before after where
  history_eq := second.history_eq.trans first.history_eq
  exists_still := by
    obtain ⟨more, grows, still⟩ := first.exists_still
    obtain ⟨others, growsOn, stillOn⟩ := second.exists_still
    exact ⟨more ++ others, by rw [growsOn, grows, List.append_assoc],
      List.forall_mem_append.2 ⟨still, stillOn⟩⟩

end Idles

namespace Advances

theorem refl (progress : Progress User) : Advances progress progress :=
  (Idles.untraced rfl rfl).advances

theorem trans (first : Advances before middle) (second : Advances middle after) :
    Advances before after where
  history_eq := second.history_eq.trans first.history_eq
  exists_added := by
    obtain ⟨added, grows, stays⟩ := first.exists_added
    obtain ⟨more, growsOn, staysOn⟩ := second.exists_added
    refine ⟨added ++ more, by rw [growsOn, grows, List.append_assoc], fun state listed => ?_⟩
    exact (List.mem_append.1 listed).elim (stays state) (staysOn state)

end Advances

/-- A state was entered. No other was entered or left, and no history was written. -/
structure Enters (state : UInt16) (before after : Progress User) : Prop where
  history_eq : after.inst.history = before.inst.history
  exists_still : ∃ more, after.trace.toList = before.trace.toList ++ .enter state :: more ∧
    ∀ entry ∈ more, entry.Still

namespace Enters

theorem advances (enters : Enters state before after) : Advances before after := by
  obtain ⟨history, more, grows, still⟩ := enters
  refine ⟨history, _, grows, fun other listed => ?_⟩
  rcases List.mem_cons.1 listed with same | later
  · cases same
  · exact (still _ later).ne_exit other rfl

theorem trans_idles (enters : Enters state before middle) (idles : Idles middle after) :
    Enters state before after where
  history_eq := idles.history_eq.trans enters.history_eq
  exists_still := by
    obtain ⟨more, grows, still⟩ := enters.exists_still
    obtain ⟨others, growsOn, stillOn⟩ := idles.exists_still
    refine ⟨more ++ others, ?_, List.forall_mem_append.2 ⟨still, stillOn⟩⟩
    rw [growsOn, grows, List.append_assoc, List.cons_append]

/-- The state is active now, beside those that were. -/
theorem open_iff (enters : Enters state before after) (other : UInt16) :
    (after.stays start).Open other ↔ (before.stays start).Open other ∨ other = state := by
  obtain ⟨-, more, grows, still⟩ := enters
  rw [Progress.stays, grows, Stays.replay_append]
  show (((before.stays start).step (.enter state)).replay more).Open other ↔ _
  rw [Stays.replay_of_still still, Stays.open_enter]

/-- In an orderly trace, nothing was active below a state that was just entered. -/
theorem closed (enters : Enters state before after)
    (nested : Nested kernel.definition.sections (progress.stays start))
    (since : Advances progress before) (onward : Advances after middle)
    (orderly : ∃ more, middle.trace.toList = progress.trace.toList ++ more ∧
      (progress.stays start).Orderly kernel.definition.sections more)
    {inner : UInt16} (beneath : kernel.definition.sections.Beneath state inner)
    (proper : inner ≠ state) : ¬ (after.stays start).Open inner := by
  obtain ⟨more, whole, inOrder⟩ := orderly
  obtain ⟨-, earlier, grows, -⟩ := since
  obtain ⟨-, still, entered, -⟩ := id enters
  obtain ⟨-, later, growsOn, -⟩ := onward
  rw [growsOn, entered, grows, List.append_assoc, List.append_assoc,
    List.append_cancel_left_eq] at whole
  subst whole
  obtain ⟨first, second⟩ := Stays.orderly_append.1 inOrder
  have reached : before.stays start = (progress.stays start).replay earlier := by
    rw [Progress.stays, grows, Stays.replay_append]
    rfl
  have enterable : (before.stays start).Enterable kernel.definition.sections state :=
    reached ▸ second.1
  have stillNested : Nested kernel.definition.sections (before.stays start) :=
    reached ▸ nested.replay first
  rw [enters.open_iff]
  rintro (early | same)
  · exact enterable.closed (stillNested.open_of_beneath beneath early enterable.ne_root)
  · exact proper same

end Enters

/-- Arming a timer comes right after a state was entered. -/
theorem armTimer_enters (state : UInt16) (record : StateRecord) (progress : Progress User) :
    Yields (armTimer state record (progress.note (.enter state))) (Enters state progress) := by
  have noted : (progress.note (.enter state)).trace.toList =
      progress.trace.toList ++ [.enter state] := Array.toList_push
  apply (armTimer_yields _ _ _).mono
  rintro after (⟨_, rfl⟩ | ⟨_, inst, written, rfl⟩)
  · exact ⟨rfl, [], noted, List.forall_mem_nil _⟩
  · obtain ⟨_, rfl⟩ := (Instance.setTimer_yields _).of_eq _ written
    refine ⟨rfl, [.timerArmed record.timerSlot state (max record.timerMs 1)], ?_,
      List.forall_mem_singleton.2 trivial⟩
    refine Array.toList_push.trans ?_
    exact (congrArg (· ++ [_]) noted).trans (List.append_assoc ..)

theorem addLeaf_idles (state : UInt16) (progress : Progress User) :
    Yields (addLeaf state progress) (Idles progress) := by
  apply (addLeaf_yields _ _).mono
  rintro after (⟨slot, inst, _, written, rfl⟩ | ⟨_, rfl⟩)
  · obtain ⟨_, rfl⟩ := (Instance.setLeaf_yields _).of_eq _ written
    exact .untraced rfl rfl
  · exact ⟨rfl, [_], Array.toList_push, List.forall_mem_singleton.2 trivial⟩

theorem foldlM_advances {Entry : Type} {step : Progress User → Entry → Except Fault (Progress User)}
    (each : ∀ progress entry, Yields (step progress entry) (Advances progress))
    (entries : List Entry) (progress : Progress User) :
    Yields (entries.foldlM step progress) (Advances progress) :=
  .foldlM_keeps (fun entry middle _ reached =>
    (each middle entry).mono fun _ more => reached.trans more) (.refl progress)

/-! ### Entering and settling -/

/-- `settle` leaves no state and writes no history. -/
def Advancing (settle : Settle User) : Prop :=
  ∀ state progress, Yields (settle state progress) (Advances progress)

section

variable (spares : kernel.dispatch.Preserves Instance.history)

include spares

theorem runAction_idles (cause : Trace.Cause) (action state : UInt16) (progress : Progress User) :
    Yields (kernel.runAction cause action state progress) (Idles progress) := by
  apply ((runAction_preserves spares _ _ _ _).and (runAction_yields _ _ _ _)).mono
  rintro after ⟨history, grows, -⟩
  refine ⟨history, _, grows, fun entry listed => ?_⟩
  split at listed
  · cases listed
  · rw [List.mem_singleton.1 listed]
    trivial

theorem enterState_enters (state : UInt16) (progress : Progress User) :
    Yields (kernel.enterState state progress) (Enters state progress) := by
  unfold enterState
  apply (Yields.self _).bind
  intro record _
  apply (armTimer_enters state record progress).bind
  intro armed enters
  exact (runAction_idles spares _ _ _ armed).mono fun _ => enters.trans_idles

theorem enterAndSettle_advances (settles : Advancing settle) :
    Advancing (kernel.enterAndSettle settle) := by
  intro state progress
  apply (enterState_enters spares state progress).bind
  intro entered enters
  exact (settles state entered).mono fun _ more => enters.advances.trans more

theorem enterBeside_advances (settles : Advancing settle) {next : UInt16} {rest : List UInt16}
    (path : ∀ progress, Yields (kernel.enterPath settle (next :: rest) progress)
      (Advances progress)) (progress : Progress User) (child : UInt16) :
    Yields (kernel.enterBeside settle next rest progress child) (Advances progress) := by
  unfold enterBeside
  split
  · exact path progress
  · exact enterAndSettle_advances spares settles child progress

theorem enterPath_advances (settles : Advancing settle) (path : List UInt16)
    (progress : Progress User) : Yields (kernel.enterPath settle path progress)
      (Advances progress) := by
  induction path generalizing progress with
  | nil => exact .ok (.refl progress)
  | cons state rest ih =>
    cases rest with
    | nil => exact enterAndSettle_advances spares settles state progress
    | cons next rest =>
      rw [enterPath_cons_cons]
      apply (enterState_enters spares state progress).bind
      intro entered enters
      apply (Yields.self _).bind
      intro record _
      split
      · have beside := enterBeside_advances spares settles ih
        exact (foldlM_advances beside _ entered).mono fun _ => enters.advances.trans
      · exact (ih entered).mono fun _ => enters.advances.trans

theorem descendBy_advances (settles : Advancing settle) :
    Advancing (kernel.descendBy settle) := by
  intro state progress
  unfold descendBy
  apply (Yields.self _).bind
  intro record _
  split
  · exact (addLeaf_idles state progress).mono fun _ => Idles.advances
  · split
    · exact foldlM_advances
        (fun progress child => enterAndSettle_advances spares settles child progress) _ progress
    · apply (Yields.self _).bind
      intro named _
      cases named with
      | none => exact enterAndSettle_advances spares settles _ progress
      | some saved =>
        simp only [enterNamed]
        split
        · exact (Yields.self _).bind fun path _ =>
            enterPath_advances spares settles path progress
        · exact enterAndSettle_advances spares settles saved progress

theorem descend_advances : Advancing kernel.descend := by
  show Advancing (kernel.descendFrom maxLevels)
  generalize maxLevels = levels
  induction levels with
  | zero => exact fun _ _ => .error
  | succ levels ih => exact descendBy_advances spares ih

end

/-! ### Between the transitions -/

section

variable (spares : kernel.dispatch.Preserves Instance.history)

include spares

omit spares in
/-- Leaving a state writes no slot but the one that it saves its history in. -/
theorem remember_slot {slot : Nat} {inst : Instance}
    (apart : ¬ kernel.definition.sections.SavesIn slot state) :
    Yields (kernel.remember state (kernel.definition.sections.record state) inst) fun after =>
      after.history[slot]? = inst.history[slot]? := by
  unfold remember
  split
  · next remembers =>
    have elsewhere : (kernel.definition.sections.record state).historySlot.toNat ≠ slot :=
      fun same => apart ⟨(Bool.and_eq_true_iff.1 remembers).1, same⟩
    apply (Yields.self _).bind
    intro named _
    cases named with
    | none => exact .pure rfl
    | some saved =>
      apply (Instance.setHistory_yields saved).mono
      rintro _ ⟨-, rfl⟩
      exact List.getElem?_set_ne elsewhere
  · exact .ok rfl

/-- A history slot is only written where a state is left that saves its history there. -/
theorem Step.slots_eq {first second : Stage User} (step : Step kernel start first second) :
    ∃ more, second.progress.trace.toList = first.progress.trace.toList ++ more ∧ ∀ slot : Nat,
      (∀ state, kernel.definition.sections.SavesIn slot state → .exit state ∉ more) →
        second.progress.inst.history[slot]? = first.progress.inst.history[slot]? := by
  have unwritten {before after : Instance} (same : after.history = before.history) (slot : Nat) :
      after.history[slot]? = before.history[slot]? := by rw [same]
  cases step with
  | called touches same =>
    exact ⟨[], by rw [same, List.append_nil], fun slot _ => unwritten (spares _ _ touches) slot⟩
  | noted _ => exact ⟨[_], Array.toList_push, fun _ _ => rfl⟩
  | paced _ _ => exact ⟨[], (List.append_nil _).symm, fun _ _ => rfl⟩
  | taken taken _ =>
    exact ⟨[_], Array.toList_push, fun slot _ =>
      unwritten (Instance.dequeue_sameSlots.of_eq _ taken).history_eq slot⟩
  | @putBack _ _ progress after inst taken _ queued =>
    obtain ⟨accepted, queue, put, rfl⟩ := (enqueueOrNote_yields _ _ _).of_eq _ queued
    have same : queue.history = progress.inst.history :=
      ((Instance.enqueue_sameSlots _ _).of_eq _ put).history_eq.trans
        (Instance.dequeue_sameSlots.of_eq _ taken).history_eq
    split
    · exact ⟨[], (List.append_nil _).symm, fun slot _ => unwritten same slot⟩
    · exact ⟨[_], Array.toList_push, fun slot _ => unwritten same slot⟩
  | fired _ => exact ⟨[_], Array.toList_push, fun _ _ => rfl⟩
  | entered _ armed =>
    obtain ⟨history, added, grows, -⟩ := ((armTimer_enters _ _ _).of_eq _ armed).advances
    exact ⟨added, grows, fun slot _ => unwritten history slot⟩
  | left _ remembered disarmed =>
    refine ⟨[_], Array.toList_push, fun slot stays => ?_⟩
    have apart := fun saves => stays _ saves (List.mem_singleton_self _)
    have saved := (remember_slot apart).of_eq _ remembered
    rcases (disarm_yields _ _).of_eq _ disarmed with ⟨-, rfl⟩ | ⟨-, -, rfl⟩ <;> exact saved
  | seated added =>
    obtain ⟨history, more, grows, -⟩ := (addLeaf_idles _ _).of_eq _ added
    exact ⟨more, grows, fun slot _ => unwritten history slot⟩
  | vacated _ => exact ⟨[], (List.append_nil _).symm, fun _ _ => rfl⟩
  | contained => exact ⟨[_], Array.toList_push, fun _ _ => rfl⟩

theorem Path.slots_eq {first second : Stage User} (path : Path kernel start first second) :
    ∃ more, second.progress.trace.toList = first.progress.trace.toList ++ more ∧ ∀ slot : Nat,
      (∀ state, kernel.definition.sections.SavesIn slot state → .exit state ∉ more) →
        second.progress.inst.history[slot]? = first.progress.inst.history[slot]? := by
  induction path with
  | refl => exact ⟨[], (List.append_nil _).symm, fun _ _ => rfl⟩
  | tail _ step ih =>
    obtain ⟨more, grows, same⟩ := ih
    obtain ⟨others, growsOn, sameOn⟩ := step.slots_eq spares
    refine ⟨more ++ others, by rw [growsOn, grows, List.append_assoc], fun slot none => ?_⟩
    have later := sameOn slot fun state saves listed =>
      none state saves (List.mem_append_right _ listed)
    exact later.trans (same slot fun state saves listed =>
      none state saves (List.mem_append_left _ listed))

theorem Quiet.idles (quiet : Quiet kernel start before after) : Idles before after := by
  obtain ⟨more, grows, still⟩ := quiet.exists_still
  obtain ⟨others, growsToo, same⟩ := (quiet.path .completion).slots_eq spares
  obtain rfl := List.append_cancel_left (grows.symm.trans growsToo)
  have history : after.inst.history = before.inst.history := List.ext_getElem? fun slot =>
    same slot fun state _ listed => (still _ listed).ne_exit state rfl
  exact ⟨history, more, grows, still⟩

theorem Tock.idles {delta : UInt32} {slot : Nat} (tock : Tock kernel delta slot before after) :
    Idles before after := by
  refine ⟨?_, tock.exists_still⟩
  have written {value : UInt32} {inst : Instance}
      (wrote : before.inst.setTimer slot value = .ok inst) :
      inst.history = before.inst.history := by
    obtain ⟨_, rfl⟩ := (Instance.setTimer_yields _).of_eq _ wrote
    rfl
  cases tock with
  | unarmed _ => rfl
  | waned _ _ wrote => exact written wrote
  | lapsed _ _ _ wrote _ => exact written wrote
  | @expired _ inst _ acted _ _ _ _ wrote _ ran queued =>
    have acting : acted.inst.history = inst.history :=
      (runAction_preserves spares _ _ _ _).of_eq _ ran
    obtain ⟨accepted, queue, put, rfl⟩ := (enqueueOrNote_yields _ _ _).of_eq _ queued
    have queueing : queue.history = inst.history :=
      ((Instance.enqueue_sameSlots _ _).of_eq _ put).history_eq.trans acting
    split <;> exact queueing.trans (written wrote)

theorem Elapses.idles {delta : UInt32} {slots : List Nat}
    (elapses : Elapses kernel delta slots before after) : Idles before after := by
  induction elapses with
  | nil => exact .untraced rfl rfl
  | cons tock _ ih => exact (tock.idles spares).trans ih

theorem advanceTimers_idles (delta : UInt32) (progress : Progress User) :
    Yields (kernel.advanceTimers delta progress) (Idles progress) := by
  apply (advanceTimers_yields progress).mono
  rintro after (⟨_, rfl⟩ | ⟨_, elapses⟩)
  · exact .untraced rfl rfl
  · exact elapses.idles spares

end

/-! ### What is called on the way -/

/-- A path is entered, or a state is settled, from one moment to another. -/
inductive Runs (kernel : Kernel User) : Call User → Progress User → Progress User → Prop
  | enter {path : List UInt16} {before after : Progress User} :
      kernel.enterPath kernel.descend path before = .ok after →
      Runs kernel (.enter path before) before after
  | settle {state : UInt16} {before after : Progress User} :
      kernel.descend state before = .ok after → Runs kernel (.settle state before) before after

/-- What is called on the way from one moment to another returns before the second one, and a
state is settled right after it was entered. -/
inductive Underneath (kernel : Kernel User) (before after : Progress User) : Call User → Prop
  | enter {path : List UInt16} {first last : Progress User} :
      Runs kernel (.enter path first) first last → Advances before first → Advances last after →
      Underneath kernel before after (.enter path first)
  | settle {state : UInt16} {outside first last : Progress User} :
      Runs kernel (.settle state first) first last → Advances before outside →
      Enters state outside first → Advances last after →
      Underneath kernel before after (.settle state first)

theorem Underneath.widen {call : Call User} {first last : Progress User}
    (underneath : Underneath kernel first last call) (since : Advances before first)
    (onward : Advances last after) : Underneath kernel before after call := by
  cases underneath with
  | enter runs earlier later => exact .enter runs (since.trans earlier) (later.trans onward)
  | settle runs earlier enters later =>
    exact .settle runs (since.trans earlier) enters (later.trans onward)

section

variable (spares : kernel.dispatch.Preserves Instance.history)

include spares

/-- A state that is entered and settled, on the way from one moment to another. -/
theorem underneath_of_enterAndSettle {inside next : Progress User}
    (settled : kernel.enterAndSettle kernel.descend state middle = .ok next)
    (entered : kernel.enterState state middle = .ok inside)
    (since : Advances before middle) (onward : Advances next after) :
    Underneath kernel before after (.settle state inside) := by
  have enters := (enterState_enters spares state middle).of_eq _ entered
  rw [enterAndSettle, entered, ok_bind] at settled
  exact .settle (.settle settled) since enters onward

/-- What is called by a part of a tick that returns has returned, too. -/
theorem Runs.callee {call callee : Call User} (runs : Runs kernel call before after)
    (calls : kernel.Calls call callee) : Underneath kernel before after callee := by
  have descends := descend_advances spares
  have entering := enterAndSettle_advances spares descends
  have beside (next : UInt16) (rest : List UInt16) (progress : Progress User) (child : UInt16) :
      Yields (kernel.enterBeside kernel.descend next rest progress child) (Advances progress) :=
    enterBeside_advances spares descends (enterPath_advances spares descends _) progress child
  cases runs with
  | enter ran =>
    cases calls with
    | last entered =>
      exact underneath_of_enterAndSettle spares ran entered (.refl _) (.refl _)
    | onward entered known serial =>
      have enters := (enterState_enters spares _ _).of_eq _ entered
      rw [enterPath_cons_cons, entered, ok_bind, known, ok_bind, serial] at ran
      exact .enter (.enter ran) enters.advances (.refl _)
    | through entered known parallel words reached =>
      have enters := (enterState_enters spares _ _).of_eq _ entered
      rw [enterPath_cons_cons, entered, ok_bind, known, ok_bind, if_pos parallel, words] at ran
      obtain ⟨next, turn, rest⟩ := Yields.exists_of_foldlM ran reached
      rw [enterBeside, if_pos rfl] at turn
      have since := (foldlM_advances (beside _ _) _ _).of_eq _ reached
      exact .enter (.enter turn) (enters.advances.trans since)
        ((foldlM_advances (beside _ _) _ _).of_eq _ rest)
    | beside entered known parallel words other reached inside =>
      have enters := (enterState_enters spares _ _).of_eq _ entered
      rw [enterPath_cons_cons, entered, ok_bind, known, ok_bind, if_pos parallel, words] at ran
      obtain ⟨next, turn, rest⟩ := Yields.exists_of_foldlM ran reached
      rw [enterBeside, if_neg other] at turn
      have since := (foldlM_advances (beside _ _) _ _).of_eq _ reached
      exact underneath_of_enterAndSettle spares turn inside (enters.advances.trans since)
        ((foldlM_advances (beside _ _) _ _).of_eq _ rest)
  | settle ran =>
    have ran := (descend_yields _ _).of_eq _ ran
    cases calls with
    | region known inner parallel words reached inside =>
      rw [descendBy, known, ok_bind, if_neg (Bool.eq_false_iff.1 inner), if_pos parallel,
        words] at ran
      obtain ⟨next, turn, rest⟩ := Yields.exists_of_foldlM ran reached
      have each (progress : Progress User) (child : UInt16) := entering child progress
      exact underneath_of_enterAndSettle spares turn inside
        ((foldlM_advances each _ _).of_eq _ reached) ((foldlM_advances each _ _).of_eq _ rest)
    | initial known inner serial restores entered =>
      rw [descendBy_of_restorable? known inner serial restores] at ran
      exact underneath_of_enterAndSettle spares ran entered (.refl _) (.refl _)
    | shallow known inner serial restores shallow entered =>
      rw [descendBy_of_restorable? known inner serial restores, enterNamed,
        if_neg (Bool.eq_false_iff.1 shallow)] at ran
      exact underneath_of_enterAndSettle spares ran entered (.refl _) (.refl _)
    | deep known inner serial restores deep path =>
      rw [descendBy_of_restorable? known inner serial restores, enterNamed, if_pos deep, path,
        ok_bind] at ran
      exact .enter (.enter ran) (.refl _) (.refl _)

/-- So it is with whatever is called from there. -/
theorem Underneath.callee {call callee : Call User}
    (underneath : Underneath kernel before after call) (calls : kernel.Calls call callee) :
    Underneath kernel before after callee := by
  cases underneath with
  | enter runs since onward => exact (runs.callee spares calls).widen since onward
  | settle runs since enters onward =>
    exact (runs.callee spares calls).widen (since.trans enters.advances) onward

end

end Kernel

end Statechart
