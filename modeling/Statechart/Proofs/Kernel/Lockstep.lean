/-
# Lockstep

Two hosts let machines of one definition run. `Mirrors` says what two instances that are alike
have in common, as far as a tick can tell: the same leaves are active, the same timers run, and
what the one does with its slots and its queue the other one does with its own. `Lockstep` says
that the callbacks of the hosts keep this up. Then so does every part of a tick that callbacks
are called from: the choice of a transition, and entering and leaving states.

The second instance may have more slots than the first one; those have to be empty. What the
first one has to refuse for want of room shows in its trace. So the two are only compared as long
as what was traced is good.
-/

import Statechart.Proofs.Kernel.Ledger
import Statechart.Proofs.Tracks

namespace Statechart

/-- A step of which no callback is a part. -/
def Trace.Entry.Uncalled : Trace.Entry → Prop
  | .action .. | .activity .. | .guard .. => False
  | _ => True

/-- The action that is run in a step. -/
def Trace.Entry.action? : Trace.Entry → Option UInt16
  | .action _ id _ => some id
  | .activity id _ => some id
  | _ => none

/-- A transition that was looked up is in the table. -/
theorem Rom.Definition.transition_yields (definition : Rom.Definition) (index : Nat) :
    Yields (definition.transition index) fun transition =>
      transition ∈ definition.sections.transitions := by
  unfold transition entry
  split
  · next found => exact .ok (Array.mem_of_getElem? found)
  · exact .error

namespace Kernel

open Rom (Definition StateRecord TransitionRecord noIndex rootIndex)

variable {User Other : Type}

/-- A transition is in one of the tables of a definition. -/
abbrev Tabled (definition : Definition) (transition : TransitionRecord) : Prop :=
  transition ∈ definition.sections.globals ∨ transition ∈ definition.sections.transitions

/-- A callback is called where the tables of the definition name it. -/
inductive Sited (definition : Definition) : Trace.Entry → Prop
  | entry {state : UInt16} : definition.sections.Has state →
      (definition.sections.record state).entryAction ≠ Name.noId →
      Sited definition (.action .entry (definition.sections.record state).entryAction state)
  | exit {state : UInt16} : definition.sections.Has state →
      (definition.sections.record state).exitAction ≠ Name.noId →
      Sited definition (.action .exit (definition.sections.record state).exitAction state)
  | timer {state : UInt16} : definition.sections.Has state →
      (definition.sections.record state).timerAction ≠ Name.noId →
      Sited definition (.action .timer (definition.sections.record state).timerAction state)
  | activity {state : UInt16} : definition.sections.Has state →
      (definition.sections.record state).activityAction ≠ Name.noId →
      Sited definition (.activity (definition.sections.record state).activityAction state)
  | effect {transition : TransitionRecord} : Tabled definition transition →
      transition.action ≠ Name.noId →
      Sited definition (.action .effect transition.action transition.source)
  | guard {transition : TransitionRecord} {passed : Bool} : Tabled definition transition →
      transition.guard ≠ Name.noId →
      Sited definition (.guard transition.guard transition.event passed)

/-- All that was traced is good. -/
def Clean (good : Trace.Entry → Prop) (progress : Progress User) : Prop :=
  ∀ entry ∈ progress.trace, good entry

/-- What was good in the end was good before. -/
theorem Grows.clean {good : Trace.Entry → Prop} {before after : Progress User}
    (grows : Grows before after) (clean : Clean good after) : Clean good before :=
  fun entry traced => clean entry (Array.mem_toList_iff.1
    (grows.subset (Array.mem_toList_iff.2 traced)))

theorem Moves.clean {kernel : Kernel User} {good : Trace.Entry → Prop}
    {before after : Progress User} (moves : Moves kernel before after)
    (clean : Clean good after) : Clean good before :=
  moves.grows.clean clean

theorem Errands.clean {kernel : Kernel User} {good : Trace.Entry → Prop}
    {before after : Progress User} (errands : Errands kernel before after)
    (clean : Clean good after) : Clean good before :=
  errands.moves.clean clean

theorem Clean.last {good : Trace.Entry → Prop} {progress : Progress User} {entry : Trace.Entry}
    (clean : Clean good (progress.note entry)) : good entry :=
  clean entry (Array.mem_push_self)

/-- The same kernel with the callbacks of another host. -/
def withDispatch (kernel : Kernel User) (dispatch : Dispatch Other) : Kernel Other where
  definition := kernel.definition
  dispatch := dispatch
  limits := kernel.limits

/-! ### Climbing side by side -/

section Climbing

variable {definition : Definition} {Found Answer : Type} {clean : Found → Prop}
  {pairs : Found → Answer → Prop} {done : UInt16 → Found → Except Fault Bool}
  {visit : UInt16 → StateRecord → Found → Except Fault Found}
  {doneOther : UInt16 → Answer → Except Fault Bool}
  {visitOther : UInt16 → StateRecord → Answer → Except Fault Answer}

/-- A climb does not clean up if no visit does. -/
theorem climbFrom_honest
    (honest : ∀ state record found,
      Yields (visit state record found) fun after => clean after → clean found)
    (steps : Nat) (state : UInt16) (found : Found) :
    Yields (climbFrom definition done visit steps state found) fun after =>
      clean after → clean found := by
  induction steps generalizing state found with
  | zero =>
    unfold climbFrom
    split
    · exact .pure id
    · apply (Yields.self _).bind
      intro stop _
      cases stop with
      | true => exact .pure id
      | false => exact .error
  | succ steps ih =>
    unfold climbFrom
    split
    · exact .pure id
    · apply (Yields.self _).bind
      intro stop _
      cases stop with
      | true => exact .pure id
      | false =>
        apply (Yields.self _).bind
        intro record _
        apply (honest state record found).bind
        intro visited earlier
        exact (ih record.parent visited).mono fun _ later last => earlier (later last)

/-- Two climbs that ask the same and whose visits track each other. -/
theorem climb_tracks
    (honest : ∀ state record found,
      Yields (visit state record found) fun after => clean after → clean found)
    (asks : ∀ state found answer, pairs found answer →
      Yields (done state found) fun stop => doneOther state answer = .ok stop)
    (visits : ∀ state found answer, definition.sections.Has state → pairs found answer →
      Tracks clean pairs (visit state (definition.sections.record state) found)
        (visitOther state (definition.sections.record state) answer))
    {state : UInt16} {found : Found} {answer : Answer} (begins : pairs found answer) :
    Tracks clean pairs (climb definition state done visit found)
      (climb definition state doneOther visitOther answer) := by
  unfold climb
  generalize definition.stateCount + 1 = steps
  induction steps generalizing state found answer with
  | zero =>
    unfold climbFrom
    split
    · exact .pure fun _ => begins
    · refine .read (asks state found answer begins) fun stop _ => ?_
      cases stop with
      | true => exact .pure fun _ => begins
      | false => exact .error
  | succ steps ih =>
    unfold climbFrom
    split
    · exact .pure fun _ => begins
    · refine .read (asks state found answer begins) fun stop _ => ?_
      cases stop with
      | true => exact .pure fun _ => begins
      | false =>
        refine .read (.self _) fun record looked => ?_
        obtain ⟨has, rfl⟩ := (definition.state_yields state).of_eq _ looked
        have visiting := visits state found answer has begins
        exact visiting.bind (climbFrom_honest honest _ _) fun _ _ => ih

end Climbing

/-! ### Instances that are alike -/

/-- Instances that are alike look alike to a tick, and stay so when it writes to both. The second
one can have more slots for leaves and timers, which are empty. -/
structure Mirrors (good : Trace.Entry → Prop) (like : Instance → Instance → Prop)
    (moreLeaves moreTimers : List Nat) : Prop where
  phase {small large : Instance} : like small large → large.phase? = small.phase?
  activeLeaves {small large : Instance} : like small large →
    large.activeLeaves = small.activeLeaves
  queueIsEmpty {small large : Instance} : like small large →
    large.queueIsEmpty = small.queueIsEmpty
  leafRange {small large : Instance} : like small large →
    List.range large.tier.leafCapacity = List.range small.tier.leafCapacity ++ moreLeaves
  timerRange {small large : Instance} : like small large →
    List.range large.tier.timerCapacity = List.range small.tier.timerCapacity ++ moreTimers
  leaf {small large : Instance} (slot : Nat) : like small large →
    Yields (small.leaf slot) fun leaf => large.leaf slot = .ok leaf
  leafBeyond {small large : Instance} {slot : Nat} : like small large → slot ∈ moreLeaves →
    large.leaf slot = .ok noIndex
  timer {small large : Instance} (slot : Nat) : like small large →
    Yields (small.timer slot) fun remaining => large.timer slot = .ok remaining
  timerBeyond {small large : Instance} {slot : Nat} : like small large → slot ∈ moreTimers →
    large.timer slot = .ok 0
  historyAt {small large : Instance} (slot : Nat) : like small large →
    Yields (small.historyAt slot) fun saved => large.historyAt slot = .ok saved
  setTimer {small large : Instance} (slot : Nat) (remaining : UInt32) : like small large →
    Tracks (fun _ => True) like (small.setTimer slot remaining) (large.setTimer slot remaining)
  setHistory {small large : Instance} (slot : Nat) (saved : UInt16) : like small large →
    Tracks (fun _ => True) like (small.setHistory slot saved) (large.setHistory slot saved)
  /-- There is room for another leaf. -/
  seat {small large : Instance} {slot : Nat} (state : UInt16) : like small large →
    small.leaves.findIdx? (fun leaf => leaf == noIndex) = some slot →
    large.leaves.findIdx? (fun leaf => leaf == noIndex) = some slot ∧
      Tracks (fun _ => True) like (small.setLeaf slot state) (large.setLeaf slot state)
  /-- There is no room for another leaf. -/
  full {small large : Instance} {state : UInt16} : like small large →
    small.leaves.findIdx? (fun leaf => leaf == noIndex) = none → good (.leafOverflow state) →
    large.leaves.findIdx? (fun leaf => leaf == noIndex) = none ∧
      like { small with status := { small.status with leafOverflow := true } }
        { large with status := { large.status with leafOverflow := true } }
  withActiveLeaves {small large : Instance} {active : List UInt16} : like small large →
    active.length ≤ small.activeLeaves.length →
    like (small.withActiveLeaves active) (large.withActiveLeaves active)
  withPhase {small large : Instance} (phase : Phase) : like small large →
    like (small.withPhase phase) (large.withPhase phase)
  withSteps {small large : Instance} (microStep : UInt8) : like small large →
    like { small with microStep } { large with microStep }
  /-- The configuration is dropped. -/
  dropped {small large : Instance} : like small large →
    like { small.clearLeaves.clearTimers with
        status := { small.status with rtcOverflow := true } }
      { large.clearLeaves.clearTimers with status := { large.status with rtcOverflow := true } }
  dequeue {small large : Instance} : like small large →
    Tracks (fun _ => True) (fun answer other => other.1 = answer.1 ∧ like answer.2 other.2)
      small.dequeue large.dequeue
  enqueue {small large : Instance} (event : Event) {priority : Priority} : like small large →
    priority ≠ .interrupt →
    Tracks (fun answer => answer.1 = false → good (.eventDropped event.id))
      (fun answer other => other.1 = answer.1 ∧ like answer.2 other.2)
      (small.enqueue event priority) (large.enqueue event priority)
  /-- An event that was taken is put back with other flags. -/
  requeue {small large left leftOver : Instance} {event : Event} (flags : EventFlags) :
    like small large → small.dequeue = .ok (some event, left) →
    large.dequeue = .ok (some event, leftOver) → like left leftOver →
    Tracks (fun answer => answer.1 = false → good (.eventDropped event.id))
      (fun answer other => other.1 = answer.1 ∧ like answer.2 other.2)
      (left.enqueue { event with flags } event.priority)
      (leftOver.enqueue { event with flags } event.priority)

/-- Every instance is like itself. -/
theorem mirrors_eq (good : Trace.Entry → Prop) : Mirrors good Eq [] [] where
  phase := by rintro _ _ rfl; rfl
  activeLeaves := by rintro _ _ rfl; rfl
  queueIsEmpty := by rintro _ _ rfl; rfl
  leafRange := by rintro _ _ rfl; exact (List.append_nil _).symm
  timerRange := by rintro _ _ rfl; exact (List.append_nil _).symm
  leaf slot := by rintro rfl; exact .self _
  leafBeyond _ := nofun
  timer slot := by rintro rfl; exact .self _
  timerBeyond _ := nofun
  historyAt slot := by rintro rfl; exact .self _
  setTimer slot remaining := by rintro rfl; exact ⟨fun after ran _ => ⟨after, ran, rfl⟩⟩
  setHistory slot saved := by rintro rfl; exact ⟨fun after ran _ => ⟨after, ran, rfl⟩⟩
  seat state := by rintro rfl free; exact ⟨free, ⟨fun after ran _ => ⟨after, ran, rfl⟩⟩⟩
  full := by rintro _ _ _ rfl none _; exact ⟨none, rfl⟩
  withActiveLeaves := by rintro _ _ _ rfl _; rfl
  withPhase phase := by rintro rfl; rfl
  withSteps steps := by rintro rfl; rfl
  dropped := by rintro _ _ rfl; rfl
  dequeue := by rintro _ _ rfl; exact ⟨fun answer ran _ => ⟨answer, ran, rfl, rfl⟩⟩
  enqueue event := by rintro _ rfl _; exact ⟨fun answer ran _ => ⟨answer, ran, rfl, rfl⟩⟩
  requeue flags := by rintro rfl _ _ rfl; exact ⟨fun answer ran _ => ⟨answer, ran, rfl, rfl⟩⟩

/-- Callbacks that do the same for both hosts. `same` is what is kept up: the instances are alike,
and whatever else is to be known of the two. -/
structure Lockstep (kernel : Kernel User) (dispatch : Dispatch Other) (good : Trace.Entry → Prop)
    (like : Instance → Instance → Prop) (moreLeaves moreTimers : List Nat)
    (same : Progress User → Progress Other → Prop) : Prop
    extends Mirrors good like moreLeaves moreTimers where
  alike {progress : Progress User} {partner : Progress Other} : same progress partner →
    like progress.inst partner.inst
  withInst {progress : Progress User} {partner : Progress Other} {small large : Instance} :
    same progress partner → like small large →
    same (progress.withInst small) (partner.withInst large)
  note {progress : Progress User} {partner : Progress Other} {entry : Trace.Entry} :
    same progress partner → entry.Uncalled → same (progress.note entry) (partner.note entry)
  invoke {progress : Progress User} {partner : Progress Other} {entry : Trace.Entry}
    {action : UInt16} : same progress partner → Sited kernel.definition entry →
    entry.action? = some action →
    Tracks (Clean good) same (kernel.invoke action (progress.note entry))
      ((kernel.withDispatch dispatch).invoke action (partner.note entry))
  checkGuard {progress : Progress User} {partner : Progress Other}
    {transition : TransitionRecord} : same progress partner →
    Tabled kernel.definition transition → transition.guard ≠ Name.noId →
    Tracks (fun answer => Clean good answer.2)
      (fun answer other => other.1 = answer.1 ∧ same answer.2 other.2)
      (kernel.checkGuard transition.guard transition.event progress)
      ((kernel.withDispatch dispatch).checkGuard transition.guard transition.event partner)

namespace Lockstep

variable {kernel : Kernel User} {dispatch : Dispatch Other} {good : Trace.Entry → Prop}
  {like : Instance → Instance → Prop} {moreLeaves moreTimers : List Nat}
  {same : Progress User → Progress Other → Prop}
  (lockstep : Lockstep kernel dispatch good like moreLeaves moreTimers same)
  {progress : Progress User} {partner : Progress Other} {state : UInt16}

include lockstep

/-! ### Queueing and callbacks -/

/-- Both queues answer alike. -/
theorem queueing_tracks {event : Event} {priority : Priority}
    (queues : Tracks (fun answer => answer.1 = false → good (.eventDropped event.id))
      (fun answer other => other.1 = answer.1 ∧ like answer.2 other.2)
      (progress.inst.enqueue event priority) (partner.inst.enqueue event priority))
    (pairs : same progress partner) :
    Tracks (Clean good) same (enqueueOrNote event priority progress)
      (enqueueOrNote event priority partner) := by
  unfold enqueueOrNote
  apply queues.bind
  · rintro ⟨accepted, inst⟩
    refine .pure fun clean refused => ?_
    obtain rfl : accepted = false := refused
    exact Clean.last clean
  · rintro ⟨_, inst⟩ ⟨accepted, other⟩ ⟨rfl, alike⟩
    refine .pure fun _ => ?_
    have queued := lockstep.withInst pairs alike
    dsimp only
    split
    · exact queued
    · exact lockstep.note queued trivial

theorem enqueueOrNote_tracks (event : Event) {priority : Priority}
    (low : priority ≠ .interrupt) (pairs : same progress partner) :
    Tracks (Clean good) same (enqueueOrNote event priority progress)
      (enqueueOrNote event priority partner) :=
  lockstep.queueing_tracks (lockstep.enqueue event (lockstep.alike pairs) low) pairs

theorem runAction_tracks {cause : Trace.Cause} {action : UInt16}
    (sited : action ≠ Name.noId → Sited kernel.definition (.action cause action state))
    (pairs : same progress partner) :
    Tracks (Clean good) same (kernel.runAction cause action state progress)
      ((kernel.withDispatch dispatch).runAction cause action state partner) := by
  unfold runAction
  split
  · exact .ok fun _ => pairs
  · next some => exact lockstep.invoke pairs (sited some) rfl

/-- What is asked of a guard, or taken for granted where there is none. -/
theorem askGuard_tracks {transition : TransitionRecord}
    (tabled : Tabled kernel.definition transition) (pairs : same progress partner) :
    Tracks (fun answer => Clean good answer.2)
      (fun answer other => other.1 = answer.1 ∧ same answer.2 other.2)
      (kernel.checkGuard transition.guard transition.event progress)
      ((kernel.withDispatch dispatch).checkGuard transition.guard transition.event partner) := by
  by_cases none : transition.guard = Name.noId
  · unfold Kernel.checkGuard
    rw [if_pos none, if_pos none]
    exact .ok fun _ => ⟨rfl, pairs⟩
  · exact lockstep.checkGuard pairs tabled none

/-! ### Choosing a transition -/

/-- The same transition of the tables was found. -/
def Picks (kernel : Kernel User) (same : Progress User → Progress Other → Prop)
    (found : Option TransitionRecord × Progress User)
    (other : Option TransitionRecord × Progress Other) : Prop :=
  other.1 = found.1 ∧ (∀ transition, found.1 = some transition →
    Tabled kernel.definition transition) ∧ same found.2 other.2

theorem selectGlobal_tracks (event : Event) {globals : List TransitionRecord}
    (listed : ∀ transition ∈ globals, transition ∈ kernel.definition.sections.globals)
    (pairs : same progress partner) :
    Tracks (fun found => Clean good found.2) (Picks kernel same)
      (kernel.selectGlobal event globals progress)
      ((kernel.withDispatch dispatch).selectGlobal event globals partner) := by
  induction globals generalizing progress partner with
  | nil => exact .ok fun _ => ⟨rfl, nofun, pairs⟩
  | cons transition rest ih =>
    have later := fun other member => listed other (List.mem_cons_of_mem transition member)
    have tabled : Tabled kernel.definition transition :=
      .inl (listed transition (List.mem_cons_self ..))
    unfold selectGlobal
    split
    · next waits =>
      rw [← waits]
      refine (lockstep.askGuard_tracks tabled pairs).bind ?_ ?_
      · rintro ⟨passed, asked⟩
        show Yields (if passed = true then _ else _) _
        split
        · exact .pure id
        · exact (selectGlobal_errands event rest asked).mono fun _ => Errands.clean
      · rintro ⟨_, asked⟩ ⟨passed, other⟩ ⟨rfl, pairs⟩
        show Tracks _ _ (if passed = true then _ else _) (if passed = true then _ else _)
        split
        · refine .pure fun _ => ⟨rfl, fun chosen isChosen => ?_, pairs⟩
          obtain rfl := Option.some.inj isChosen
          exact tabled
        · exact ih later pairs
    · exact ih later pairs

theorem selectOwn_tracks (event : Event) (indices : List Nat)
    {found : Option TransitionRecord × Progress User}
    {other : Option TransitionRecord × Progress Other} (picks : Picks kernel same found other) :
    Tracks (fun found => Clean good found.2) (Picks kernel same)
      (kernel.selectOwn event state indices found)
      ((kernel.withDispatch dispatch).selectOwn event state indices other) := by
  induction indices generalizing found other with
  | nil => exact .ok fun _ => picks
  | cons index rest ih =>
    obtain ⟨_, progress⟩ := found
    obtain ⟨best, partner⟩ := other
    obtain ⟨rfl, known, pairs⟩ := picks
    unfold selectOwn
    refine .read (.self _) fun transition looked => ?_
    have tabled : Tabled kernel.definition transition :=
      .inr ((kernel.definition.transition_yields index).of_eq _ looked)
    split
    · exact ih ⟨rfl, known, pairs⟩
    · next waits =>
      split
      · exact .pure fun _ => ⟨rfl, known, pairs⟩
      · have trigger : transition.event = event.id := by
          simp only [awaits, Bool.not_eq_true, Bool.not_eq_false', Bool.and_eq_true,
            decide_eq_true_eq] at waits
          exact waits.1
        rw [← trigger]
        refine (lockstep.askGuard_tracks tabled pairs).bind ?_ ?_
        · rintro ⟨passed, asked⟩
          show Yields (if passed = true then _ else _) _
          split
          · exact .pure id
          · exact (selectOwn_errands event state rest (best, asked)).mono fun _ => Errands.clean
        · rintro ⟨_, asked⟩ ⟨passed, other⟩ ⟨rfl, pairs⟩
          show Tracks _ _ (if passed = true then _ else _) (if passed = true then _ else _)
          split
          · refine .pure fun _ => ⟨rfl, fun chosen isChosen => ?_, pairs⟩
            obtain rfl := Option.some.inj isChosen
            exact tabled
          · exact ih ⟨rfl, known, pairs⟩

/-- Whether a state is reached is told alike. -/
theorem isReached_yields {small large : Instance} (alike : like small large) (slots : List Nat) :
    Yields (isReached kernel.definition small state slots) fun reached =>
      isReached kernel.definition large state slots = .ok reached := by
  induction slots with
  | nil => exact .ok rfl
  | cons slot rest ih =>
    unfold isReached
    apply (lockstep.leaf slot alike).bind
    intro leaf same
    rw [same, ok_bind]
    refine .bind_agrees fun met _ => ?_
    split
    · exact .pure rfl
    · exact ih

theorem selectLocal_tracks (event : Event) (slots : List Nat)
    {found : Option TransitionRecord × Progress User}
    {other : Option TransitionRecord × Progress Other} (picks : Picks kernel same found other) :
    Tracks (fun found => Clean good found.2) (Picks kernel same)
      (kernel.selectLocal event slots found)
      ((kernel.withDispatch dispatch).selectLocal event (slots ++ moreLeaves) other) := by
  induction slots generalizing found other with
  | nil =>
    obtain ⟨best, progress⟩ := found
    obtain ⟨bestOther, partner⟩ := other
    rw [List.nil_append]
    -- The slots that only the second instance has are empty, so it looks at the first at most.
    cases empty : moreLeaves with
    | nil => exact .ok fun _ => picks
    | cons slot rest =>
      have beyond : partner.inst.leaf slot = .ok noIndex :=
        lockstep.leafBeyond (lockstep.alike picks.2.2) (empty ▸ List.mem_cons_self ..)
      unfold selectLocal
      rw [beyond, ok_bind, if_pos rfl]
      exact .pure fun _ => picks
  | cons slot rest ih =>
    obtain ⟨_, progress⟩ := found
    obtain ⟨best, partner⟩ := other
    obtain ⟨rfl, known, pairs⟩ := picks
    rw [List.cons_append]
    unfold selectLocal
    refine .read (lockstep.leaf slot (lockstep.alike pairs)) fun leaf _ => ?_
    split
    · exact .pure fun _ => ⟨rfl, known, pairs⟩
    · have visiting (state : UInt16) (record : StateRecord)
          (found : Option TransitionRecord × Progress User) :
          Yields (kernel.selectOwn event state record.transitions.toList found) fun after =>
            Clean good after.2 → Clean good found.2 :=
        (selectOwn_errands event state _ found).mono fun _ => Errands.clean
      refine Tracks.bind (climb_tracks visiting ?_ ?_ ⟨rfl, known, pairs⟩) ?_ fun _ _ => ih
      · intro state found other picks
        exact lockstep.isReached_yields (lockstep.alike picks.2.2) (List.range slot)
      · intro state found other _ picks
        exact lockstep.selectOwn_tracks event _ picks
      · intro after
        exact (selectLocal_errands event rest after).mono fun _ => Errands.clean

/-- Both choose the same transition. -/
theorem select_tracks (event : Event) (pairs : same progress partner) :
    Tracks (fun found => Clean good found.2) (Picks kernel same) (kernel.select event progress)
      ((kernel.withDispatch dispatch).select event partner) := by
  unfold select
  refine (lockstep.selectGlobal_tracks event (fun _ => Array.mem_toList_iff.1) pairs).bind ?_ ?_
  · rintro ⟨chosen, reached⟩
    cases chosen with
    | some transition => exact .pure id
    | none => exact (selectLocal_errands event _ (none, reached)).mono fun _ => Errands.clean
  · rintro ⟨_, reached⟩ ⟨chosen, other⟩ ⟨rfl, known, pairs⟩
    cases chosen with
    | some transition => exact .pure fun _ => ⟨rfl, known, pairs⟩
    | none =>
      show Tracks _ _ _ (selectLocal _ event (List.range other.inst.tier.leafCapacity) _)
      rw [lockstep.leafRange (lockstep.alike pairs)]
      exact lockstep.selectLocal_tracks event _ ⟨rfl, known, pairs⟩

/-! ### Entering states -/

theorem armTimer_tracks (record : StateRecord) (pairs : same progress partner) :
    Tracks (Clean good) same (armTimer state record progress) (armTimer state record partner) := by
  unfold armTimer
  split
  · refine (lockstep.setTimer _ _ (lockstep.alike pairs)).bind_clean fun small large alike => ?_
    exact .pure fun _ => lockstep.note (lockstep.withInst pairs alike) trivial
  · exact .ok fun _ => pairs

theorem enterState_tracks (pairs : same progress partner) :
    Tracks (Clean good) same (kernel.enterState state progress)
      ((kernel.withDispatch dispatch).enterState state partner) := by
  unfold enterState
  refine .read (.self _) fun record looked => ?_
  obtain ⟨has, rfl⟩ := (kernel.definition.state_yields state).of_eq _ looked
  have noted : same (progress.note (.enter state)) (partner.note (.enter state)) :=
    lockstep.note pairs trivial
  refine (lockstep.armTimer_tracks _ noted).bind (fun armed => ?_) fun armed other pairs => ?_
  · exact (runAction_errands _ _ _ armed).mono fun _ => Errands.clean
  · exact lockstep.runAction_tracks (.entry has) pairs

theorem addLeaf_tracks (pairs : same progress partner) :
    Tracks (Clean good) same (addLeaf state progress) (addLeaf state partner) := by
  cases free : progress.inst.leaves.findIdx? (fun leaf => leaf == noIndex) with
  | some slot =>
    obtain ⟨freeToo, seats⟩ := lockstep.seat state (lockstep.alike pairs) free
    unfold addLeaf
    rw [free, freeToo]
    exact seats.map (fun _ _ => trivial) fun _ _ alike => lockstep.withInst pairs alike
  | none =>
    constructor
    intro after ran clean
    unfold addLeaf at ran
    rw [free] at ran
    cases ran
    obtain ⟨fullToo, alike⟩ := lockstep.full (lockstep.alike pairs) free clean.last
    unfold addLeaf
    rw [fullToo]
    exact ⟨_, rfl, lockstep.note (lockstep.withInst pairs alike) trivial⟩

/-- Two ways to settle states that track each other. -/
def Follows (good : Trace.Entry → Prop) (same : Progress User → Progress Other → Prop)
    (settle : Settle User) (other : Settle Other) : Prop :=
  ∀ state progress partner, same progress partner →
    Tracks (Clean good) same (settle state progress) (other state partner)

section Settling

variable {settle : Settle User} {settleOther : Settle Other} (moving : Moving kernel settle)
  (follows : Follows good same settle settleOther)

include moving follows

theorem enterAndSettle_tracks : Follows good same (kernel.enterAndSettle settle)
    ((kernel.withDispatch dispatch).enterAndSettle settleOther) := by
  intro state progress partner pairs
  refine (lockstep.enterState_tracks pairs).bind (fun entered => ?_) fun entered other =>
    follows state entered other
  exact (moving state entered).mono fun _ => Errands.clean

theorem enterPath_tracks (path : List UInt16) (pairs : same progress partner) :
    Tracks (Clean good) same (kernel.enterPath settle path progress)
      ((kernel.withDispatch dispatch).enterPath settleOther path partner) := by
  induction path generalizing progress partner with
  | nil => exact .ok fun _ => pairs
  | cons state rest ih =>
    cases rest with
    | nil => exact lockstep.enterAndSettle_tracks moving follows state _ _ pairs
    | cons next rest =>
      have honest (progress : Progress User) (child : UInt16) :
          Yields (kernel.enterBeside settle next rest progress child) fun after =>
            Clean good after → Clean good progress :=
        (moving.enterBeside next rest progress child).mono fun _ => Errands.clean
      rw [enterPath_cons_cons, enterPath_cons_cons]
      have entering : Tracks _ _ (kernel.enterState state progress) _ :=
        lockstep.enterState_tracks pairs
      refine entering.bind (fun entered => ?_) fun entered other pairs => ?_
      · apply (Yields.self _).bind
        intro record _
        split
        · exact (foldlM_errands (moving.enterBeside next rest) _ entered).mono
            fun _ => Errands.clean
        · exact (moving.enterPath _ entered).mono fun _ => Errands.clean
      · refine .read (.self _) fun record _ => ?_
        split
        · refine Tracks.foldlM honest (fun entered other child pairs => ?_) _ pairs
          unfold enterBeside
          split
          · exact ih pairs
          · exact lockstep.enterAndSettle_tracks moving follows child _ _ pairs
        · exact ih pairs

omit moving follows in
/-- What history names is read alike. -/
theorem restorable?_yields (record : StateRecord) {small large : Instance}
    (alike : like small large) :
    Yields (kernel.restorable? state record small) fun named =>
      (kernel.withDispatch dispatch).restorable? state record large = .ok named := by
  unfold restorable?
  split
  · exact .pure rfl
  · apply (lockstep.historyAt _ alike).bind
    intro saved read
    rw [read, ok_bind]
    exact .self _

theorem descendBy_tracks : Follows good same (kernel.descendBy settle)
    ((kernel.withDispatch dispatch).descendBy settleOther) := by
  have enters := lockstep.enterAndSettle_tracks moving follows
  intro state progress partner pairs
  unfold descendBy
  refine .read (.self _) fun record _ => ?_
  split
  · exact lockstep.addLeaf_tracks pairs
  · split
    · refine Tracks.foldlM (fun progress child => ?_) (fun entered other child pairs => ?_) _ pairs
      · exact (moving.enterAndSettle child progress).mono fun _ => Errands.clean
      · exact enters child _ _ pairs
    · refine .read (lockstep.restorable?_yields record (lockstep.alike pairs)) fun named _ => ?_
      cases named with
      | none => exact enters _ _ _ pairs
      | some saved =>
        simp only [enterNamed]
        split
        · refine .read (.self _) fun path _ => ?_
          exact lockstep.enterPath_tracks moving follows path pairs
        · exact enters saved _ _ pairs

end Settling

theorem descend_tracks :
    Follows good same kernel.descend (kernel.withDispatch dispatch).descend := by
  show Follows good same (kernel.descendFrom maxLevels)
    ((kernel.withDispatch dispatch).descendFrom maxLevels)
  generalize maxLevels = levels
  induction levels with
  | zero => exact fun _ _ _ _ => .error
  | succ levels ih => exact lockstep.descendBy_tracks (descendFrom_errands levels) ih

/-! ### Leaving states -/

theorem remember_tracks (record : StateRecord) {small large : Instance}
    (alike : like small large) :
    Tracks (fun _ => True) like (kernel.remember state record small)
      ((kernel.withDispatch dispatch).remember state record large) := by
  have actives := lockstep.activeLeaves alike
  unfold remember
  split
  · have reads : Yields (kernel.activeDescendant? state record.flags.deepHistory small)
        fun saved => (kernel.withDispatch dispatch).activeDescendant? state
          record.flags.deepHistory large = .ok saved := by
      unfold activeDescendant?
      rw [actives]
      exact .self _
    refine .read reads fun saved _ => ?_
    cases saved with
    | none => exact .pure fun _ => alike
    | some saved => exact lockstep.setHistory _ saved alike
  · exact .ok fun _ => alike

theorem disarm_tracks (record : StateRecord) {small large : Instance} (alike : like small large) :
    Tracks (fun _ => True) like (disarm record small) (disarm record large) := by
  unfold disarm
  split
  · exact lockstep.setTimer _ 0 alike
  · exact .ok fun _ => alike

theorem exitState_tracks (pairs : same progress partner) :
    Tracks (Clean good) same (kernel.exitState state progress)
      ((kernel.withDispatch dispatch).exitState state partner) := by
  rw [exitState_eq, exitState_eq]
  refine .read (.self _) fun record looked => ?_
  obtain ⟨has, rfl⟩ := (kernel.definition.state_yields state).of_eq _ looked
  refine (lockstep.remember_tracks _ (lockstep.alike pairs)).bind_clean fun small large alike => ?_
  refine (lockstep.disarm_tracks _ alike).bind_clean fun small large alike => ?_
  have left := lockstep.withInst pairs alike
  exact lockstep.runAction_tracks (.exit has) (lockstep.note left trivial)

theorem exitBelow_tracks (top : UInt16) (pairs : same progress partner) :
    Tracks (Clean good) same (kernel.exitBelow top progress)
      ((kernel.withDispatch dispatch).exitBelow top partner) := by
  unfold exitBelow
  simp only [lockstep.activeLeaves (lockstep.alike pairs)]
  refine .read (.self _) fun exiting _ => ?_
  refine .read (.self _) fun ordered _ => ?_
  have leaving := Tracks.foldlM
    (fun progress state => (exitState_errands state progress).mono fun _ => Errands.clean)
    (fun progress partner state pairs => lockstep.exitState_tracks pairs) ordered pairs
  refine leaving.bind (fun left => ?_) fun left other pairs => ?_
  · apply (Yields.self _).bind
    intro beside _
    exact .pure id
  · simp only [lockstep.activeLeaves (lockstep.alike pairs)]
    refine .read (.self _) fun beside remains => .pure fun _ => ?_
    have few := (Yields.length_filterM _ _).of_eq _ remains
    exact lockstep.withInst pairs (lockstep.withActiveLeaves (lockstep.alike pairs) few)

end Lockstep

end Kernel

end Statechart
