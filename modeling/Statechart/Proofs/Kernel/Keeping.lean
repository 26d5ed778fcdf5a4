/-
# What is kept over a tick

Beside what every tick keeps between its parts (`Underway`), more may be known of an instance.
It is kept over a whole tick (`tick_keeps`) if it survives all that leaves the configuration and
the history alone, the start, every transition, and the dropping of the configuration. While
states are entered less may be known, as long as entering them keeps it (`Keeper`).

Then what is known at the beginning of a tick is known of every part of it when it is called
(`Heard`, `within_heard`). A path that is entered, or a state that is settled, finds nothing
active below it and a sound queue (`Entering`), so what was shown of entering and settling
applies to the call.
-/

import Statechart.Proofs.Kernel.Advancing
import Statechart.Proofs.Kernel.Course

namespace Statechart.Kernel

open Rom (Definition Sections StateRecord TransitionRecord noIndex rootIndex)
open Stays (Clear Unopened)

variable {User : Type} {pledge : Instance.Pledge} {kernel : Kernel User} {idle : Prop}
  {start : Stays} {rests goes : Progress User → Prop} {progress before middle after : Progress User}
  {call callee : Call User} {state next child : UInt16} {rest : List UInt16}

/-- What is known of a transition that is about to be taken. -/
def Firing (pledge : Instance.Pledge) (kernel : Kernel User) (idle : Prop) (start : Stays)
    (transition : TransitionRecord) (event : UInt16) (progress : Progress User) : Prop :=
  Returns (kernel.fire transition event progress) fun after =>
    Extends kernel start progress after ∧ Underway pledge kernel idle start after

/-- A transition was chosen. It is enabled, and taking it returns. -/
structure Poised (pledge : Instance.Pledge) (kernel : Kernel User) (idle : Prop) (start : Stays)
    (transition : TransitionRecord) (event : UInt16) (progress : Progress User) : Prop where
  firing : Firing pledge kernel idle start transition event progress
  exists_enabled : ∃ active, Holds progress.inst.leaves active ∧
    Enabled kernel.definition active transition

/-- Something that is known of a life and of its instance is known at a moment within a tick,
after what came before the tick. -/
def Throughlife (told : List Trace.Entry → Instance → Prop) (past : List Trace.Entry)
    (progress : Progress User) : Prop :=
  told (past ++ progress.trace.toList) progress.inst

/-- What is known between two parts of a tick. -/
structure Keeps (pledge : Instance.Pledge) (kernel : Kernel User) (idle : Prop) (start : Stays)
    (rests : Progress User → Prop) (progress : Progress User) : Prop where
  underway : Underway pledge kernel idle start progress
  rests : rests progress

/-- What is known between the parts of a tick, and what is known while states are entered, is kept
by all that a tick does. -/
structure Keeper (pledge : Instance.Pledge) (kernel : Kernel User) (start : Stays)
    (rests goes : Progress User → Prop) : Prop where
  idles {before after : Progress User} : rests before → Idles before after →
    after.inst.leaves = before.inst.leaves → rests after
  contains {progress : Progress User} : rests progress → rests (kernel.contain progress)
  starts {idle : Prop} {progress : Progress User} : Keeps pledge kernel idle start rests progress →
    progress.inst.isStarted = false → Yields (kernel.descend rootIndex progress) rests
  fires {idle : Prop} {transition : TransitionRecord} {event : UInt16} {progress : Progress User} :
    Keeps pledge kernel idle start rests progress →
    Poised pledge kernel idle start transition event progress →
    Yields (kernel.fire transition event progress) rests
  begins {progress : Progress User} : rests progress → goes progress
  /-- A transition has left what is in its way, and its action has run. -/
  exchanges {idle : Prop} {transition : TransitionRecord} {event top : UInt16}
    {progress left acted : Progress User} : Keeps pledge kernel idle start rests progress →
    kernel.exitBelow top
      (progress.note (.transition transition.source transition.target event)) = .ok left →
    kernel.runAction .effect transition.action transition.source left = .ok acted → goes acted
  advances {before after : Progress User} : goes before → Advances before after → goes after

/-! ### Between the transitions -/

namespace Keeps

variable (keeper : Keeper pledge kernel start rests goes)

theorem weaken {wider : Prop} (keeps : Keeps pledge kernel idle start rests progress)
    (allows : idle → wider) : Keeps pledge kernel wider start rests progress :=
  ⟨keeps.underway.weaken allows, keeps.rests⟩

theorem started (keeps : Keeps pledge kernel idle start rests progress)
    (running : progress.inst.isStarted = true) : Keeps pledge kernel False start rests progress :=
  ⟨keeps.underway.started running, keeps.rests⟩

include keeper

theorem of_quiet (keeps : Keeps pledge kernel idle start rests before)
    (spares : kernel.dispatch.Preserves Instance.history) (kept : Kept pledge kernel before after)
    (quiet : Quiet kernel start before after) : Keeps pledge kernel idle start rests after :=
  ⟨keeps.underway.of_quiet kept quiet,
    keeper.idles keeps.rests (quiet.idles spares) kept.leaves_eq⟩

theorem withPhase (keeps : Keeps pledge kernel idle start rests progress) (phase : Phase) :
    Keeps pledge kernel idle start rests (progress.withPhase phase) :=
  ⟨keeps.underway.withPhase phase, keeper.idles keeps.rests (.untraced rfl rfl) rfl⟩

theorem withSteps (keeps : Keeps pledge kernel idle start rests progress) (steps : Nat) :
    Keeps pledge kernel idle start rests (Kernel.withSteps steps progress) :=
  ⟨keeps.underway.withSteps steps, keeper.idles keeps.rests (.untraced rfl rfl) rfl⟩

/-- An event is taken from the queue. -/
theorem take {event : Event} {inst : Instance}
    (keeps : Keeps pledge kernel idle start rests progress)
    (taken : progress.inst.dequeue = .ok (some event, inst)) :
    Keeps pledge kernel idle start rests
      ((progress.withInst inst).note (.event event.id event.priority)) := by
  have same := Instance.dequeue_sameSlots.of_eq _ taken
  refine ⟨keeps.underway.take taken, keeper.idles keeps.rests ?_ same.leaves_eq⟩
  exact ⟨same.history_eq, [_], Array.toList_push, List.forall_mem_singleton.2 trivial⟩

/-- A deferred event is put back. -/
theorem putBack {event : Event} {inst : Instance}
    (keeps : Keeps pledge kernel idle start rests progress)
    (spares : kernel.dispatch.Preserves Instance.history)
    (taken : progress.inst.dequeue = .ok (some event, inst))
    (deferred : event.flags.deferred = true) :
    Yields (requeue event (progress.withInst inst)) (Keeps pledge kernel idle start rests) := by
  apply (Reliable.requeue_quiet taken deferred keeps.underway.steady).mono
  rintro after ⟨kept, quiet⟩
  exact keeps.of_quiet keeper spares kept quiet

theorem fire {transition : TransitionRecord} {event : UInt16}
    (keeps : Keeps pledge kernel idle start rests progress)
    (poised : Poised pledge kernel idle start transition event progress) :
    Yields (kernel.fire transition event progress) (Keeps pledge kernel idle start rests) :=
  (poised.firing.yields.and (keeper.fires keeps poised)).mono fun _ both => ⟨both.1.2, both.2⟩

end Keeps

namespace Reliable

variable (reliable : Reliable pledge kernel) (spares : kernel.dispatch.Preserves Instance.history)
  (keeper : Keeper pledge kernel start rests goes)

include reliable spares keeper

/-- Looking for a transition. -/
theorem select_keeps (event : Event) (keeps : Keeps pledge kernel idle start rests progress) :
    Yields (kernel.select event progress) fun found =>
      Keeps pledge kernel idle start rests found.2 ∧ ∀ transition, found.1 = some transition →
        Poised pledge kernel idle start transition event.id found.2 := by
  obtain ⟨active, holds, -, has, -⟩ := keeps.underway.states reliable.sound.wellFormed
  have selecting := (reliable.select_returns event holds has keeps.underway.steady).yields
  apply (selecting.and (reliable.select_underway event keeps.underway)).mono
  rintro found ⟨searched, quiet, -, firing⟩
  refine ⟨keeps.of_quiet keeper spares searched.kept quiet, fun transition same => ?_⟩
  refine ⟨(firing transition same).mono fun after fired => ⟨fired.1.extends, fired.2⟩, active, ?_⟩
  exact ⟨searched.kept.holds holds, searched.enabled transition same⟩

omit spares in
/-- Entering the default configuration. -/
theorem start_keeps (keeps : Keeps pledge kernel idle start rests progress)
    (fresh : progress.inst.isStarted = false) :
    Yields (kernel.descend rootIndex progress) (Keeps pledge kernel False start rests) :=
  ((reliable.start_underway keeps.underway fresh).yields.and (keeper.starts keeps fresh)).mono
    fun _ both => ⟨both.1.2, both.2⟩

theorem runFrom_keeps (remaining : Nat) : ∀ steps event progress,
    Keeps pledge kernel idle start rests progress →
      Yields (kernel.runFrom remaining steps event progress) fun completion =>
        Keeps pledge kernel idle start rests completion.reached := by
  induction remaining with
  | zero =>
    intro steps event progress keeps
    unfold runFrom
    apply (reliable.select_keeps spares keeper event keeps).bind
    rintro ⟨chosen, after⟩ ⟨still, -⟩
    cases chosen with
    | none => exact .pure still
    | some transition => exact .pure still
  | succ remaining ih =>
    intro steps event progress keeps
    unfold runFrom
    apply (reliable.select_keeps spares keeper event keeps).bind
    rintro ⟨chosen, after⟩ ⟨still, poised⟩
    cases chosen with
    | none => exact .pure still
    | some transition =>
      apply (still.fire keeper (poised transition rfl)).bind
      intro fired next
      exact ih _ _ _ (next.withSteps keeper (steps + 1))

theorem runToCompletion_keeps (event : Event)
    (keeps : Keeps pledge kernel idle start rests progress) :
    Yields (kernel.runToCompletion event progress) fun completion =>
      Keeps pledge kernel idle start rests completion.reached :=
  reliable.runFrom_keeps spares keeper _ _ _ _ (keeps.withSteps keeper 0)

omit spares in
theorem enterPhase_keeps {next : Progress User → Except Fault (Service User)}
    (onward : ∀ progress, Keeps pledge kernel False start rests progress →
      Yields (next progress) fun service => Keeps pledge kernel False start rests service.reached)
    (keeps : Keeps pledge kernel idle start rests progress) :
    Yields (kernel.enterPhase next progress) fun service =>
      Keeps pledge kernel False start rests service.reached := by
  have entry := keeps.withPhase keeper .entry
  unfold enterPhase
  show Yields (if _ then _ else _) _
  split
  · next running => exact onward _ (entry.started running)
  · next fresh =>
    apply (reliable.start_keeps keeper entry (Bool.eq_false_iff.2 fresh)).bind
    intro after began
    exact .pure began

theorem serveEvent_keeps (budget transitions : Nat)
    {next : Nat → Progress User → Except Fault (Service User)} (event : Event)
    (onward : ∀ transitions progress, Keeps pledge kernel False start rests progress →
      Yields (next transitions progress) fun service =>
        Keeps pledge kernel False start rests service.reached)
    (keeps : Keeps pledge kernel False start rests progress) :
    Yields (kernel.serveEvent budget transitions next event progress) fun service =>
      Keeps pledge kernel False start rests service.reached := by
  unfold serveEvent
  apply (reliable.runToCompletion_keeps spares keeper event (keeps.withPhase keeper .rtc)).bind
  intro completion running
  cases completion with
  | overflow after => exact .pure running
  | settled steps after =>
    show Yields (if _ then _ else _) _
    split
    · exact reliable.enterPhase_keeps keeper (onward _) running
    · exact .pure running

theorem serve_keeps (budget : Nat) : ∀ transitions progress,
    Keeps pledge kernel False start rests progress →
      Yields (kernel.serve budget transitions progress) fun service =>
        Keeps pledge kernel False start rests service.reached := by
  induction budget with
  | zero => exact fun _ _ keeps => .ok keeps
  | succ budget ih =>
    intro transitions progress keeps
    unfold serve
    apply (Yields.self _).bind
    rintro ⟨next, inst⟩ taken
    cases next with
    | none => exact .pure keeps
    | some next =>
      show Yields (if _ then _ else _) _
      split
      · next deferred =>
        apply (keeps.putBack keeper spares taken deferred).bind
        exact fun after queued => ih transitions after queued
      · exact reliable.serveEvent_keeps spares keeper _ _ next ih (keeps.take keeper taken)

theorem finish_keeps (outcome : Outcome)
    (keeps : Keeps pledge kernel idle start rests progress) :
    Yields (kernel.finish outcome progress) fun answer => rests answer.2 := by
  have activity := keeps.withPhase keeper .activity
  obtain ⟨active, holds, -, has, -⟩ := activity.underway.states reliable.sound.wellFormed
  have acting := (reliable.runActivities_returns holds has activity.underway.steady).yields
  unfold finish
  apply (acting.and (reliable.runActivities_quiet activity.underway.queueSound)).bind
  rintro after ⟨kept, quiet⟩
  exact .pure ((activity.of_quiet keeper spares kept quiet).withPhase keeper .idle).rests

theorem advanceTimers_keeps (delta : UInt32)
    (keeps : Keeps pledge kernel idle start rests progress) :
    Yields (kernel.advanceTimers delta progress) (Keeps pledge kernel idle start rests) := by
  obtain ⟨active, holds, -, has, -⟩ := keeps.underway.states reliable.sound.wellFormed
  have passing := (reliable.advanceTimers_returns delta holds has keeps.underway.steady).yields
  apply ((reliable.advanceTimers_underway delta keeps.underway).and
    (passing.and (advanceTimers_idles spares delta _))).mono
  rintro after ⟨underway, kept, idles⟩
  exact ⟨underway, keeper.idles keeps.rests idles kept.leaves_eq⟩

/-- What is known when a tick begins is known when it ends. -/
theorem tick_keeps (delta : UInt32) {scene : Scene User} (resting : scene.inst.phase? = some .idle)
    (keeps : Keeps pledge kernel True start rests (.ofScene scene)) :
    Yields (kernel.tick delta scene) fun answer => rests answer.2 := by
  unfold tick
  split
  · rw [resting]
    apply (reliable.advanceTimers_keeps spares keeper delta (keeps.withPhase keeper .idle)).bind
    intro aged passed
    split
    · exact reliable.finish_keeps spares keeper _ passed
    · apply (reliable.enterPhase_keeps keeper
        (reliable.serve_keeps spares keeper _ 0) passed).bind
      intro service served
      cases service with
      | started after => exact reliable.finish_keeps spares keeper _ served
      | served budget transitions after => exact reliable.finish_keeps spares keeper _ served
      | overflow after => exact .ok (keeper.contains served.rests)
  · exact .ok keeps.rests

end Reliable

/-! ### Calls while states are entered -/

/-- What is known of a call that enters a path or settles a state, when it is made. -/
inductive Entering (kernel : Kernel User) (start : Stays) : Call User → Progress User → Prop
  | enter {first target : UInt16} {rest : List UInt16} {progress : Progress User} :
      kernel.definition.sections.Way first rest target → progress.inst.QueueSound →
      Unopened kernel.definition.sections (progress.stays start) first →
      Entering kernel start (.enter (first :: rest) progress) progress
  | settle {state : UInt16} {progress : Progress User} :
      kernel.definition.sections.Has state → progress.inst.QueueSound →
      Clear kernel.definition.sections (progress.stays start) state →
      Entering kernel start (.settle state progress) progress

namespace Reliable

variable (reliable : Reliable pledge kernel) (spares : kernel.dispatch.Preserves Instance.history)

include reliable

theorem enterAndSettle_opens (sound : progress.inst.QueueSound)
    (unopened : Unopened kernel.definition.sections (progress.stays start) child) :
    Yields (kernel.enterAndSettle kernel.descend child progress)
      (Opened kernel start [child] progress) :=
  reliable.enter_opens reliable.descend_opens sound unopened

/-- A child of a parallel state that a path passes through is opened, on the path or beside it. -/
theorem enterBeside_opens {target : UInt16}
    (way : kernel.definition.sections.Way next rest target) (sound : progress.inst.QueueSound)
    (unopened : Unopened kernel.definition.sections (progress.stays start) child) :
    Yields (kernel.enterBeside kernel.descend next rest progress child)
      (Opened kernel start [child] progress) := by
  unfold enterBeside
  split
  · next same =>
    subst same
    exact reliable.enterPath_opens reliable.descend_opens way sound unopened
  · exact reliable.enterAndSettle_opens sound unopened

/-- When its turn comes, a child of a parallel state may be entered. -/
theorem region_unopened {step : Progress User → UInt16 → Except Fault (Progress User)}
    {earlier later : List UInt16} (has : kernel.definition.sections.Has state)
    (parallel : (kernel.definition.sections.record state).flags.parallel = true)
    (sound : before.inst.QueueSound)
    (clear : Clear kernel.definition.sections (before.stays start) state)
    (opens : ∀ child, ∀ progress : Progress User, progress.inst.QueueSound →
      Unopened kernel.definition.sections (progress.stays start) child →
      Yields (step progress child) (Opened kernel start [child] progress))
    (words : (kernel.definition.sections.record state).children.words = earlier ++ child :: later)
    (reached : earlier.foldlM step before = .ok middle) :
    Opened kernel start earlier before middle ∧
      Unopened kernel.definition.sections (middle.stays start) child := by
  have wellFormed := reliable.sound.wellFormed
  have opened : Opened kernel start earlier before middle :=
    (regions_open_from wellFormed has parallel (fun child _ => opens child) words clear
      (.nil sound)).of_eq _ reached
  have linked {sibling : UInt16} (listed : sibling ∈ earlier ++ child :: later) :
      kernel.definition.sections.Child state sibling :=
    (wellFormed.mem_words has).1 (words ▸ listed)
  have apart := wellFormed.nodup_words has
  rw [words, List.nodup_append] at apart
  refine ⟨opened, opened.unopened wellFormed parallel clear
    (fun sibling listed => linked (List.mem_append_left _ listed))
    (linked (List.mem_append_right _ (List.mem_cons_self ..)))
    fun again => apart.2.2 child again child (List.mem_cons_self ..) rfl⟩

include spares

/-- A state that may be entered is entered, and then it may be settled. -/
theorem enterState_clears (sound : progress.inst.QueueSound)
    (unopened : Unopened kernel.definition.sections (progress.stays start) state)
    (entered : kernel.enterState state progress = .ok after) :
    after.inst.QueueSound ∧ Clear kernel.definition.sections (after.stays start) state ∧
      Advances progress after := by
  have admitted := (reliable.enterState_admits sound unopened.enterable).of_eq _ entered
  exact ⟨admitted.queueSound, admitted.stays_eq ▸ unopened.clear,
    ((enterState_enters spares state progress).of_eq _ entered).advances⟩

/-- A child that may be entered is entered, and then it is settled. -/
theorem settle_entering (sound : progress.inst.QueueSound)
    (unopened : Unopened kernel.definition.sections (progress.stays start) child)
    (entered : kernel.enterState child progress = .ok after) (since : Advances before progress) :
    ∃ inside, Entering kernel start (.settle child after) inside ∧ Advances before inside := by
  obtain ⟨still, clear, more⟩ := reliable.enterState_clears spares sound unopened entered
  exact ⟨after, .settle unopened.enterable.has still clear, since.trans more⟩

/-- A call that enters states makes calls of this kind. -/
theorem callee_entering (entering : Entering kernel start call progress)
    (calls : kernel.Calls call callee) :
    ∃ inside, Entering kernel start callee inside ∧ Advances progress inside := by
  have wellFormed := reliable.sound.wellFormed
  have descends := descend_advances spares
  have settling := enterAndSettle_advances spares descends
  have more {next : UInt16} {rest earlier : List UInt16} {entered middle : Progress User}
      (reached : earlier.foldlM (kernel.enterBeside kernel.descend next rest) entered =
        .ok middle) : Advances entered middle :=
    (foldlM_advances (enterBeside_advances spares descends
      (enterPath_advances spares descends _)) _ _).of_eq _ reached
  cases entering with
  | enter way sound unopened =>
    cases calls with
    | last entered => exact reliable.settle_entering spares sound unopened entered (.refl _)
    | onward entered known serial =>
      obtain ⟨still, clear, since⟩ := reliable.enterState_clears spares sound unopened entered
      cases way with
      | down linked way => exact ⟨_, .enter way still (clear.unopened wellFormed linked), since⟩
    | @through _ next rest earlier later _ entered middle _ enters known parallel words reached =>
      obtain ⟨still, clear, since⟩ := reliable.enterState_clears spares sound unopened enters
      obtain ⟨has, rfl⟩ := (kernel.definition.state_yields _).of_eq _ known
      cases way with
      | down linked way =>
        obtain ⟨opened, unopened⟩ := reliable.region_unopened has parallel still clear
          (fun _ _ sound unopened => reliable.enterBeside_opens way sound unopened) words reached
        exact ⟨_, .enter way opened.queueSound unopened, since.trans (more reached)⟩
    | @beside _ next child rest earlier later _ entered middle inside _ enters known parallel words
        other reached inner =>
      obtain ⟨still, clear, since⟩ := reliable.enterState_clears spares sound unopened enters
      obtain ⟨has, rfl⟩ := (kernel.definition.state_yields _).of_eq _ known
      cases way with
      | down linked way =>
        obtain ⟨opened, unopened⟩ := reliable.region_unopened has parallel still clear
          (fun _ _ sound unopened => reliable.enterBeside_opens way sound unopened) words reached
        exact reliable.settle_entering spares opened.queueSound unopened inner
          (since.trans (more reached))
  | settle has sound clear =>
    cases calls with
    | region known inner parallel words reached inside =>
      obtain ⟨-, rfl⟩ := (kernel.definition.state_yields _).of_eq _ known
      obtain ⟨opened, unopened⟩ := reliable.region_unopened has parallel sound clear
        (fun child _ sound unopened => reliable.enterAndSettle_opens sound unopened) words reached
      exact reliable.settle_entering spares opened.queueSound unopened inside
        ((foldlM_advances (fun middle child => settling child middle) _ _).of_eq _ reached)
    | initial known inner serial restores entered =>
      obtain ⟨-, rfl⟩ := (kernel.definition.state_yields _).of_eq _ known
      exact reliable.settle_entering spares sound
        (clear.unopened wellFormed (reliable.child_defaultChild has inner serial)) entered (.refl _)
    | shallow known inner serial restores shallow entered =>
      obtain ⟨-, rfl⟩ := (kernel.definition.state_yields _).of_eq _ known
      obtain ⟨-, -, linked⟩ := (reliable.restorable?_yields _ _).of_eq _ restores _ rfl
      exact reliable.settle_entering spares sound
        (clear.unopened wellFormed (linked shallow)) entered (.refl _)
    | deep known inner serial restores deep path =>
      obtain ⟨-, rfl⟩ := (kernel.definition.state_yields _).of_eq _ known
      obtain ⟨beneath, proper, -⟩ := (reliable.restorable?_yields _ _).of_eq _ restores _ rfl
      cases (reliable.restoredPath_returns beneath).yields.of_eq _ path with
      | here _ => exact absurd rfl proper
      | down linked way =>
        exact ⟨_, .enter way sound (clear.unopened wellFormed linked), .refl _⟩

end Reliable

/-! ### What is known of every call -/

/-- What is known of a part of a tick when it is called. -/
inductive Heard (pledge : Instance.Pledge) (kernel : Kernel User) (start : Stays)
    (rests goes : Progress User → Prop) : Call User → Prop
  | tick {delta : UInt32} {scene : Scene User} :
      scene.inst.phase? = some .idle → Keeps pledge kernel True start rests (.ofScene scene) →
      Heard pledge kernel start rests goes (.tick delta scene)
  | resume {budget transitions : Nat} {progress : Progress User} :
      Keeps pledge kernel True start rests progress →
      Heard pledge kernel start rests goes (.resume budget transitions progress)
  | serve {budget transitions : Nat} {progress : Progress User} :
      Keeps pledge kernel False start rests progress →
      Heard pledge kernel start rests goes (.serve budget transitions progress)
  | serveEvent {budget transitions : Nat} {event : Event} {progress : Progress User} :
      Keeps pledge kernel False start rests progress →
      Heard pledge kernel start rests goes (.serveEvent budget transitions event progress)
  | complete {remaining steps : Nat} {event : Event} {progress : Progress User} :
      Keeps pledge kernel False start rests progress →
      Heard pledge kernel start rests goes (.complete remaining steps event progress)
  | fire {transition : TransitionRecord} {event : UInt16} {progress : Progress User} :
      Keeps pledge kernel False start rests progress →
      Poised pledge kernel False start transition event progress →
      Heard pledge kernel start rests goes (.fire transition event progress)
  | entering {call : Call User} {before after : Progress User} :
      Entering kernel start call before → Runs kernel call before after → goes before →
      Heard pledge kernel start rests goes call

namespace Reliable

variable (reliable : Reliable pledge kernel) (spares : kernel.dispatch.Preserves Instance.history)
  (keeper : Keeper pledge kernel start rests goes)

include reliable spares keeper

omit spares in
/-- The default configuration is entered where nothing is active. -/
theorem start_heard (keeps : Keeps pledge kernel idle start rests progress)
    (fresh : progress.inst.isStarted = false) :
    Heard pledge kernel start rests goes (.settle rootIndex progress) := by
  obtain ⟨after, settles, -⟩ := reliable.start_underway keeps.underway fresh
  exact .entering (.settle reliable.sound.wellFormed.has_root keeps.underway.queueSound
    (keeps.underway.fresh fresh).2.clear_root) (.settle settles) (keeper.begins keeps.rests)

omit spares in
/-- After a transition has left what was in its way, the way to its target may be entered. -/
theorem exchange_heard {transition : TransitionRecord} {event top : UInt16}
    {left acted : Progress User} {chain : List UInt16} {record : StateRecord}
    (keeps : Keeps pledge kernel idle start rests progress)
    (poised : Poised pledge kernel idle start transition event progress)
    (external : transition.flags.isInternal = false) (within : kernel.scopeOf transition = .ok top)
    (leaves : kernel.exitBelow top
      (progress.note (.transition transition.source transition.target event)) = .ok left)
    (acts : kernel.runAction .effect transition.action transition.source left = .ok acted)
    (down : kernel.chainTo transition.target = .ok chain)
    (known : kernel.definition.state top = .ok record) :
    Heard pledge kernel start rests goes
      (.enter (chain.drop (record.depth.toNat + 1)) acted) := by
  have wellFormed := reliable.sound.wellFormed
  obtain ⟨active, holds, -, has, matched⟩ := keeps.underway.states wellFormed
  obtain ⟨others, also, enabled⟩ := poised.exists_enabled
  obtain rfl := holds_unique holds also
  obtain ⟨-, ⟨beneath, proper⟩, limits⟩ :=
    (reliable.scopeOf_returns enabled external).yields.of_eq _ within
  let noted := progress.note (.transition transition.source transition.target event)
  have vacating := reliable.vacate_yields (show Trace.Cause.effect ≠ .timer by decide)
    transition.action transition.source has (limits.imp_right And.right)
    (show noted.inst.QueueSound from keeps.underway.queueSound) holds matched.note_transition
  have vacates := vacating.of_eq acted (by rw [leaves, ok_bind, acts])
  obtain ⟨after, fires, -⟩ := poised.firing
  rw [fire_of_external kernel external, within, ok_bind, leaves, ok_bind, acts, ok_bind, down,
    ok_bind, known, ok_bind] at fires
  obtain ⟨-, rfl⟩ := (kernel.definition.state_yields _).of_eq _ known
  have way := ((reliable.chainTo_returns beneath).yields.of_eq _ down).2
  generalize chain.drop _ = path at way fires ⊢
  cases way with
  | here _ => exact absurd rfl proper
  | down linked way =>
    exact .entering (.enter way vacates.queueSound (vacates.unopened _ linked)) (.enter fires)
      (keeper.exchanges keeps leaves acts)

/-- What is known of a part of a tick is known of the parts it calls. -/
theorem callee_heard (heard : Heard pledge kernel start rests goes call)
    (calls : kernel.Calls call callee) : Heard pledge kernel start rests goes callee := by
  cases heard with
  | tick resting keeps =>
    cases calls with
    | idle _ _ ages _ =>
      exact .resume ((reliable.advanceTimers_keeps spares keeper _
        (keeps.withPhase keeper .idle)).of_eq _ ages)
    | entry _ phase => cases resting.symm.trans phase
    | rtc _ phase => cases resting.symm.trans phase
  | resume keeps =>
    have entry := keeps.withPhase keeper .entry
    cases calls with
    | started running => exact .serve (entry.started running)
    | start fresh => exact reliable.start_heard keeper entry fresh
  | serve keeps =>
    cases calls with
    | putBack taken deferred queued =>
      exact .serve ((keeps.putBack keeper spares taken deferred).of_eq _ queued)
    | take taken _ => exact .serveEvent (keeps.take keeper taken)
  | serveEvent keeps =>
    cases calls with
    | run => exact .complete ((keeps.withPhase keeper .rtc).withSteps keeper 0)
    | further ran _ _ =>
      exact .resume (((reliable.runToCompletion_keeps spares keeper _
        (keeps.withPhase keeper .rtc)).of_eq _ ran).weaken False.elim)
  | complete keeps =>
    cases calls with
    | fire selects =>
      obtain ⟨chosen, poised⟩ := (reliable.select_keeps spares keeper _ keeps).of_eq _ selects
      exact .fire chosen (poised _ rfl)
    | again selects fires =>
      obtain ⟨chosen, poised⟩ := (reliable.select_keeps spares keeper _ keeps).of_eq _ selects
      exact .complete (((chosen.fire keeper (poised _ rfl)).of_eq _ fires).withSteps keeper _)
  | fire keeps poised =>
    cases calls with
    | exchange external within leaves acts down known =>
      exact reliable.exchange_heard keeper keeps poised external within leaves acts down known
  | entering entering runs known =>
    obtain ⟨inside, entering, since⟩ := reliable.callee_entering spares entering calls
    cases runs.callee spares calls with
    | enter runs _ _ =>
      cases entering with
      | enter way sound unopened =>
        exact .entering (.enter way sound unopened) runs (keeper.advances known since)
    | settle runs _ _ _ =>
      cases entering with
      | settle has sound clear =>
        exact .entering (.settle has sound clear) runs (keeper.advances known since)

/-- So it is known of every part of a tick. -/
theorem within_heard (heard : Heard pledge kernel start rests goes call)
    (within : kernel.Within call callee) : Heard pledge kernel start rests goes callee := by
  induction within with
  | refl => exact heard
  | tail _ calls ih => exact reliable.callee_heard spares keeper ih calls

end Reliable

end Statechart.Kernel
